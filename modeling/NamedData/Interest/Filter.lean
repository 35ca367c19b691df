import NamedData.Name.Basic

/-!
Filters that select which incoming interests an application sees.
-/
namespace NamedData

/-- Selects the interests whose names continue a prefix. -/
structure InterestFilter where
  root : Name
deriving DecidableEq, Inhabited

namespace InterestFilter

/-- `InterestFilter::matches_name`: whether an interest of that name is selected. -/
def matchesName (f : InterestFilter) (n : Name) : Bool := f.root.isPrefixOf n

/-- An `InterestFilter` is displayed as the URI of its prefix. -/
def toUri (f : InterestFilter) : String := f.root.toUri

end InterestFilter

end NamedData
