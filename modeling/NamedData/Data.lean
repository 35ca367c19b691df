import NamedData.Name.Basic
import NamedData.Time.Duration

/-!
Named units of content.
-/
namespace NamedData

/-- A named unit of content that satisfies matching interests. -/
structure Data where
  name : Name
  content : Bytes
  freshness : Option Duration := none
deriving DecidableEq, Inhabited

end NamedData
