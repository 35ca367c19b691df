import NamedData.Name.Basic
import NamedData.Time.Duration

/-!
Requests for named data, and which names answer them.
-/
namespace NamedData

/-- A request for data whose name continues `name`, qualified by selectors. -/
structure Interest where
  name : Name
  minSuffix : Option UInt64 := none
  maxSuffix : Option UInt64 := none
  exclude : List Component := []
  childSelector : Option UInt8 := none
  mustBeFresh : Bool := false
  lifetime : Option Duration := none
  nonce : Option UInt32 := none
deriving DecidableEq, Inhabited

namespace Interest

/-- `Interest::with_exclude`: the interest with one more component excluded. -/
def withExclude (i : Interest) (c : Component) : Interest := { i with exclude := i.exclude ++ [c] }

/-- `Interest::matches_name`: whether a name satisfies the name and the selectors of an interest.

The components after the interest's name are counted together with the implicit digest component, so a
name equal to the interest's has one suffix component. Only the component right after the interest's
name can be excluded. -/
def matchesName (i : Interest) (n : Name) : Bool :=
  i.name.isPrefixOf n &&
    (let suffix := n.length + 1 - i.name.length
     (match i.minSuffix with
      | some least => decide (least.toNat ≤ suffix)
      | none => true) &&
     (match i.maxSuffix with
      | some most => decide (suffix ≤ most.toNat)
      | none => true) &&
     (match n.get? i.name.length with
      | some next => !i.exclude.contains next
      | none => true))

end Interest

end NamedData
