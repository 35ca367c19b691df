import NamedData.Name.Component

/-!
Hierarchical names and their prefix order.
-/
namespace NamedData

/-- A hierarchical name, such as `/example/videos/1`. -/
structure Name where
  components : List Component
deriving DecidableEq, Inhabited

namespace Name

/-- The name without components. -/
def empty : Name := ⟨[]⟩

/-- `Name::len`: the number of components. -/
def length (n : Name) : Nat := n.components.length

/-- `Name::is_empty`: whether there are no components. -/
def isEmpty (n : Name) : Bool := n.components.isEmpty

/-- `Name::get`: the component at a position. -/
def get? (n : Name) (index : Nat) : Option Component := n.components[index]?

/-- `Name::append`: the name with one more component. -/
def append (n : Name) (c : Component) : Name := ⟨n.components ++ [c]⟩

/-- The name continued by several components. -/
def extend (n : Name) (cs : List Component) : Name := ⟨n.components ++ cs⟩

/-- `Name::prefix`: the first components of a name, at most `count` of them. -/
def take (n : Name) (count : Nat) : Name := ⟨n.components.take count⟩

/-- `Name::is_prefix_of`: whether the components of `n` are the leading components of `other`. -/
def isPrefixOf (n other : Name) : Bool := n.components.isPrefixOf other.components

/-- A `Name` as it is displayed: every component in its canonical spelling after a slash, and a single
slash for the empty name. -/
def toChars (n : Name) : List Char :=
  match n.components with
  | [] => ['/']
  | cs => cs.flatMap fun c => '/' :: c.toChars

/-- The URI spelling of a name. -/
def toUri (n : Name) : String := String.ofList n.toChars

end Name

end NamedData
