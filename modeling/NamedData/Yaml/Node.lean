/-!
What a YAML document says.
-/
namespace NamedData.Yaml

/-- How a scalar is written. -/
inductive Style where
  | plain
  | quoted
  /-- A block whose line breaks are kept. -/
  | literal
  /-- A block whose line breaks are folded. -/
  | folded
deriving DecidableEq

/-- A value in a YAML document. -/
inductive Node where
  | scalar (style : Style) (tag : Option (List Char)) (text : List Char)
  | sequence (items : List Node)
  | mapping (entries : List (Node × Node))

namespace Node

/-- What stands where nothing is written. -/
def blank : Node := .scalar .plain none []

instance : Inhabited Node := ⟨blank⟩

/-- Give a scalar a tag. Tags of collections are of no interest. -/
def tagged (tag : Option (List Char)) : Node → Node
  | .scalar style own text => .scalar style (tag.or own) text
  | node => node

end Node

end NamedData.Yaml
