import NamedData.Text.Digits
import NamedData.Yaml.Node

/-!
Whole numbers in a YAML document.

A number is a plain scalar: decimal digits, or `0x`, `0o` or `0b` and digits of that base, perhaps
behind a plus sign. Several decimal digits of which the first is a zero are no number, nor is
anything quoted.
-/
namespace NamedData.Yaml

/-- The number of 64 bits that a plain scalar spells. -/
def uint64OfPlain? (text : List Char) : Option UInt64 :=
  match Text.dropPlus text with
  | '0' :: 'x' :: rest => Text.uint64OfDigits? 16 rest
  | '0' :: 'o' :: rest => Text.uint64OfDigits? 8 rest
  | '0' :: 'b' :: rest => Text.uint64OfDigits? 2 rest
  | '0' :: _ :: _ => none
  | digits => Text.uint64OfDigits? 10 digits

/-- The number of 64 bits that a node is. A literal block may be one too, if its tag says so. -/
def Node.uint64? : Node → Option UInt64
  | .scalar .plain _ text => uint64OfPlain? text
  | .scalar .literal (some tag) text =>
    if tag = "tag:yaml.org,2002:int".toList then uint64OfPlain? text else none
  | _ => none

end NamedData.Yaml
