import NamedData.Json.Sign

/-!
Compact JSON text.
-/
namespace NamedData.Json

/-- The decimal spelling of a natural number. -/
def decimal (n : Nat) : Bytes :=
  if n < 10 then [48 + UInt8.ofNat n] else decimal (n / 10) ++ [48 + UInt8.ofNat (n % 10)]
termination_by n
decreasing_by omega

/-- Texts with commas between them. -/
def commaSeparated : List Bytes → Bytes
  | [] => []
  | [item] => item
  | item :: items => item ++ Sign.comma :: commaSeparated items

/-- An array of written elements. -/
def writeArray (items : List Bytes) : Bytes :=
  Sign.openBracket :: commaSeparated items ++ [Sign.closeBracket]

/-- A member of an object. The key is ASCII and needs no escapes. -/
def writeMember (key : String) (value : Bytes) : Bytes :=
  Sign.quote :: ascii key.toList ++ Sign.quote :: Sign.colon :: value

/-- An object of written members. -/
def writeObject (members : List Bytes) : Bytes :=
  Sign.openBrace :: commaSeparated members ++ [Sign.closeBrace]

/-- The word `null`. -/
def writeNull : Bytes := [110, 117, 108, 108]

/-- One of the words `true` and `false`. -/
def writeBool (b : Bool) : Bytes := if b then [116, 114, 117, 101] else [102, 97, 108, 115, 101]

/-- A value, or `null` for none. -/
def writeOption {α : Type} (write : α → Bytes) : Option α → Bytes
  | some a => write a
  | none => writeNull

/-- Octets as an array of numbers. -/
def writeOctets (octets : Bytes) : Bytes := writeArray (octets.map fun b => decimal b.toNat)

end NamedData.Json
