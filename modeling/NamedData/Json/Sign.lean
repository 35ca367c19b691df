import NamedData.Packet.Basic

/-!
The structural characters of JSON text and the blanks between them.
-/
namespace NamedData.Json

namespace Sign

abbrev quote : UInt8 := 34
abbrev plus : UInt8 := 43
abbrev comma : UInt8 := 44
abbrev minus : UInt8 := 45
abbrev dot : UInt8 := 46
abbrev zero : UInt8 := 48
abbrev colon : UInt8 := 58
abbrev openBracket : UInt8 := 91
abbrev backslash : UInt8 := 92
abbrev closeBracket : UInt8 := 93
abbrev openBrace : UInt8 := 123
abbrev closeBrace : UInt8 := 125

end Sign

/-- The four characters allowed between tokens. -/
def isBlank (b : UInt8) : Bool := b == 32 || b == 10 || b == 9 || b == 13

/-- The text from its first significant character on. -/
def skipBlanks (text : Bytes) : Bytes := text.dropWhile isBlank

/-- Whether a character is a decimal digit. -/
def isDigit (b : UInt8) : Bool := 48 ≤ b && b ≤ 57

/-- The value of a decimal digit. -/
def digitValue (b : UInt8) : Nat := b.toNat - 48

/-- A reader consumes the beginning of a text, or reports the first fault it meets. -/
abbrev Reader (α : Type) := Bytes → Except Fault (α × Bytes)

/-- Expect the characters of a word. -/
def word : Bytes → Reader Unit
  | [], text => .ok ((), text)
  | _ :: _, [] => .error .truncated
  | w :: ws, b :: rest => if b = w then word ws rest else .error .malformed

end NamedData.Json
