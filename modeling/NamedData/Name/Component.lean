import NamedData.Bytes

/-!
Name components and their percent-escaped spelling.

A component is any string of octets. Its canonical spelling keeps the unreserved characters and
writes every other octet as `%` and two upper-case hexadecimal digits. Reading a spelling works on
its UTF-8 octets: an octet other than `%` stands for itself, and `%` must be followed by two
hexadecimal digits of either case.
-/
namespace NamedData

/-- `NameComponent`: one step of a hierarchical name, an opaque string of octets. -/
structure Component where
  octets : Bytes
deriving DecidableEq, Inhabited

/-- Why a text is not the spelling of a name. -/
inductive NameError where
  | invalidEscape (segment : String)
  | unsupportedScheme (uri : String)
deriving DecidableEq

/-- The wording of a name error. -/
def NameError.message : NameError → String
  | .invalidEscape segment => "Invalid percent escape in name component '" ++ segment ++ "'"
  | .unsupportedScheme uri =>
    "Unsupported URI scheme in '" ++ uri ++ "'. Only 'ndn:' is accepted."

namespace Component

/-- `NameComponent::from`: the component that spells out a text, without reading escapes. -/
def ofText (text : List Char) : Component := ⟨utf8 text⟩

/-- The octet that introduces an escape. -/
def percent : UInt8 := 37

/-- `NameComponent::is_unreserved`: the octets that a canonical spelling keeps, letters, digits and
`-._~`. -/
def isUnreserved (b : UInt8) : Bool :=
  (65 ≤ b && b ≤ 90) || (97 ≤ b && b ≤ 122) || (48 ≤ b && b ≤ 57) ||
    b == 45 || b == 46 || b == 95 || b == 126

/-- The value of a hexadecimal digit in either case. -/
def hexValue? (b : UInt8) : Option UInt8 :=
  if 48 ≤ b && b ≤ 57 then some (b - 48)
  else if 65 ≤ b && b ≤ 70 then some (b - 55)
  else if 97 ≤ b && b ≤ 102 then some (b - 87)
  else none

/-- The upper-case hexadecimal digit for a value below sixteen. -/
def hexDigit (value : UInt8) : UInt8 := if value < 10 then value + 48 else value + 55

/-- Replace every escape by the octet it stands for; `none` if an escape is incomplete. -/
def unescape : Bytes → Option Bytes
  | [] => some []
  | b :: rest =>
    if b = percent then
      match rest with
      | high :: low :: tail =>
        match hexValue? high, hexValue? low with
        | some h, some l => (unescape tail).map ((16 * h + l) :: ·)
        | _, _ => none
      | _ => none
    else (unescape rest).map (b :: ·)

/-- The canonical spelling of one octet. -/
def escapeOctet (b : UInt8) : Bytes :=
  if isUnreserved b then [b] else [percent, hexDigit (b / 16), hexDigit (b % 16)]

/-- The canonical spelling of a string of octets. -/
def escape (octets : Bytes) : Bytes := octets.flatMap escapeOctet

/-- `NameComponent::from_escaped`: read the percent-escaped spelling of a component. -/
def ofEscaped? (text : List Char) : Except NameError Component :=
  match unescape (utf8 text) with
  | some octets => .ok ⟨octets⟩
  | none => .error (.invalidEscape (String.ofList text))

/-- A `NameComponent` as it is displayed: its canonical spelling. It is ASCII. -/
def toChars (c : Component) : List Char := (escape c.octets).map fun b => Char.ofNat b.toNat

/-- The canonical spelling of a component. -/
def toUri (c : Component) : String := String.ofList c.toChars

/-- Components are ordered octet by octet, a proper prefix coming first. -/
instance : Ord Component := ⟨fun a b => compare a.octets b.octets⟩

end Component

end NamedData
