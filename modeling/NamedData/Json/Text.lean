import NamedData.Json.Sign

/-!
Strings in JSON text, after their opening quote.

A string that is wanted must be well-formed UTF-8 once its escapes are read, and its escaped
surrogates must come in pairs. A string that is passed over only has to be terminated, free of
control characters, and made of escapes of the right shape.
-/
namespace NamedData.Json

/-- The value of a hexadecimal digit in either case. -/
def hexValue? (b : UInt8) : Option Nat :=
  if 48 ≤ b && b ≤ 57 then some (b.toNat - 48)
  else if 65 ≤ b && b ≤ 70 then some (b.toNat - 55)
  else if 97 ≤ b && b ≤ 102 then some (b.toNat - 87)
  else none

/-- The value of four hexadecimal digits. -/
def hexQuad? (a b c d : UInt8) : Option Nat :=
  match hexValue? a, hexValue? b, hexValue? c, hexValue? d with
  | some a, some b, some c, some d => some (((a * 16 + b) * 16 + c) * 16 + d)
  | _, _, _, _ => none

/-- The character that a one-letter escape stands for. -/
def shortEscape? (letter : UInt8) : Option UInt8 :=
  if letter = 34 || letter = 92 || letter = 47 then some letter
  else if letter = 98 then some 8
  else if letter = 102 then some 12
  else if letter = 110 then some 10
  else if letter = 114 then some 13
  else if letter = 116 then some 9
  else none

/-- Whether a code unit is the first half of a surrogate pair. -/
def isHighSurrogate (unit : Nat) : Bool := 0xD800 ≤ unit && unit ≤ 0xDBFF

/-- Whether a code unit is the second half of a surrogate pair. -/
def isLowSurrogate (unit : Nat) : Bool := 0xDC00 ≤ unit && unit ≤ 0xDFFF

/-- The code point of a surrogate pair. -/
def pairedPoint (high low : Nat) : Nat := (high - 0xD800) * 0x400 + (low - 0xDC00) + 0x10000

/-- Put octets in front of what was read. -/
def prepend (octets : Bytes) : Except Fault (Bytes × Bytes) → Except Fault (Bytes × Bytes)
  | .ok (read, rest) => .ok (octets ++ read, rest)
  | .error fault => .error fault

/-- The octets of a string with its escapes read. -/
def stringOctets : Reader Bytes
  | [] => .error .truncated
  | b :: rest =>
    if b = Sign.quote then .ok ([], rest)
    else if b = Sign.backslash then
      match rest with
      | [] => .error .truncated
      | letter :: tail =>
        if letter = 117 then
          match tail with
          | h₁ :: h₂ :: h₃ :: h₄ :: tail =>
            match hexQuad? h₁ h₂ h₃ h₄ with
            | none => .error .malformed
            | some unit =>
              if isLowSurrogate unit then .error .malformed
              else if isHighSurrogate unit then
                match tail with
                | [] => .error .truncated
                | [b] => .error (if b = Sign.backslash then .truncated else .malformed)
                | b :: letter :: tail =>
                  if b = Sign.backslash && letter = 117 then
                    match tail with
                    | l₁ :: l₂ :: l₃ :: l₄ :: tail =>
                      match hexQuad? l₁ l₂ l₃ l₄ with
                      | none => .error .malformed
                      | some low =>
                        if isLowSurrogate low then
                          prepend (String.utf8EncodeChar (Char.ofNat (pairedPoint unit low)))
                            (stringOctets tail)
                        else .error .malformed
                    | _ => .error .truncated
                  else .error .malformed
              else prepend (String.utf8EncodeChar (Char.ofNat unit)) (stringOctets tail)
          | _ => .error .truncated
        else
          match shortEscape? letter with
          | none => .error .malformed
          | some octet => prepend [octet] (stringOctets tail)
    else if b < 32 then .error .malformed
    else prepend [b] (stringOctets rest)

/-- A string whose text is wanted. -/
def string : Reader Bytes := fun text =>
  match stringOctets text with
  | .error fault => .error fault
  | .ok (octets, rest) =>
    if (utf8Text? octets).isSome then .ok (octets, rest) else .error .malformed

/-- Pass over a string. -/
def skipString : Reader Unit
  | [] => .error .truncated
  | b :: rest =>
    if b = Sign.quote then .ok ((), rest)
    else if b = Sign.backslash then
      match rest with
      | [] => .error .truncated
      | letter :: tail =>
        if letter = 117 then
          match tail with
          | h₁ :: h₂ :: h₃ :: h₄ :: tail =>
            if (hexQuad? h₁ h₂ h₃ h₄).isSome then skipString tail else .error .malformed
          | _ => .error .truncated
        else if (shortEscape? letter).isSome then skipString tail
        else .error .malformed
    else if b < 32 then .error .malformed
    else skipString rest

end NamedData.Json
