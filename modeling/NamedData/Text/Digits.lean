/-!
Numbers of 64 bits in a text.
-/
namespace NamedData.Text

/-- The value of a digit in a base up to sixteen. -/
def digitValue? (base : Nat) (c : Char) : Option Nat :=
  let n := c.toNat
  let value :=
    if 48 ≤ n && n ≤ 57 then some (n - 48)
    else if 65 ≤ n && n ≤ 70 then some (n - 55)
    else if 97 ≤ n && n ≤ 102 then some (n - 87)
    else none
  value.filter (· < base)

/-- The value of some digits, continuing a number. -/
def digitsValue? (base : Nat) : Nat → List Char → Option Nat
  | value, [] => some value
  | value, c :: rest =>
    match digitValue? base c with
    | none => none
    | some digit => digitsValue? base (base * value + digit) rest

/-- A number of 64 bits spelled by one digit or more. -/
def uint64OfDigits? (base : Nat) (digits : List Char) : Option UInt64 :=
  if digits.isEmpty then none
  else
    match digitsValue? base 0 digits with
    | none => none
    | some value => if value < UInt64.size then some (UInt64.ofNat value) else none

/-- A text without its plus sign, if it begins with one. -/
def dropPlus : List Char → List Char
  | '+' :: rest => rest
  | text => text

end NamedData.Text
