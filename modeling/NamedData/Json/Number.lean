import NamedData.Json.Sign

/-!
Numbers in JSON text.

Only whole numbers are ever wanted, but every number that stands in the text is read to its end, and
one whose magnitude exceeds the largest double-precision number is malformed. The reader keeps a
significand of 64 bits and counts the digits that no longer fit, so which numbers overflow is
decided on the significand that was kept.
-/
namespace NamedData.Json

/-- What a number token is worth to a reader of whole numbers. -/
inductive Number where
  /-- An unsigned number of 64 bits without fraction or exponent. -/
  | whole (value : Nat)
  /-- Any other number: negative, fractional, with an exponent, or too large. -/
  | other
deriving DecidableEq

/-- Append digits to a significand for as long as it stays within 64 bits; the digits left over
come back. -/
def absorb (significand : Nat) : Bytes → Nat × Bytes
  | [] => (significand, [])
  | d :: ds =>
    let next := significand * 10 + digitValue d
    if next < UInt64.size then absorb next ds else (significand, d :: ds)

/-- Round a natural number to 53 significant bits, a half going to the even neighbour. -/
def roundToDouble (n : Nat) : Nat :=
  if n < 1 <<< 53 then n
  else
    let shift := Nat.log2 n - 52
    let kept := n >>> shift
    let lost := n - (kept <<< shift)
    let half := 1 <<< (shift - 1)
    let up := half < lost || (lost == half && kept % 2 == 1)
    (if up then kept + 1 else kept) <<< shift

/-- Whether a significand scaled by a power of ten exceeds the double-precision numbers. Scaling
multiplies two rounded factors. -/
def exceedsDouble (significand : Nat) (exponent : Int) : Bool :=
  significand != 0 &&
    match exponent with
    | .negSucc _ => false
    | .ofNat e =>
      308 < e ||
        (1 <<< 1024) - (1 <<< 970) ≤ roundToDouble significand * roundToDouble (Nat.pow 10 e)

/-- The end of a number that has a fraction or an exponent. -/
def scaled (significand : Nat) (exponent : Int) : Reader Number := fun text =>
  if exceedsDouble significand exponent then .error .malformed else .ok (.other, text)

/-- The digits of an exponent, after the letter and the sign. -/
def exponentDigits (significand : Nat) (start : Int) (negative : Bool) : Reader Number
  | [] => .error .truncated
  | d :: rest =>
    if isDigit d then
      let written := (d :: rest).takeWhile isDigit
      let tail := (d :: rest).dropWhile isDigit
      let exponent := written.foldl (fun n d => n * 10 + digitValue d) 0
      if exponent < 1 <<< 31 then
        scaled significand (if negative then start - exponent else start + exponent) tail
      else if significand != 0 && !negative then .error .malformed
      else .ok (.other, tail)
    else .error .malformed

/-- The exponent of a number, after its letter. -/
def exponentPart (significand : Nat) (start : Int) : Reader Number
  | [] => .error .truncated
  | b :: rest =>
    if b = Sign.plus then exponentDigits significand start false rest
    else if b = Sign.minus then exponentDigits significand start true rest
    else exponentDigits significand start false (b :: rest)

/-- Whether a character introduces an exponent. -/
def isExponentLetter (b : UInt8) : Bool := b == 101 || b == 69

/-- The fraction of a number, after its point. At least one digit is required. -/
def fractionPart (significand : Nat) (start : Int) : Reader Number := fun text =>
  let written := text.takeWhile isDigit
  let tail := text.dropWhile isDigit
  match written with
  | [] => .error (if tail.isEmpty then .truncated else .malformed)
  | _ =>
    let (kept, leftOver) := absorb significand written
    let exponent := start - ((written.length - leftOver.length : Nat) : Int)
    match tail with
    | [] => scaled kept exponent []
    | b :: rest =>
      if isExponentLetter b then exponentPart kept exponent rest
      else scaled kept exponent (b :: rest)

/-- What follows the digits before the point. -/
def afterWhole (positive : Bool) (significand : Nat) (leftOver : Nat) : Reader Number := fun text =>
  let plain : Except Fault (Number × Bytes) :=
    if leftOver = 0 then .ok (if positive then .whole significand else .other, text)
    else scaled significand leftOver text
  match text with
  | [] => plain
  | b :: rest =>
    if b = Sign.dot then fractionPart significand leftOver rest
    else if isExponentLetter b then exponentPart significand leftOver rest
    else plain

/-- A number, after its sign. A leading zero stands alone. -/
def number (positive : Bool) : Reader Number
  | [] => .error .truncated
  | d :: rest =>
    if d = Sign.zero then
      match rest with
      | [] => afterWhole positive 0 0 []
      | b :: tail => if isDigit b then .error .malformed else afterWhole positive 0 0 (b :: tail)
    else if isDigit d then
      let written := (d :: rest).takeWhile isDigit
      let (kept, leftOver) := absorb 0 written
      afterWhole positive kept leftOver.length ((d :: rest).dropWhile isDigit)
    else .error .malformed

/-- Pass over a number, after its sign, without working out its value. An end of text where a digit
is required is malformed here. -/
def skipNumber : Reader Unit := fun text =>
  let exponent (text : Bytes) : Except Fault (Unit × Bytes) :=
    let unsigned := match text with
      | [] => []
      | b :: rest => if b = Sign.plus || b = Sign.minus then rest else b :: rest
    match unsigned.takeWhile isDigit with
    | [] => .error .malformed
    | _ => .ok ((), unsigned.dropWhile isDigit)
  let afterFraction (text : Bytes) : Except Fault (Unit × Bytes) :=
    match text with
    | [] => .ok ((), [])
    | b :: rest => if isExponentLetter b then exponent rest else .ok ((), b :: rest)
  let afterDigits (text : Bytes) : Except Fault (Unit × Bytes) :=
    match text with
    | [] => .ok ((), [])
    | b :: rest =>
      if b = Sign.dot then
        match rest.takeWhile isDigit with
        | [] => .error .malformed
        | _ => afterFraction (rest.dropWhile isDigit)
      else afterFraction (b :: rest)
  match text with
  | [] => .error .malformed
  | d :: rest =>
    if d = Sign.zero then
      match rest with
      | [] => .ok ((), [])
      | b :: tail => if isDigit b then .error .malformed else afterDigits (b :: tail)
    else if isDigit d then afterDigits (rest.dropWhile isDigit)
    else .error .malformed

end NamedData.Json
