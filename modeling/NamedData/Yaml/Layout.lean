import NamedData.Yaml.Node

/-!
Blanks, lines and columns of a YAML text.

The structure of a document shows in its columns, so a reader carries the column along with the text
that is left. Outside of flow collections a line may begin with spaces only: a tab counts as a blank
only where no key could begin.
-/
namespace NamedData.Yaml

/-- Where a reader stands, and the names it has seen declared. -/
structure Place where
  rest : List Char
  column : Nat := 0
  anchors : List (List Char × Node) := []
  handles : List (List Char × List Char) := []

/-- Go on to a later part of the text. -/
def Place.to (p : Place) (rest : List Char) (column : Nat) : Place := { p with rest, column }

/-- Pass over characters of the current line. -/
def Place.skip (p : Place) (count : Nat) : Place := p.to (p.rest.drop count) (p.column + count)

/-- A byte order mark, which may stand at the beginning of a line. -/
def byteOrderMark : Char := Char.ofNat 0xFEFF

/-- The characters that may stand in a text. -/
def isPrintable (c : Char) : Bool :=
  let n := c.toNat
  n == 9 || n == 10 || n == 13 || (0x20 ≤ n && n ≤ 0x7E) || n == 0x85 ||
    (0xA0 ≤ n && n ≤ 0xD7FF) || (0xE000 ≤ n && n ≤ 0xFFFD) || 0x10000 ≤ n

/-- The text with one spelling of line breaks. -/
def unifyBreaks : List Char → List Char
  | [] => []
  | '\r' :: '\n' :: rest => '\n' :: unifyBreaks rest
  | c :: rest =>
    let isBreak := c == '\r' || c.toNat == 0x85 || c.toNat == 0x2028 || c.toNat == 0x2029
    (if isBreak then '\n' else c) :: unifyBreaks rest

def isGap (c : Char) : Bool := c == ' ' || c == '\t'

/-- Whether a text begins with a blank or a line break, or is over. -/
def startsGap : List Char → Bool
  | [] => true
  | c :: _ => isGap c || c == '\n'

/-- Whether a text begins with an indicator that a blank must follow. -/
def startsWith (indicator : Char) : List Char → Bool
  | c :: rest => c == indicator && startsGap rest
  | [] => false

/-- Whether a document begins or ends here. -/
def Place.atMarker (p : Place) : Bool :=
  p.column == 0 &&
    match p.rest with
    | '-' :: '-' :: '-' :: rest | '.' :: '.' :: '.' :: rest => startsGap rest
    | _ => false

/-- Whether the document is over here. -/
def Place.atEnd (p : Place) : Bool := p.rest.isEmpty || p.atMarker

/-- Pass over blanks, comments and line breaks. The flag says whether a key may begin here, and comes
back with what it is behind the blanks: outside of flow collections a key may begin a line. -/
def skipBlanks (flow : Bool) : (comment keys : Bool) → Nat → List Char → Bool × Nat × List Char
  | _, keys, column, [] => (keys, column, [])
  | comment, keys, column, c :: rest =>
    if c = '\n' then skipBlanks flow false (keys || !flow) 0 rest
    else if comment then skipBlanks flow true keys (column + 1) rest
    else if c = '#' then skipBlanks flow true keys (column + 1) rest
    else if c = ' ' || (c = '\t' && (flow || !keys)) || (c = byteOrderMark && column = 0) then
      skipBlanks flow false keys (column + 1) rest
    else (keys, column, c :: rest)

/-- Go on to the next significant character. -/
def Place.toNext (p : Place) (flow keys : Bool) : Bool × Place :=
  let (keys, column, rest) := skipBlanks flow false keys p.column p.rest
  (keys, p.to rest column)

/-- Pass over the blanks of the current line. -/
def Place.skipGap (p : Place) : Place := p.skip (p.rest.takeWhile isGap).length

/-- Pass over the rest of the current line if it holds a comment at most. -/
def Place.endLine? (p : Place) : Option Place :=
  let p := p.skipGap
  match p.rest with
  | [] => some p
  | '\n' :: rest => some (p.to rest 0)
  | '#' :: rest =>
    match rest.dropWhile (· ≠ '\n') with
    | _ :: rest => some (p.to rest 0)
    | [] => some (p.to [] 0)
  | _ => none

/-- The characters between two places, the first not behind the second. -/
def Place.between (start stop : Place) : List Char :=
  start.rest.take (start.rest.length - stop.rest.length)

end NamedData.Yaml
