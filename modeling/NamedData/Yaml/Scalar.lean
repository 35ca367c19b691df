import NamedData.Yaml.Layout

/-!
Scalars of a YAML text: plain, quoted and block scalars.

In a scalar that goes over several lines a single line break stands for a space, and of several
breaks all but the first are kept. The blanks around them are dropped.
-/
namespace NamedData.Yaml

/-- What some line breaks in a row stand for. -/
def foldBreaks (count : Nat) : List Char :=
  if count = 1 then [' '] else List.replicate (count - 1) '\n'

/-! ## Plain scalars -/

/-- The brackets and the comma of flow collections. -/
def isFlowIndicator (c : Char) : Bool :=
  c == ',' || c == '[' || c == ']' || c == '{' || c == '}'

/-- Whether a plain scalar cannot go on with this text. -/
def endsPlain (flow : Bool) : List Char → Bool
  | [] => true
  | c :: rest =>
    if c = ':' then startsGap rest || (flow && ((rest.head?.map isFlowIndicator).getD false ||
      rest.head? == some '?'))
    else flow && isFlowIndicator c

/-- Whether a plain scalar may begin with this text. -/
def startsPlain (flow : Bool) : List Char → Bool
  | [] => false
  | c :: rest =>
    if c = '-' then !startsGap rest
    else if c = '?' || c = ':' then !flow && !startsGap rest
    else !(isGap c || c == '\n' || isFlowIndicator c || "#&*!|>'\"%@\u0060".toList.contains c)

/-- The part of a plain scalar that stands on the current line, with what follows the blanks behind
it. A `#` behind a blank begins a comment. -/
def plainLine (flow : Bool) : (behindGap : Bool) → Nat → List Char → List Char × Nat × List Char
  | _, column, [] => ([], column, [])
  | behindGap, column, c :: rest =>
    if c = '\n' then ([], column, c :: rest)
    else if isGap c then
      let (text, stop, tail) := plainLine flow true (column + 1) rest
      (if text.isEmpty then [] else c :: text, stop, tail)
    else if endsPlain flow (c :: rest) || (behindGap && c == '#') then ([], column, c :: rest)
    else
      let (text, stop, tail) := plainLine flow false (column + 1) rest
      (c :: text, stop, tail)

/-- Pass over line breaks and the blanks around them, counting the breaks. A tab may not stand where
the indentation belongs. -/
def lineBreaks? (least : Nat) : (count column : Nat) → List Char → Option (Nat × Nat × List Char)
  | count, column, [] => some (count, column, [])
  | count, column, c :: rest =>
    if c = '\n' then lineBreaks? least (count + 1) 0 rest
    else if c = ' ' then lineBreaks? least count (column + 1) rest
    else if c = '\t' then
      if column < least then none else lineBreaks? least count (column + 1) rest
    else some (count, column, c :: rest)

/-- The lines of a plain scalar behind the first. They stand at the least column at least. -/
def plainLines (flow : Bool) (least : Nat) : Nat → Place → Option (List Char × Place)
  | 0, p => some ([], p)
  | fuel + 1, p =>
    match p.rest with
    | '\n' :: _ =>
      match lineBreaks? least 0 p.column p.rest with
      | none => none
      | some (count, column, rest) =>
        let p := p.to rest column
        if p.atEnd || (!flow && column < least) || rest.head? == some '#' || endsPlain flow rest then
          some ([], p)
        else
          let (text, column, rest) := plainLine flow false column rest
          match plainLines flow least fuel (p.to rest column) with
          | none => none
          | some (more, p) => some (foldBreaks count ++ text ++ more, p)
    | _ => some ([], p)

/-- Read a plain scalar. -/
def plain? (flow : Bool) (least : Nat) (p : Place) : Option (Node × Place) :=
  let (text, column, rest) := plainLine flow false p.column p.rest
  match plainLines flow least rest.length (p.to rest column) with
  | none => none
  | some (more, p) =>
    if flow && p.rest.head? == some ':' && !startsWith ':' p.rest then none
    else some (.scalar .plain none (text ++ more), p)

/-! ## Quoted scalars -/

/-- The value of a number of hexadecimal digits. -/
def hexValue? (digits : List Char) : Option Nat :=
  digits.foldl (fun value c =>
    let n := c.toNat
    let digit :=
      if 48 ≤ n && n ≤ 57 then some (n - 48)
      else if 65 ≤ n && n ≤ 70 then some (n - 55)
      else if 97 ≤ n && n ≤ 102 then some (n - 87)
      else none
    match value, digit with
    | some value, some digit => some (16 * value + digit)
    | _, _ => none) (some 0)

/-- The character that an escape of some hexadecimal digits stands for, and what follows. -/
def hexEscape? (width : Nat) (text : List Char) : Option (Char × List Char) :=
  if text.length < width then none
  else
    match hexValue? (text.take width) with
    | none => none
    | some n => if n.isValidChar then some (Char.ofNat n, text.drop width) else none

/-- The character that an escape stands for, and what follows. -/
def escape? : List Char → Option (Char × List Char)
  | [] => none
  | c :: rest =>
    match c with
    | '0' => some (Char.ofNat 0, rest)
    | 'a' => some (Char.ofNat 7, rest)
    | 'b' => some (Char.ofNat 8, rest)
    | 't' | '\t' => some ('\t', rest)
    | 'n' => some ('\n', rest)
    | 'v' => some (Char.ofNat 11, rest)
    | 'f' => some (Char.ofNat 12, rest)
    | 'r' => some ('\r', rest)
    | 'e' => some (Char.ofNat 27, rest)
    | ' ' => some (' ', rest)
    | '"' => some ('"', rest)
    | '\'' => some ('\'', rest)
    | '/' => some ('/', rest)
    | '\\' => some ('\\', rest)
    | 'N' => some (Char.ofNat 0x85, rest)
    | '_' => some (Char.ofNat 0xA0, rest)
    | 'L' => some (Char.ofNat 0x2028, rest)
    | 'P' => some (Char.ofNat 0x2029, rest)
    | 'x' => hexEscape? 2 rest
    | 'u' => hexEscape? 4 rest
    | 'U' => hexEscape? 8 rest
    | _ => none

/-- The text of a quoted scalar up to its closing quote. A break behind a backslash counts for
nothing. -/
def quotedText? (double : Bool) : Nat → Place → Option (List Char × Place)
  | 0, _ => none
  | fuel + 1, p =>
    if p.atEnd then none
    else
      let prepend (front : List Char) (p : Place) : Option (List Char × Place) :=
        match quotedText? double fuel p with
        | none => none
        | some (text, p) => some (front ++ text, p)
      match p.rest with
      | [] => none
      | c :: rest =>
        if isGap c || c == '\n' then
          let gap := p.rest.takeWhile isGap
          match p.rest.drop gap.length with
          | '\n' :: _ =>
            match lineBreaks? 0 0 p.column p.rest with
            | none => none
            | some (count, column, rest) => prepend (foldBreaks count) (p.to rest column)
          | tail => prepend gap (p.to tail (p.column + gap.length))
        else if double && c == '\\' then
          match rest with
          | '\n' :: rest =>
            match lineBreaks? 0 0 0 rest with
            | none => none
            | some (count, column, rest) =>
              prepend (List.replicate count '\n') (p.to rest column)
          | _ =>
            match escape? rest with
            | none => none
            | some (c, tail) => prepend [c] (p.to tail (p.column + 1 + (rest.length - tail.length)))
        else if c = (if double then '"' else '\'') then
          match double, rest with
          | false, '\'' :: _ => prepend ['\''] (p.skip 2)
          | _, _ => some ([], p.skip 1)
        else prepend [c] (p.skip 1)

/-- Read a quoted scalar whose opening quote comes next. -/
def quoted? (p : Place) : Option (Node × Place) :=
  let double := p.rest.head? == some '"'
  match quotedText? double (p.rest.length + 1) (p.skip 1) with
  | none => none
  | some (text, p) => some (.scalar .quoted none text, p)

/-! ## Block scalars -/

/-- What becomes of the line breaks at the end of a block. -/
inductive Chomping where
  | strip
  | clip
  | keep
deriving DecidableEq

/-- The indicators behind `|` or `>`: how the end is chomped, and how deep the block is indented. -/
def blockHeader? (p : Place) : Option (Chomping × Option Nat × Place) :=
  let chomping? (c : Char) : Option Chomping :=
    if c = '+' then some .keep else if c = '-' then some .strip else none
  let digit? (c : Char) : Option Nat :=
    if c.isDigit && c != '0' then some (c.toNat - 48) else none
  let finish (chomping : Chomping) (depth : Option Nat) (p : Place) :
      Option (Chomping × Option Nat × Place) :=
    p.endLine?.map fun p => (chomping, depth, p)
  match p.rest with
  | a :: b :: _ =>
    match chomping? a, digit? b, digit? a, chomping? b with
    | some chomping, some depth, _, _ => finish chomping (some depth) (p.skip 2)
    | _, _, some depth, some chomping => finish chomping (some depth) (p.skip 2)
    | some chomping, _, _, _ => finish chomping none (p.skip 1)
    | _, _, some depth, _ => finish .clip (some depth) (p.skip 1)
    | _, _, _, _ => finish .clip none p
  | [a] =>
    match chomping? a, digit? a with
    | some chomping, _ => finish chomping none (p.skip 1)
    | _, some depth => finish .clip (some depth) (p.skip 1)
    | _, _ => finish .clip none p
  | [] => finish .clip none p

/-- Pass over the empty lines before a line of a block, and its indentation. Until the depth is known
all leading spaces count as indentation, and the deepest line decides. -/
def blockBreaks? (depth : Option Nat) :
    (deepest count column : Nat) → List Char → Option (Nat × Nat × Nat × List Char)
  | deepest, count, column, [] => some (max deepest column, count, column, [])
  | deepest, count, column, c :: rest =>
    let indenting := match depth with
      | none => true
      | some depth => decide (column < depth)
    if c = ' ' && indenting then blockBreaks? depth deepest count (column + 1) rest
    else if c = '\t' && indenting then none
    else if c = '\n' then blockBreaks? depth (max deepest column) (count + 1) 0 rest
    else some (max deepest column, count, column, c :: rest)

/-- The lines of a block: its text without the last breaks, and how many these are. `before` counts
the breaks before the next line; `spaced` says that the line before them began with a blank. -/
def blockLines? (literal : Bool) (depth : Nat) :
    Nat → (first spaced : Bool) → (before : Nat) → Place → Option (List Char × Nat × Place)
  | 0, _, _, _, _ => none
  | fuel + 1, first, spaced, before, p =>
    if p.column ≠ depth || p.rest.isEmpty then some ([], before, p)
    else
      let begins := (p.rest.head?.map isGap).getD false
      let breaks :=
        if first || literal || spaced || begins then List.replicate before '\n'
        else foldBreaks before
      let line := p.rest.takeWhile (· ≠ '\n')
      match p.rest.dropWhile (· ≠ '\n') with
      | [] => some (breaks ++ line, 0, p.to [] (p.column + line.length))
      | _ :: rest =>
        match blockBreaks? (some depth) 0 0 0 rest with
        | none => none
        | some (_, count, column, rest) =>
          match blockLines? literal depth fuel false begins (count + 1) (p.to rest column) with
          | none => none
          | some (text, last, p) => some (breaks ++ line ++ text, last, p)

/-- Read a block scalar whose first indicator comes next. Its lines stand deeper than the node around
it, whose content stands at the least column at least. -/
def block? (least : Nat) (p : Place) : Option (Node × Place) :=
  let literal := p.rest.head? == some '|'
  match blockHeader? (p.skip 1) with
  | none => none
  | some (chomping, depth, p) =>
    let depth := depth.map fun depth => least - 1 + depth
    match blockBreaks? depth 0 0 p.column p.rest with
    | none => none
    | some (deepest, count, column, rest) =>
      let depth := depth.getD (max deepest (max least 1))
      match blockLines? literal depth (rest.length + 1) true false count (p.to rest column) with
      | none => none
      | some (text, last, p) =>
        let ending := match chomping with
          | .strip => []
          | .clip => if last = 0 || text.isEmpty then [] else ['\n']
          | .keep => List.replicate last '\n'
        some (.scalar (if literal then .literal else .folded) none (text ++ ending), p)

end NamedData.Yaml
