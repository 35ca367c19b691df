import NamedData.Yaml.Scalar

/-!
Reading the one document of a YAML text.

Collections are written in two ways. A block collection is held together by its column: each entry
begins at the column of the first, and what belongs to an entry stands deeper. Only the items of a
sequence that is the value of a mapping may stand at the mapping's own column. A flow collection is
held together by brackets. A key that is not introduced by `?` stands on one line with its colon.
-/
namespace NamedData.Yaml

/-! ## Properties and references -/

/-- What may stand before a node: a name for it and a tag. -/
structure Properties where
  anchor : Option (List Char) := none
  tag : Option (List Char) := none

/-- Whether there is no property. -/
def Properties.isEmpty (q : Properties) : Bool := q.anchor.isNone && q.tag.isNone

/-- Give a node its properties, and remember its name. -/
def Properties.attach (q : Properties) (node : Node) (p : Place) : Node × Place :=
  let node := node.tagged q.tag
  match q.anchor with
  | none => (node, p)
  | some name => (node, { p with anchors := (name, node) :: p.anchors })

/-- A name, and what follows it. -/
def anchorName? (text : List Char) : Option (List Char × List Char) :=
  let name := text.takeWhile fun c => c.isAlphanum || c == '_' || c == '-'
  let rest := text.drop name.length
  if name.isEmpty || !(startsGap rest || (rest.head?.map "?:,]\x7d%@\u0060".toList.contains).getD false)
  then none
  else some (name, rest)

/-- The full form of a tag, given how it is written. -/
def resolveTag? (handles : List (List Char × List Char)) (written : List Char) :
    Option (List Char) :=
  let known := handles ++ [(['!', '!'], "tag:yaml.org,2002:".toList), (['!'], ['!'])]
  let shorthand (handle suffix : List Char) : Option (List Char) :=
    if suffix.isEmpty then none else (known.lookup handle).map (· ++ suffix)
  match written with
  | '!' :: '<' :: inner =>
    if inner.getLast? = some '>' && inner.length > 1 then some inner.dropLast else none
  | ['!'] => some ['!']
  | '!' :: rest =>
    let word := rest.takeWhile fun c => c.isAlphanum || c == '_' || c == '-'
    match rest.drop word.length with
    | '!' :: suffix => shorthand ('!' :: (word ++ ['!'])) suffix
    | _ => shorthand ['!'] rest
  | _ => none

/-- Read what stands before a node, each property at most once, and the blanks behind it. -/
def properties? (flow : Bool) : Nat → Properties → Place → Option (Properties × Place)
  | 0, _, _ => none
  | fuel + 1, q, p =>
    let next (p : Place) : Place := if flow then (p.toNext true false).2 else p.skipGap
    match p.rest with
    | '&' :: rest =>
      match q.anchor, anchorName? rest with
      | none, some (name, _) =>
        properties? flow fuel { q with anchor := some name } (next (p.skip (name.length + 1)))
      | _, _ => none
    | '!' :: _ =>
      let written := p.rest.takeWhile fun c =>
        !(isGap c || c == '\n' || (flow && isFlowIndicator c))
      match q.tag, resolveTag? p.handles written with
      | none, some tag =>
        properties? flow fuel { q with tag := some tag } (next (p.skip written.length))
      | _, _ => none
    | _ => some (q, p)

/-! ## Nodes -/

/-- Whether only a comment is left of the line. -/
def Place.lineIsOver (p : Place) : Bool :=
  match p.rest with
  | [] => true
  | c :: _ => c == '\n' || c == '#'

/-- Whether a key from one place to another is short enough and on one line. -/
def isKeySpan (start stop : Place) : Bool :=
  let span := start.between stop
  !span.contains '\n' && span.length ≤ 1024

mutual

/-- A node that is no block: with its properties, a reference, a scalar or a flow collection. -/
def inline? (fuel : Nat) (flow : Bool) (least : Nat) (p : Place) : Option (Node × Place) :=
  match fuel with
  | 0 => none
  | fuel + 1 =>
    if flow && p.atEnd then none
    else
      match properties? flow 3 {} p with
      | none => none
      | some (q, p) =>
        let absent := match p.rest with
          | [] => true
          | c :: _ =>
            if flow then c == ',' || c == ']' || c == '}' || c == ':'
            else p.lineIsOver || startsWith ':' p.rest
        if absent then if q.isEmpty then none else some (q.attach .blank p)
        else (inlineContent? fuel flow least q p).map fun (node, p) => q.attach node p
termination_by structural fuel

/-- What a node is behind its properties. A reference has none. -/
def inlineContent? (fuel : Nat) (flow : Bool) (least : Nat) (q : Properties) (p : Place) :
    Option (Node × Place) :=
  match fuel with
  | 0 => none
  | fuel + 1 =>
    match p.rest with
    | '*' :: rest =>
      match anchorName? rest with
      | none => none
      | some (name, _) =>
        if q.isEmpty then
          (p.anchors.lookup name).map fun node => (node, p.skip (name.length + 1))
        else none
    | '"' :: _ | '\'' :: _ => quoted? p
    | '[' :: _ => (flowItems? fuel least (p.skip 1)).map fun (items, p) => (.sequence items, p)
    | '{' :: _ => (flowEntries? fuel least (p.skip 1)).map fun (pairs, p) => (.mapping pairs, p)
    | _ => if startsPlain flow p.rest then plain? flow least p else none
termination_by structural fuel

/-- The items of a flow sequence up to its closing bracket. An item may be a single entry. -/
def flowItems? (fuel : Nat) (least : Nat) (p : Place) : Option (List Node × Place) :=
  match fuel with
  | 0 => none
  | fuel + 1 =>
    let p := (p.toNext true true).2
    match p.rest with
    | ']' :: _ => some ([], p.skip 1)
    | _ =>
      match flowEntry? fuel least p with
      | none => none
      | some ((key, value), p) =>
        let item := match value with
          | none => key
          | some value => .mapping [(key, value)]
        let p := (p.toNext true true).2
        match p.rest with
        | ']' :: _ => some ([item], p.skip 1)
        | ',' :: _ => (flowItems? fuel least (p.skip 1)).map fun (items, p) => (item :: items, p)
        | _ => none
termination_by structural fuel

/-- The entries of a flow mapping up to its closing brace. A value may be missing. -/
def flowEntries? (fuel : Nat) (least : Nat) (p : Place) : Option (List (Node × Node) × Place) :=
  match fuel with
  | 0 => none
  | fuel + 1 =>
    let p := (p.toNext true true).2
    match p.rest with
    | '}' :: _ => some ([], p.skip 1)
    | _ =>
      match flowEntry? fuel least p with
      | none => none
      | some ((key, value), p) =>
        let entry := (key, value.getD .blank)
        let p := (p.toNext true true).2
        match p.rest with
        | '}' :: _ => some ([entry], p.skip 1)
        | ',' :: _ =>
          (flowEntries? fuel least (p.skip 1)).map fun (entries, p) => (entry :: entries, p)
        | _ => none
termination_by structural fuel

/-- A node in a flow collection, with the value it is the key of, if it is a key. -/
def flowEntry? (fuel : Nat) (least : Nat) (p : Place) : Option ((Node × Option Node) × Place) :=
  match fuel with
  | 0 => none
  | fuel + 1 =>
    let introduced := p.rest.head? == some '?'
    let start := if introduced then ((p.skip 1).toNext true true).2 else p
    let ends (p : Place) : Bool :=
      (p.rest.head?.map fun c => c == ',' || c == ']' || c == '}').getD false
    let key := if introduced && (ends start || start.rest.head? == some ':') then some (.blank, start)
      else inline? fuel true least start
    match key with
    | none => none
    | some (key, p) =>
      let colon := (p.toNext true true).2
      if colon.rest.head? == some ':' then
        if introduced || isKeySpan start colon then
          let p := ((colon.skip 1).toNext true false).2
          if ends p then some ((key, some .blank), p)
          else (inline? fuel true least p).map fun (value, p) => ((key, some value), p)
        else none
      else some ((key, if introduced then some .blank else none), p)
termination_by structural fuel

end

/-- A key with the colon behind it, on one line. -/
def implicitKey? (fuel : Nat) (least : Nat) (p : Place) : Option (Node × Place) :=
  match inline? fuel false least p with
  | none => none
  | some (key, stop) =>
    let colon := stop.skipGap
    if startsWith ':' colon.rest && isKeySpan p colon then some (key, colon.skip 1) else none

mutual

/-- A node whose content stands at the least column at least. `keys` says whether a block collection
may begin on the current line; `dash` says whether the items of a sequence may stand one column
further left. -/
def blockNode? (fuel : Nat) (least : Nat) (keys dash : Bool) (p : Place) : Option (Node × Place) :=
  match fuel with
  | 0 => none
  | fuel + 1 =>
    let (keys, p) := p.toNext false keys
    if p.atEnd || p.column < least then
      if dash && keys && !p.atEnd && p.column + 1 = least && startsWith '-' p.rest then
        (blockItems? fuel p.column true p).map fun (items, p) => (.sequence items, p)
      else some (.blank, p)
    else if startsWith '-' p.rest then
      if keys then (blockItems? fuel p.column false p).map fun (items, p) => (.sequence items, p)
      else none
    else if startsWith '?' p.rest || (implicitKey? fuel least p).isSome then
      if keys then (blockEntries? fuel p.column p).map fun (entries, p) => (.mapping entries, p)
      else none
    else
      match properties? false 3 {} p with
      | none => none
      | some (q, content) =>
        if !q.isEmpty && content.lineIsOver then
          (blockNode? fuel least false dash content).map fun (node, p) => q.attach node p
        else if content.rest.head? == some '|' || content.rest.head? == some '>' then
          (block? least content).map fun (node, p) => q.attach node p
        else inline? fuel false least p
termination_by structural fuel

/-- The items of a block sequence. Behind a sequence that stands at the column of a mapping, the
mapping goes on. -/
def blockItems? (fuel : Nat) (column : Nat) (shared : Bool) (p : Place) :
    Option (List Node × Place) :=
  match fuel with
  | 0 => none
  | fuel + 1 =>
    let p := (p.toNext false false).2
    if p.atEnd || p.column < column then some ([], p)
    else if p.column = column && startsWith '-' p.rest then
      match blockNode? fuel (column + 1) true false (p.skip 1) with
      | none => none
      | some (item, p) =>
        (blockItems? fuel column shared p).map fun (items, p) => (item :: items, p)
    else if p.column = column && shared then some ([], p)
    else none
termination_by structural fuel

/-- The entries of a block mapping. -/
def blockEntries? (fuel : Nat) (column : Nat) (p : Place) : Option (List (Node × Node) × Place) :=
  match fuel with
  | 0 => none
  | fuel + 1 =>
    let p := (p.toNext false false).2
    if p.atEnd || p.column < column then some ([], p)
    else if p.column ≠ column then none
    else if startsWith '?' p.rest then
      match blockNode? fuel (column + 1) true true (p.skip 1) with
      | none => none
      | some (key, p) =>
        let p := (p.toNext false false).2
        let value := if !p.atEnd && p.column = column && startsWith ':' p.rest then
            blockNode? fuel (column + 1) true true (p.skip 1)
          else some (.blank, p)
        match value with
        | none => none
        | some (value, p) =>
          (blockEntries? fuel column p).map fun (entries, p) => ((key, value) :: entries, p)
    else
      match implicitKey? fuel (column + 1) p with
      | none => none
      | some (key, p) =>
        match blockNode? fuel (column + 1) false true p with
        | none => none
        | some (value, p) =>
          (blockEntries? fuel column p).map fun (entries, p) => ((key, value) :: entries, p)
termination_by structural fuel

end

/-! ## Documents -/

/-- The words of a line, without a comment. -/
def lineWords (line : List Char) : List (List Char) :=
  let step (c : Char) (words : List (List Char)) : List (List Char) :=
    if isGap c then [] :: words
    else match words with
      | word :: words => (c :: word) :: words
      | [] => [[c]]
  ((line.foldr step [[]]).filter fun word => !word.isEmpty).takeWhile fun word =>
    word.head? != some '#'

/-- Read the directives before a document. Two are known: the version, given once at most, and the
short form of a tag. -/
def directives? : Nat → (version any : Bool) → Place → Option (Bool × Place)
  | 0, _, _, _ => none
  | fuel + 1, version, any, p =>
    let p := (p.toNext false true).2
    match p.column, p.rest with
    | 0, '%' :: rest =>
      let line := rest.takeWhile (· ≠ '\n')
      let after := p.to (rest.drop line.length) (line.length + 1)
      match lineWords line with
      | [word, number] =>
        let supported := number == ['1', '.', '1'] || number == ['1', '.', '2']
        if word == "YAML".toList && supported && !version then directives? fuel true true after
        else none
      | [word, handle, short] =>
        if word == "TAG".toList && handle.head? == some '!' && handle.getLast? == some '!' then
          directives? fuel version true { after with handles := (handle, short) :: after.handles }
        else none
      | _ => none
    | _, _ => some (any, p)

/-- Whether nothing but end markers, blanks and comments is left. -/
def nothingLeft : Nat → Place → Bool
  | 0, _ => false
  | fuel + 1, p =>
    let p := (p.toNext false false).2
    p.rest.isEmpty || (p.atMarker && p.rest.head? == some '.' && nothingLeft fuel (p.skip 3))

/-- Read a text that holds one document. An empty text holds an empty one. -/
def Node.ofChars? (text : List Char) : Option Node :=
  if !text.all isPrintable then none
  else
    let text := unifyBreaks text
    let fuel := 4 * text.length + 16
    match directives? fuel false false { rest := text } with
    | none => none
    | some (directed, p) =>
      let document :=
        if p.atMarker && p.rest.head? == some '-' then blockNode? fuel 0 false false (p.skip 3)
        else if directed || p.atMarker then none
        else blockNode? fuel 0 true false p
      match document with
      | none => none
      | some (node, p) => if nothingLeft fuel p then some node else none

end NamedData.Yaml
