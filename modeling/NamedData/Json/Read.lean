import NamedData.Json.Skip

/-!
Reading typed values from JSON text.

A reader knows the type it wants. A well-formed value of another type is mismatched as soon as its
first token has been read, before anything behind that token is looked at. Records may be written
as objects, in any order and with unknown members, or as arrays of all their fields in order.
-/
namespace NamedData.Json

/-- The fault of a text whose next value is not of the wanted type. A token that is ill-formed
itself comes first. -/
def typeFault : Bytes → Fault
  | [] => .truncated
  | b :: rest =>
    let unlessFault {α : Type} (token : Except Fault α) : Fault :=
      match token with
      | .error fault => fault
      | .ok _ => .mismatched
    if b = 110 then unlessFault (word [117, 108, 108] rest)
    else if b = 116 then unlessFault (word [114, 117, 101] rest)
    else if b = 102 then unlessFault (word [97, 108, 115, 101] rest)
    else if b = Sign.minus then unlessFault (number false rest)
    else if isDigit b then unlessFault (number true (b :: rest))
    else if b = Sign.quote then unlessFault (string rest)
    else if b = Sign.openBracket || b = Sign.openBrace then .mismatched
    else .malformed

/-- A whole number below a limit. -/
def natural (limit : Nat) : Reader Nat := fun text =>
  match skipBlanks text with
  | [] => .error .truncated
  | b :: rest =>
    if b = Sign.minus then
      match number false rest with
      | .error fault => .error fault
      | .ok _ => .error .mismatched
    else if isDigit b then
      match number true (b :: rest) with
      | .error fault => .error fault
      | .ok (.other, _) => .error .mismatched
      | .ok (.whole n, rest) => if n < limit then .ok (n, rest) else .error .mismatched
    else .error (typeFault (b :: rest))

/-- One of the words `true` and `false`. -/
def bool : Reader Bool := fun text =>
  match skipBlanks text with
  | [] => .error .truncated
  | b :: rest =>
    if b = 116 then
      match word [114, 117, 101] rest with
      | .error fault => .error fault
      | .ok ((), rest) => .ok (true, rest)
    else if b = 102 then
      match word [97, 108, 115, 101] rest with
      | .error fault => .error fault
      | .ok ((), rest) => .ok (false, rest)
    else .error (typeFault (b :: rest))

/-- A value, or `null` for none. -/
def optional {α : Type} (value : Reader α) : Reader (Option α) := fun text =>
  let present : Except Fault (Option α × Bytes) :=
    match value text with
    | .error fault => .error fault
    | .ok (a, rest) => .ok (some a, rest)
  match skipBlanks text with
  | [] => present
  | b :: rest =>
    if b = 110 then
      match word [117, 108, 108] rest with
      | .error fault => .error fault
      | .ok ((), rest) => .ok (none, rest)
    else present

/-- Change what a reader returns. -/
def mapRead {α β : Type} (f : α → β) (reader : Reader α) : Reader β := fun text =>
  match reader text with
  | .error fault => .error fault
  | .ok (a, rest) => .ok (f a, rest)

/-! ## Arrays -/

/-- Whether an array goes on; if so, the text behind the separating comma. -/
def moreElements (first : Bool) : Reader Bool := fun text =>
  match skipBlanks text with
  | [] => .error .truncated
  | b :: rest =>
    if b = Sign.closeBracket then .ok (false, b :: rest)
    else if first then .ok (true, b :: rest)
    else if b = Sign.comma then
      match skipBlanks rest with
      | [] => .error .truncated
      | c :: rest => if c = Sign.closeBracket then .error .malformed else .ok (true, c :: rest)
    else .error .malformed

/-- The elements of an array up to its closing bracket, which stays. Every element takes at least
one character, so any text at least as long bounds their number; one is the first argument. -/
def elements {α : Type} (element : Reader α) : Bytes → Bool → Reader (List α)
  | [], _, _ => .error .truncated
  | _ :: bound, first, text =>
    match moreElements first text with
    | .error fault => .error fault
    | .ok (false, rest) => .ok ([], rest)
    | .ok (true, rest) =>
      match element rest with
      | .error fault => .error fault
      | .ok (a, rest) =>
        match elements element bound false rest with
        | .error fault => .error fault
        | .ok (as, rest) => .ok (a :: as, rest)

/-- Expect the closing bracket of an array. -/
def closeArray : Reader Unit := fun text =>
  match skipBlanks text with
  | [] => .error .truncated
  | b :: rest => if b = Sign.closeBracket then .ok ((), rest) else .error .malformed

/-- An array of values of one type. -/
def array {α : Type} (element : Reader α) : Reader (List α) := fun text =>
  match skipBlanks text with
  | [] => .error .truncated
  | b :: rest =>
    if b = Sign.openBracket then
      match elements element text true rest with
      | .error fault => .error fault
      | .ok (as, rest) =>
        match closeArray rest with
        | .error fault => .error fault
        | .ok ((), rest) => .ok (as, rest)
    else .error (typeFault (b :: rest))

/-- The next field of a record written as an array. All fields must be there. -/
def nextField {α : Type} (first : Bool) (value : Reader α) : Reader α := fun text =>
  match moreElements first text with
  | .error fault => .error fault
  | .ok (false, _) => .error .mismatched
  | .ok (true, rest) => value rest

/-- The next field of a record written as an array, if the array has not ended. -/
def nextField? {α : Type} (first : Bool) (value : Reader α) : Reader (Option α) := fun text =>
  match moreElements first text with
  | .error fault => .error fault
  | .ok (false, rest) => .ok (none, rest)
  | .ok (true, rest) => mapRead some value rest

/-! ## Records -/

/-- Whether an object goes on; if so, the text behind the opening quote of the next key. -/
def moreMembers (first : Bool) : Reader Bool := fun text =>
  match skipBlanks text with
  | [] => .error .truncated
  | b :: rest =>
    if b = Sign.closeBrace then .ok (false, b :: rest)
    else if first then
      if b = Sign.quote then .ok (true, rest) else .error .malformed
    else if b = Sign.comma then
      match skipBlanks rest with
      | [] => .error .truncated
      | c :: rest => if c = Sign.quote then .ok (true, rest) else .error .malformed
    else .error .malformed

/-- Expect the closing brace of an object. -/
def closeObject : Reader Unit := fun text =>
  match skipBlanks text with
  | [] => .error .truncated
  | b :: rest => if b = Sign.closeBrace then .ok ((), rest) else .error .malformed

/-- How a record is read: `σ` holds the fields met so far. -/
structure Layout (σ α : Type) where
  /-- No field met. -/
  blank : σ
  /-- What a key leads to: a reader of the colon and the value, or nothing for an unknown key. -/
  member : Bytes → Option (σ → Reader σ)
  /-- What follows the key of an unknown member. -/
  unknown : Reader Unit
  /-- The record, unless a required field is missing. -/
  complete : σ → Except Fault α
  /-- The fields in their order, when the record is written as an array. -/
  inOrder : Reader α

/-- Pass over the colon and the value of an unknown member. -/
def skipMember : Reader Unit := fun text =>
  match colon text with
  | .error fault => .error fault
  | .ok ((), rest) => skipValue rest

/-- Refuse an unknown member as soon as its key has been read. -/
def refuseMember : Reader Unit := fun _ => .error .mismatched

/-- A field that may be met once: its value goes into its slot. -/
def slot {σ α : Type} (get : σ → Option α) (set : σ → α → σ) (value : Reader α) (s : σ) :
    Reader σ := fun text =>
  match get s with
  | some _ => .error .mismatched
  | none =>
    match colon text with
    | .error fault => .error fault
    | .ok ((), rest) => mapRead (set s) value rest

/-- A field that must have been met. -/
def required {α : Type} : Option α → Except Fault α
  | some a => .ok a
  | none => .error .mismatched

/-- The members of an object up to its closing brace, which stays. The first argument is some text at
least as long, which bounds their number. -/
def members {σ α : Type} (layout : Layout σ α) : Bytes → Bool → σ → Reader σ
  | [], _, _, _ => .error .truncated
  | _ :: bound, first, s, text =>
    match moreMembers first text with
    | .error fault => .error fault
    | .ok (false, rest) => .ok (s, rest)
    | .ok (true, rest) =>
      match string rest with
      | .error fault => .error fault
      | .ok (key, rest) =>
        match layout.member key with
        | some read =>
          match read s rest with
          | .error fault => .error fault
          | .ok (s, rest) => members layout bound false s rest
        | none =>
          match layout.unknown rest with
          | .error fault => .error fault
          | .ok ((), rest) => members layout bound false s rest

/-- A record, written as an object or as an array. -/
def record {σ α : Type} (layout : Layout σ α) : Reader α := fun text =>
  match skipBlanks text with
  | [] => .error .truncated
  | b :: rest =>
    if b = Sign.openBracket then
      match layout.inOrder rest with
      | .error fault => .error fault
      | .ok (a, rest) =>
        match closeArray rest with
        | .error fault => .error fault
        | .ok ((), rest) => .ok (a, rest)
    else if b = Sign.openBrace then
      match members layout text true layout.blank rest with
      | .error fault => .error fault
      | .ok (s, rest) =>
        match layout.complete s with
        | .error fault => .error fault
        | .ok a =>
          match closeObject rest with
          | .error fault => .error fault
          | .ok ((), rest) => .ok (a, rest)
    else .error (typeFault (b :: rest))

/-- A value that is the whole text, up to blanks. -/
def document {α : Type} (value : Reader α) (text : Bytes) : Except Fault α :=
  match value text with
  | .error fault => .error fault
  | .ok (a, rest) => if (skipBlanks rest).isEmpty then .ok a else .error .malformed

end NamedData.Json
