import NamedData.Json.Number
import NamedData.Json.Text

/-!
Passing over a JSON value of any shape and depth.

The brackets that are still open are held in a list, innermost first, so depth is not limited. The
skipper alternates between two places: in front of a value, and behind one. Every turn but the one
from behind an opening bracket to the front of its first value consumes a character, so twice the
length of the text bounds the number of turns.
-/
namespace NamedData.Json

/-- The two kinds of brackets. -/
inductive Bracket where
  | list
  | map
deriving DecidableEq

/-- Where the skipper stands. -/
inductive Place where
  /-- In front of a value. -/
  | before
  /-- Behind an opening bracket. -/
  | opened
  /-- Behind a complete value. -/
  | behind
deriving DecidableEq

/-- Expect the colon between a key and its value. -/
def colon : Reader Unit := fun text =>
  match skipBlanks text with
  | [] => .error .truncated
  | b :: rest => if b = Sign.colon then .ok ((), rest) else .error .malformed

/-- Pass over the key of a member and its colon. -/
def skipKey : Reader Unit := fun text =>
  match skipBlanks text with
  | [] => .error .truncated
  | b :: rest =>
    if b = Sign.quote then
      match skipString rest with
      | .error fault => .error fault
      | .ok ((), rest) => colon rest
    else .error .malformed

/-- Pass over a value that is not bracketed. -/
def skipScalar (b : UInt8) (rest : Bytes) : Except Fault (Unit × Bytes) :=
  if b = 110 then word [117, 108, 108] rest
  else if b = 116 then word [114, 117, 101] rest
  else if b = 102 then word [97, 108, 115, 101] rest
  else if b = Sign.minus then skipNumber rest
  else if isDigit b then skipNumber (b :: rest)
  else if b = Sign.quote then skipString rest
  else .error .malformed

/-- Pass over what is left of a value, given the brackets that are open. -/
def skipOpen : Nat → Place → List Bracket → Reader Unit
  | 0, _, _, _ => .error .truncated
  | fuel + 1, .before, brackets, text =>
    match skipBlanks text with
    | [] => .error .truncated
    | b :: rest =>
      if b = Sign.openBracket then skipOpen fuel .opened (.list :: brackets) rest
      else if b = Sign.openBrace then skipOpen fuel .opened (.map :: brackets) rest
      else
        match skipScalar b rest with
        | .error fault => .error fault
        | .ok ((), rest) => skipOpen fuel .behind brackets rest
  | _ + 1, _, [], text => .ok ((), text)
  | fuel + 1, place, bracket :: outer, text =>
    match skipBlanks text with
    | [] => .error .truncated
    | b :: rest =>
      let next (text : Bytes) : Except Fault (Unit × Bytes) :=
        match bracket with
        | .list => skipOpen fuel .before (bracket :: outer) text
        | .map =>
          match skipKey text with
          | .error fault => .error fault
          | .ok ((), text) => skipOpen fuel .before (bracket :: outer) text
      let closing := match bracket with
        | .list => Sign.closeBracket
        | .map => Sign.closeBrace
      if b = closing then skipOpen fuel .behind outer rest
      else if place = .opened then next (b :: rest)
      else if b = Sign.comma then next rest
      else .error .malformed

/-- Pass over a value. -/
def skipValue : Reader Unit := fun text => skipOpen (2 * text.length + 2) .before [] text

end NamedData.Json
