import NamedData.Name.Basic
import NamedData.Text.Blank

/-!
Reading names from URIs.

Blanks around the text are dropped. A scheme is whatever stands before the first colon, provided no
slash stands before it; only `ndn` is accepted. An authority `//host` is skipped up to the next
slash. What remains is cut at slashes, empty segments are dropped, and every other segment is read
as an escaped component. The first segment that is ill-escaped decides the error.
-/
namespace NamedData.Name

/-- Cut a text at its slashes. -/
def segments : List Char → List (List Char)
  | [] => [[]]
  | c :: rest =>
    match segments rest with
    | [] => [[c]]
    | head :: tail => if c = '/' then [] :: head :: tail else (c :: head) :: tail

/-- The scheme of a URI and what follows its colon. -/
def scheme? (uri : List Char) : Option (List Char × List Char) :=
  let before := uri.takeWhile (· ≠ ':')
  match uri.dropWhile (· ≠ ':') with
  | [] => none
  | _ :: after => if before.contains '/' then none else some (before, after)

/-- Skip an authority section: from a leading `//` up to the next slash, or to the end. -/
def dropAuthority : List Char → List Char
  | '/' :: '/' :: rest => rest.dropWhile (· ≠ '/')
  | path => path

/-- Read a list of segments as components, stopping at the first that is ill-escaped. -/
def ofSegments? : List (List Char) → Except NameError (List Component)
  | [] => .ok []
  | s :: rest =>
    match Component.ofEscaped? s with
    | .error e => .error e
    | .ok c =>
      match ofSegments? rest with
      | .error e => .error e
      | .ok cs => .ok (c :: cs)

/-- Read a path, which has neither scheme nor authority. -/
def ofPath? (path : List Char) : Except NameError Name :=
  match ofSegments? ((segments path).filter fun s => !s.isEmpty) with
  | .error e => .error e
  | .ok cs => .ok ⟨cs⟩

/-- Read a name from the characters of a URI. -/
def ofChars? (uri : List Char) : Except NameError Name :=
  let trimmed := Text.trim uri
  match scheme? trimmed with
  | none => ofPath? (dropAuthority trimmed)
  | some (scheme, rest) =>
    if scheme = ['n', 'd', 'n'] then ofPath? (dropAuthority rest)
    else .error (.unsupportedScheme (String.ofList trimmed))

/-- `Name::from_str`: read a name from a URI. -/
def ofUri? (uri : String) : Except NameError Name := ofChars? uri.toList

end NamedData.Name
