/-!
Reading the options of a command.

An option is written `--name value`, `--name=value`, `-n value`, `-nvalue` or `-n=value`. A value of
its own may not begin with a dash. An option that waits for its value is settled when the next one
is met, or at the end; until then faults of the words that follow come first. After a word `--` no
option is recognised any more.
-/
namespace NamedData.CommandLine

/-- Why a command line is not carried out. -/
inductive Refusal where
  | help
  | version
  /-- Nothing was asked for. -/
  | usage
  | missingSubcommand
  | invalidSubcommand
  | unknownArgument
  /-- An option was given twice. -/
  | argumentConflict
  /-- An option has no value, or an empty one where that is no value. -/
  | missingValue
  /-- A value does not spell what the option is for. -/
  | malformedValue
  /-- A flag was given a value. -/
  | needlessValue
deriving DecidableEq

/-- What an option is for. -/
inductive Meaning (ω : Type) where
  | takes (option : ω)
  | help
  | version

/-- The options of a command, how their values are stored, and the commands below it. -/
structure Grammar (ω σ κ : Type) where
  long : String → Option (Meaning ω)
  short : Char → Option (Meaning ω)
  store : ω → String → σ → Except Refusal σ
  subcommand : String → Option κ
  hasSubcommands : Bool

/-- How a word of a command line looks. -/
inductive Word where
  | escape
  | long (name : String) (value : Option String)
  | short (letters : List Char)
  | bare
deriving DecidableEq

/-- The look of a word. -/
def Word.ofString (text : String) : Word :=
  match text.toList with
  | ['-', '-'] => .escape
  | '-' :: '-' :: rest =>
    let name := String.ofList (rest.takeWhile (· ≠ '='))
    match rest.dropWhile (· ≠ '=') with
    | [] => .long name none
    | _ :: value => .long name (some (String.ofList value))
  | '-' :: c :: rest => .short (c :: rest)
  | _ => .bare

/-- What has been read of a command: the values so far, the options they were given by, and an option
not settled yet, with its value if there is one. -/
structure Reading (ω σ : Type) where
  values : σ
  given : List ω := []
  waiting : Option (ω × Option String) := none

namespace Reading

variable {ω σ κ : Type} [BEq ω]

/-- Store the value of an option. -/
def store (g : Grammar ω σ κ) (r : Reading ω σ) (option : ω) (value : Option String) :
    Except Refusal (Reading ω σ) :=
  match value with
  | none => .error .missingValue
  | some value =>
    if r.given.contains option then .error .argumentConflict
    else
      match g.store option value r.values with
      | .error refusal => .error refusal
      | .ok values => .ok { values, given := option :: r.given }

/-- Settle the option that waits, if there is one. -/
def settle (g : Grammar ω σ κ) (r : Reading ω σ) : Except Refusal (Reading ω σ) :=
  match r.waiting with
  | none => .ok r
  | some (option, value) => store g { r with waiting := none } option value

/-- Meet an option, perhaps with a value attached to it. -/
def meet (g : Grammar ω σ κ) (r : Reading ω σ) (meaning : Meaning ω) (attached : Option String) :
    Except Refusal (Reading ω σ) := do
  match meaning, attached with
  | .takes option, some value =>
    let r ← r.settle g
    r.store g option (some value)
  | .takes option, none =>
    let r ← r.settle g
    return { r with waiting := some (option, none) }
  | .help, _ =>
    let _ ← r.settle g
    throw .help
  | .version, _ =>
    let _ ← r.settle g
    throw .version

/-- Meet a word that begins with two dashes. -/
def meetLong (g : Grammar ω σ κ) (r : Reading ω σ) (name : String) (value : Option String) :
    Except Refusal (Reading ω σ) :=
  match g.long name, value with
  | none, _ => .error .unknownArgument
  | some (.takes option), value => r.meet g (.takes option) value
  | some meaning, none => r.meet g meaning none
  | some _, some _ => .error .needlessValue

/-- Meet a word that begins with one dash. What stands behind the letter of an option is its value. -/
def meetShort (g : Grammar ω σ κ) (r : Reading ω σ) (letters : List Char) :
    Except Refusal (Reading ω σ) :=
  match letters with
  | [] => .ok r
  | c :: rest =>
    match g.short c with
    | none => .error .unknownArgument
    | some meaning =>
      r.meet g meaning (match rest with
        | [] => none
        | '=' :: value => some (String.ofList value)
        | value => some (String.ofList value))

/-- Read words until they are over or one names a subcommand, which comes back with the words behind
it. -/
def read (g : Grammar ω σ κ) :
    (escaped : Bool) → Reading ω σ → List String →
      Except Refusal (Reading ω σ × Option (κ × List String))
  | _, r, [] => .ok (r, none)
  | true, _, word :: _ =>
    .error (if g.hasSubcommands && (g.subcommand word).isNone then .invalidSubcommand
      else .unknownArgument)
  | false, r, word :: rest =>
    match Word.ofString word, r.waiting with
    | .escape, _ => read g true r rest
    | .long name value, _ =>
      match r.meetLong g name value with
      | .error refusal => .error refusal
      | .ok r => read g false r rest
    | .short letters, _ =>
      match r.meetShort g letters with
      | .error refusal => .error refusal
      | .ok r => read g false r rest
    | .bare, some (option, none) =>
      read g false { r with waiting := some (option, some word) } rest
    | .bare, _ =>
      match g.subcommand word with
      | some command => .ok (r, some (command, rest))
      | none => .error (if g.hasSubcommands then .invalidSubcommand else .unknownArgument)

/-- Read all the words of a command that has no subcommands. -/
def readAll (g : Grammar ω σ κ) (values : σ) (words : List String) : Except Refusal σ :=
  match read g false { values } words with
  | .error refusal => .error refusal
  | .ok (r, _) =>
    match r.settle g with
    | .error refusal => .error refusal
    | .ok r => .ok r.values

end Reading

end NamedData.CommandLine
