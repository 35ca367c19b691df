import NamedData.CommandLine.Options
import NamedData.Name.Uri
import NamedData.Text.Digits

/-!
The command line of the program: `config` shows the configuration in effect, and `fetch`, or `get`,
expresses interests under a prefix.
-/
namespace NamedData

namespace CommandLine

/-- A number of 64 bits, perhaps behind a plus sign. -/
def uint64? (text : String) : Except Refusal UInt64 :=
  match Text.uint64OfDigits? 10 (Text.dropPlus text.toList) with
  | some value => .ok value
  | none => .error .malformedValue

/-- A name given by its URI. -/
def name? (text : String) : Except Refusal Name :=
  match Name.ofUri? text with
  | .ok name => .ok name
  | .error _ => .error .malformedValue

/-- The settings of a fetch, with the values they have unless told otherwise. -/
structure FetchOptions where
  /-- The producer answers below this name, and the interests are for its numbered children. -/
  root : Name := ⟨[.ofText "example".toList]⟩
  count : UInt64 := 5
  lifetimeMillis : UInt64 := 1000
  /-- The producer ignores every interest whose number this divides. -/
  dropEvery : Option UInt64 := none
deriving DecidableEq

/-- What the program is asked to do. -/
inductive Command where
  | fetch (options : FetchOptions)
  | config
deriving DecidableEq

end CommandLine

/-- A command line. -/
structure CommandLine where
  /-- Where the settings are, if not everything has its default. -/
  settings : Option String
  command : CommandLine.Command
deriving DecidableEq

namespace CommandLine

/-- The options of `fetch`. -/
inductive FetchOption where
  | root
  | count
  | lifetime
  | dropEvery
deriving DecidableEq

/-- How the options of `fetch` are written. -/
def fetchGrammar : Grammar FetchOption FetchOptions Unit where
  long
    | "prefix" => some (.takes .root)
    | "count" => some (.takes .count)
    | "lifetime-ms" => some (.takes .lifetime)
    | "drop-every" => some (.takes .dropEvery)
    | "help" => some .help
    | _ => none
  short
    | 'p' => some (.takes .root)
    | 'n' => some (.takes .count)
    | 'l' => some (.takes .lifetime)
    | 'd' => some (.takes .dropEvery)
    | 'h' => some .help
    | _ => none
  store
    | .root, value, o => (name? value).map fun root => { o with root }
    | .count, value, o => (uint64? value).map fun count => { o with count }
    | .lifetime, value, o => (uint64? value).map fun lifetimeMillis => { o with lifetimeMillis }
    | .dropEvery, value, o => (uint64? value).map fun k => { o with dropEvery := some k }
  subcommand _ := none
  hasSubcommands := false

/-- `config` has no option but the one for help. -/
def configGrammar : Grammar Unit Unit Unit where
  long
    | "help" => some .help
    | _ => none
  short
    | 'h' => some .help
    | _ => none
  store _ _ _ := .ok ()
  subcommand _ := none
  hasSubcommands := false

/-- The words that name a command. -/
inductive Verb where
  | fetch
  | config
  | help
deriving DecidableEq

/-- The command that a word names. -/
def Verb.ofString? : String → Option Verb
  | "fetch" | "get" => some .fetch
  | "config" => some .config
  | "help" => some .help
  | _ => none

/-- Take a path, which may not be empty. -/
def path? (text : String) : Except Refusal (Option String) :=
  if text.isEmpty then .error .missingValue else .ok (some text)

/-- How the options before the command are written. -/
def topGrammar : Grammar Unit (Option String) Verb where
  long
    | "config-file" => some (.takes ())
    | "help" => some .help
    | "version" => some .version
    | _ => none
  short
    | 'c' => some (.takes ())
    | 'h' => some .help
    | 'V' => some .version
    | _ => none
  store _ value _ := path? value
  subcommand := Verb.ofString?
  hasSubcommands := true

/-- The request for help about some command. A command has none below it to ask about. -/
def helpAbout : List String → Refusal
  | [] => .help
  | [word] => if (Verb.ofString? word).isSome then .help else .invalidSubcommand
  | _ => .invalidSubcommand

/-- Read the command that a verb begins. -/
def readCommand (verb : Verb) (words : List String) : Except Refusal Command :=
  match verb with
  | .help => .error (helpAbout words)
  | .config =>
    match Reading.readAll configGrammar () words with
    | .error refusal => .error refusal
    | .ok () => .ok .config
  | .fetch =>
    match Reading.readAll fetchGrammar {} words with
    | .error refusal => .error refusal
    | .ok options => .ok (.fetch options)

/-- The settings file of a command line: the one it names, or else the one of the environment. -/
def settingsOf (r : Reading Unit (Option String)) (environment : Option String) :
    Except Refusal (Option String) :=
  match r.settle topGrammar with
  | .error refusal => .error refusal
  | .ok r =>
    match r.values, environment with
    | none, some path => path? path
    | values, _ => .ok values

/-- Read a command line. The faults of a command come before those of what stands before it. -/
def parse (environment : Option String) (words : List String) : Except Refusal CommandLine :=
  match Reading.read topGrammar false { values := none } words with
  | .error refusal => .error refusal
  | .ok (r, some (verb, words)) =>
    match readCommand verb words with
    | .error refusal => .error refusal
    | .ok command =>
      match settingsOf r environment with
      | .error refusal => .error refusal
      | .ok settings => .ok { settings, command }
  | .ok (r, none) =>
    match settingsOf r environment with
    | .error refusal => .error refusal
    | .ok none => .error .usage
    | .ok (some _) => .error .missingSubcommand

end CommandLine

end NamedData
