import NamedData.Fetch
import NamedData.Face.Settings

/-!
The program: what it prints and how it exits, given its command line and its settings file.
-/
namespace NamedData.Program

/-- What a run of the program leaves behind. -/
structure Output where
  lines : List String
  complaint : Option String := none
  exitCode : UInt8 := 0
deriving DecidableEq

/-- What is said when a command line is not carried out. -/
def refusalText : CommandLine.Refusal → String
  | .help | .usage =>
    "Usage: ndn [--config-file <PATH>] <fetch|config|help>\n" ++
      "  fetch [--prefix <NAME>] [--count <N>] [--lifetime-ms <MS>] [--drop-every <K>]\n" ++
      "  config"
  | .version => "ndn-cli 0.1.0"
  | .missingSubcommand => "error: a subcommand is required"
  | .invalidSubcommand => "error: unrecognized subcommand"
  | .unknownArgument => "error: unexpected argument"
  | .argumentConflict => "error: an argument cannot be used multiple times"
  | .missingValue => "error: an argument needs a value"
  | .malformedValue => "error: invalid value for an argument"
  | .needlessValue => "error: unexpected value for an argument"

/-- A command line that is not carried out. Asking for help is no fault. -/
def refused (refusal : CommandLine.Refusal) : Output :=
  match refusal with
  | .help | .version => { lines := [refusalText refusal] }
  | _ => { lines := [], complaint := some (refusalText refusal), exitCode := 2 }

/-- What is printed before every complaint about a command. -/
def failed (lines : List String) (reason : String) : Output :=
  { lines, complaint := some ("** Error ** \n " ++ reason), exitCode := 1 }

/-- What is said when the settings cannot be used. -/
def settingsComplaint (error : SettingsError) : String :=
  "Error reading configuration file: " ++ error.message

/-- `load_face_config`: the configuration in effect, with the lines printed on the way to it. A file
that is missing is mentioned and otherwise does not matter. -/
def configure (settings : Option String) (file : String → SettingsFile) :
    Except SettingsError (List String × FaceConfig) :=
  match settings with
  | none => .ok ([], {})
  | some path =>
    match FaceConfig.load (file path) with
    | .ok config => .ok ([], config)
    | .error .missing => .ok (["No configuration file found at " ++ path ++ ". Using defaults."], {})
    | .error error => .error error

/-- Run the program. -/
def run (fuel : Nat) (host : Host) (file : String → SettingsFile) (line : CommandLine) : Output :=
  match configure line.settings file with
  | .error error => failed [] (settingsComplaint error)
  | .ok (lines, config) =>
    match line.command with
    | .config =>
      { lines := lines ++ config.yamlLines ++ ["Bye :)"] }
    | .fetch options =>
      match fetch fuel options config host with
      | .ok (printed, summary) => { lines := lines ++ printed ++ [summary.message, "Bye :)"] }
      | .error (.registrationRefused root) =>
        failed lines ("Prefix registration failed for " ++ root.toUri)
      | .error .unfinished => failed lines "The fetch did not come to an end."

end NamedData.Program
