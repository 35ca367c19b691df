import NamedData.Bytes
import NamedData.Face.Config
import NamedData.Yaml.Document
import NamedData.Yaml.Integer

/-!
Face configurations as YAML documents.

A document is a mapping from the names of tunables to whole numbers. A tunable that is not mentioned
keeps its default, a name that is unknown is passed over, and no tunable may be given twice.
-/
namespace NamedData

/-- The tunables of a face. -/
inductive Tunable where
  | processEventsInterval
  | stopWhenInterval
  | interestLifetime
  | packetSize
deriving DecidableEq

namespace Tunable

/-- All tunables, in the order they are written. -/
def all : List Tunable := [processEventsInterval, stopWhenInterval, interestLifetime, packetSize]

/-- The name of a tunable in a document. -/
def key : Tunable → String
  | processEventsInterval => "process_events_interval_ms"
  | stopWhenInterval => "stop_when_interval_ms"
  | interestLifetime => "default_interest_lifetime_ms"
  | packetSize => "max_ndn_packet_size"

/-- The tunable of a name. -/
def ofKey? (name : List Char) : Option Tunable := all.find? fun t => t.key.toList = name

end Tunable

namespace FaceConfig

/-- The value of a tunable. -/
def get (c : FaceConfig) : Tunable → UInt64
  | .processEventsInterval => c.processEventsMillis
  | .stopWhenInterval => c.stopWhenMillis
  | .interestLifetime => c.interestLifetimeMillis
  | .packetSize => c.maxPacketSize

/-- Give a tunable a value. -/
def set (c : FaceConfig) (t : Tunable) (value : UInt64) : FaceConfig :=
  match t with
  | .processEventsInterval => { c with processEventsMillis := value }
  | .stopWhenInterval => { c with stopWhenMillis := value }
  | .interestLifetime => { c with interestLifetimeMillis := value }
  | .packetSize => { c with maxPacketSize := value }

/-- Overlay a configuration with the entries of a mapping. The tunables in `given` have their value
already. -/
def overlay? (c : FaceConfig) (given : List Tunable) : List (Yaml.Node × Yaml.Node) →
    Option FaceConfig
  | [] => some c
  | (.scalar _ _ name, node) :: entries =>
    match Tunable.ofKey? name with
    | none => c.overlay? given entries
    | some t =>
      match given.contains t, node.uint64? with
      | false, some value => (c.set t value).overlay? (t :: given) entries
      | _, _ => none
  | _ :: _ => none

/-- The configuration that a document describes. An empty document describes the default one. -/
def ofNode? : Yaml.Node → Option FaceConfig
  | .mapping entries => overlay? {} [] entries
  | .scalar .plain _ [] => some {}
  | _ => none

/-- The configuration that a YAML text describes. -/
def ofYaml? (text : List Char) : Option FaceConfig := (Yaml.Node.ofChars? text).bind ofNode?

/-- The line of a YAML text that gives a tunable its value. -/
def yamlLine (c : FaceConfig) (t : Tunable) : String :=
  t.key ++ ": " ++ toString (c.get t).toNat

/-- A configuration as the lines of a YAML text that names every tunable. -/
def yamlLines (c : FaceConfig) : List String := Tunable.all.map c.yamlLine

end FaceConfig

/-! ## Files -/

/-- What is found where a settings file is looked for. -/
inductive SettingsFile where
  | missing
  | directory
  | octets (content : Bytes)

/-- Why a settings file could not be used. -/
inductive SettingsError where
  | missing
  | directory
  /-- The file holds no UTF-8 text. -/
  | notText
  /-- The text describes no configuration. -/
  | invalid
deriving DecidableEq

/-- The wording of a settings error. -/
def SettingsError.message : SettingsError → String
  | .missing => "IO Error: No such file or directory (os error 2)"
  | .directory => "IO Error: Is a directory (os error 21)"
  | .notText => "IO Error: stream did not contain valid UTF-8"
  | .invalid => "Invalid configuration file."

/-- `FaceConfig::load`: the configuration in a settings file. -/
def FaceConfig.load : SettingsFile → Except SettingsError FaceConfig
  | .missing => .error .missing
  | .directory => .error .directory
  | .octets content =>
    match utf8Text? content with
    | none => .error .notText
    | some text =>
      match ofYaml? text.toList with
      | none => .error .invalid
      | some config => .ok config

end NamedData
