import NamedData.Program

/-!
The command line program: it looks up the settings file, runs, and prints.
-/
namespace NamedData.Program

/-- Look for a settings file. -/
def findSettings (path : String) : IO SettingsFile := do
  try
    let content ← IO.FS.readBinFile path
    return .octets content.toList
  catch
    | .noFileOrDirectory .. => return .missing
    | _ => return .directory

/-- Print what a run leaves behind. -/
def Output.print (output : Output) : IO UInt32 := do
  output.lines.forM IO.println
  match output.complaint with
  | none => pure ()
  | some complaint => IO.eprintln complaint
  return output.exitCode.toUInt32

/-- Enough steps for any fetch that comes to an end. -/
def fetchFuel : Nat := 1000000000

/-- Carry out a command line with the clock and the chance of this machine. -/
def perform (line : CommandLine) : IO UInt32 := do
  let file ← match line.settings with
    | none => pure SettingsFile.missing
    | some path => findSettings path
  let now := Instant.ofMillis (← IO.monoMsNow)
  let seed ← IO.rand 1000000000 2000000000
  let host : Host := { now, nonces := fun k => UInt32.ofNat (seed + k) }
  (run fetchFuel host (fun _ => file) line).print

end NamedData.Program

def main (args : List String) : IO UInt32 := do
  match NamedData.CommandLine.parse (← IO.getEnv "NDN_CONFIG_FILE") args with
  | .error refusal => (NamedData.Program.refused refusal).print
  | .ok line => NamedData.Program.perform line
