import NamedData.Exchange.Run
import NamedData.CommandLine.Basic

/-!
Fetching: interests for the numbered children of a name, and what comes back.
-/
namespace NamedData

/-- What came of the interests of a fetch. -/
structure FetchSummary where
  expressed : Nat
  satisfied : Nat
  timedOut : Nat
  stillPending : Nat
deriving DecidableEq

/-- A `FetchSummary` as it is displayed. -/
def FetchSummary.message (s : FetchSummary) : String :=
  toString s.expressed ++ " interests expressed. " ++ toString s.satisfied ++ " satisfied, " ++
    toString s.timedOut ++ " timed out, " ++ toString s.stillPending ++ " still pending."

/-- The line that is printed when an interest ends. -/
def Exchange.Outcome.line : Exchange.Outcome → String
  | .answered interest data =>
    interest.name.toUri ++ " -> " ++ (utf8Text? data.content).getD ""
  | .expired interest => interest.name.toUri ++ " timed out"

namespace CommandLine.FetchOptions

/-- The interest of some number, as `run_fetch` makes it. -/
def interest (o : FetchOptions) (number : Nat) : Interest :=
  { name := o.root.append (.ofText (toString number).toList)
    lifetime := some (.ofMillis o.lifetimeMillis) }

/-- The exchange that `run_fetch` sets up. -/
def plan (o : FetchOptions) : Exchange.Plan where
  served := o.root
  dropEvery := o.dropEvery.map (·.toNat)
  demands := (List.range o.count.toNat).map fun number => { interest := o.interest number }

end CommandLine.FetchOptions

/-- `run_fetch`: the lines printed meanwhile, and the summary. -/
def fetch (fuel : Nat) (options : CommandLine.FetchOptions) (config : FaceConfig) (host : Host) :
    Except Exchange.Failure (List String × FetchSummary) :=
  match Exchange.run fuel options.plan config host with
  | .error failure => .error failure
  | .ok report =>
    .ok (report.outcomes.map (·.line), {
      expressed := options.count.toNat
      satisfied := report.answered
      timedOut := report.expired
      stillPending := report.stillPending })

end NamedData
