import NamedData.Time.Duration

/-!
Tunables of a face and its event loop.
-/
namespace NamedData

/-- Tunables of a face and its event loop, with the values they have unless told otherwise. -/
structure FaceConfig where
  /-- Milliseconds between two rounds of event processing. -/
  processEventsMillis : UInt64 := 10
  /-- Milliseconds between two polls of the stop predicate. -/
  stopWhenMillis : UInt64 := 500
  /-- Lifetime in milliseconds of interests that carry none. -/
  interestLifetimeMillis : UInt64 := 4000
  /-- Longer encodings are refused. -/
  maxPacketSize : UInt64 := 8800
deriving DecidableEq, Inhabited

namespace FaceConfig

/-- `FaceConfig::process_events_interval`: the time between two ticks of event processing. -/
def processEventsInterval (c : FaceConfig) : Duration := .ofMillis c.processEventsMillis

/-- `FaceConfig::stop_when_interval`: the time between two polls of the stop predicate. -/
def stopWhenInterval (c : FaceConfig) : Duration := .ofMillis c.stopWhenMillis

/-- `FaceConfig::default_interest_lifetime`: the lifetime of an interest that names none. -/
def defaultLifetime (c : FaceConfig) : Duration := .ofMillis c.interestLifetimeMillis

end FaceConfig

end NamedData
