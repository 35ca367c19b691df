import NamedData.Exchange.Basic
import NamedData.Packet.Codec

/-!
The course of an exchange.

The producer registers its prefix first. Then the consumer expresses its interests, all before its
loop runs, and runs until every interest that was not taken back has been answered or has expired;
meanwhile the loops take turns. Each turn takes a moment, and when neither loop has anything to do
time passes until one has. At last the consumer asks what is still pending and both faces are shut
down.
-/
namespace NamedData.Exchange

/-- `LoopbackTransport::pair` and `ThreadsafeFace::new` on either end: two fresh loops on the two ends
of a new link. -/
def start? (plan : Plan) (config : FaceConfig) (host : Host) : Option Exchange :=
  let node : Node ExchangeCallback Outbox := { config, format := jsonFormat, scheduler := {} }
  match EventLoop.start? node { side := .left } host, EventLoop.start? node { side := .right } host with
  | some consumer, some producer => some { plan, consumer, producer }
  | _, _ => none

/-- Begin a run of a loop. -/
def begin? (x : Exchange) (role : Role) : Option Exchange :=
  (x.loop role).begin?.map fun l => x.setLoop role l

/-- One turn of a loop, and the moment it takes: a microsecond. -/
def turn (x : Exchange) (role : Role) : Exchange × Turn :=
  let (x, turn) := x.step role
  (x.setNow ⟨x.now.nanos + 1000⟩, turn)

/-- Let one loop run for as long as it can. -/
def runAlone : Nat → Role → Exchange → Exchange × Option LoopExit
  | 0, _, x => (x, none)
  | fuel + 1, role, x =>
    match x.turn role with
    | (x, .worked) => runAlone fuel role x
    | (x, .exited exit) => (x, some exit)
    | (x, _) => (x, none)

/-- The first half of `run_fetch`: register the producer's prefix. -/
def serve? (fuel : Nat) (x : Exchange) : Option Exchange :=
  let (id, x) := x.drawId .producer
  let x := x.queue .producer
    (.request (.register id x.plan.served (some .answer) .refused {}))
  (begin? x .producer).map fun x => (runAlone fuel .producer x).1

/-- `ThreadsafeFace::express_interest`: express an interest, and take it back if that is wanted. The
identifier comes back. -/
def express (x : Exchange) (d : Demand) : EntryId × Exchange :=
  let (id, x) := x.drawId .consumer
  let x := x.queue .consumer (.request (.express id d.interest .delivered (some .expired)))
  (id, if d.cancelled then x.queue .consumer (.request (.removePending id)) else x)

/-- Express several interests. -/
def expressAll (x : Exchange) : List Demand → List EntryId × Exchange
  | [] => ([], x)
  | d :: ds =>
    let (id, x) := x.express d
    let (ids, x) := x.expressAll ds
    (id :: ids, x)

/-- The earlier of two times at which something can be done. -/
def earlier : Option Nat → Option Nat → Option Nat
  | some a, some b => some (min a b)
  | some a, none => some a
  | none, b => b

/-- Let the loops take turns until the consumer's loop exits. -/
def runBoth : Nat → Exchange → Exchange × Option LoopExit
  | 0, x => (x, none)
  | fuel + 1, x =>
    let (x, mine) := x.turn .consumer
    match mine with
    | .exited exit => (x, some exit)
    | .collapsed => (x, none)
    | _ =>
      let (x, theirs) := x.turn .producer
      match mine, theirs with
      | .waiting a, .waiting b =>
        match earlier a b with
        | some wake => runBoth fuel (x.sleepUntil wake)
        | none => (x, none)
      | _, _ => runBoth fuel x

/-- What came of an exchange. -/
structure Report where
  /-- The identifiers of the interests, in the order they were expressed. -/
  ids : List EntryId
  outcomes : List Outcome
  stillPending : Nat
  consumerExit : LoopExit
  producerExit : LoopExit
  /-- What a face of the finished producer says to further work. -/
  late : Option FaceError

namespace Report

/-- The number of interests that were answered. -/
def answered (r : Report) : Nat :=
  r.outcomes.countP fun
    | .answered .. => true
    | .expired _ => false

/-- The number of interests that expired. -/
def expired (r : Report) : Nat :=
  r.outcomes.countP fun
    | .answered .. => false
    | .expired _ => true

end Report

/-- How an exchange fails. -/
inductive Failure where
  | registrationRefused (root : Name)
  /-- The exchange did not come to its end. -/
  | unfinished
deriving DecidableEq

/-- The end of `run_fetch`: ask what is pending, and shut both faces down. -/
def conclude? (fuel : Nat) (x : Exchange) : Option (Exchange × LoopExit) :=
  let x := x.queue .consumer (.stopWhen none)
  let x := (x.queue .consumer (.countPending (some 0))).shutdown .consumer
  match begin? x .consumer with
  | none => none
  | some x =>
    let x := (runAlone fuel .consumer x).1.shutdown .producer
    match runAlone fuel .producer x with
    | (_, none) => none
    | (x, some exit) => some (x, exit)

/-- `run_fetch`, for any interests: run an exchange from its beginning to its end. -/
def run (fuel : Nat) (plan : Plan) (config : FaceConfig) (host : Host) : Except Failure Report :=
  match (start? plan config host).bind (serve? fuel) with
  | none => .error .unfinished
  | some x =>
    if x.registrationRefused then .error (.registrationRefused plan.served)
    else
      let (ids, x) := x.expressAll plan.demands
      let x := x.queue .consumer (.stopWhen (some .finished))
      match (begin? x .consumer).map (runBoth fuel) with
      | some (x, some consumerExit) =>
        match conclude? fuel x with
        | none => .error .unfinished
        | some (x, producerExit) =>
          let late := match x.producer.channel.dropLoop.handOff (.flush none) with
            | .error error => some error
            | .ok _ => none
          .ok {
            ids
            outcomes := x.outcomes
            stillPending := x.stillPending.getD 0
            consumerExit
            producerExit
            late }
      | _ => .error .unfinished

end NamedData.Exchange
