import NamedData.Loop.Basic

/-!
Two faces on one link: a consumer that expresses interests, and a producer that answers them.

Each face has its event loop, with the node on its own end of the link. The loops take turns; they
share the link, the clock, the counter of identifiers and the marks of entries, so whatever one loop
does to these is seen by the other.
-/
namespace NamedData

/-- The callbacks of the two faces. -/
inductive ExchangeCallback where
  /-- The producer answers an interest. -/
  | answer
  /-- The producer's prefix was refused. -/
  | refused
  /-- The consumer has received data. -/
  | delivered
  /-- The consumer has waited in vain. -/
  | expired
  /-- The consumer asks whether there is anything left to wait for. -/
  | finished
deriving DecidableEq

namespace Exchange

/-- The name that `EventLoop::spawn_thread` gives to the thread of a loop. -/
def threadName : String := "ndn-face-loop"

/-- An interest to be expressed, and whether it is taken back at once. -/
structure Demand where
  interest : Interest
  cancelled : Bool := false
deriving DecidableEq

/-- What an exchange is about. -/
structure Plan where
  /-- The producer answers below this name. -/
  served : Name
  /-- The producer ignores every interest whose number this divides. -/
  dropEvery : Option Nat := none
  demands : List Demand

/-- The number of interests that are waited for. -/
def Plan.awaited (p : Plan) : Nat := p.demands.countP fun d => !d.cancelled

/-- The plan of several threads that express interests at one face. Each interest is named after its
thread and its number. -/
def Plan.ofThreads (served root : Name) (threads perThread : Nat) (lifetime : Duration)
    (cancelled : Bool) : Plan :=
  let interest (thread number : Nat) : Interest :=
    let text := toString thread ++ "-" ++ toString number
    { name := root.append (.ofText text.toList), lifetime := some lifetime }
  { served
    demands := (List.range threads).flatMap fun thread =>
      (List.range perThread).map fun number =>
        { interest := interest thread number, cancelled } }

/-- How an interest ended. -/
inductive Outcome where
  | answered (interest : Interest) (data : Data)
  | expired (interest : Interest)
deriving DecidableEq

/-- Which data was received, and on which thread. -/
def Outcome.place? : Outcome → Option String
  | .answered _ data => some (data.name.toUri ++ " on " ++ threadName)
  | .expired _ => none

/-- The two faces. -/
inductive Role where
  | consumer
  | producer
deriving DecidableEq

end Exchange

/-- The two loops, and what their callbacks have seen. -/
structure Exchange where
  plan : Exchange.Plan
  consumer : EventLoop ExchangeCallback LinkEnd
  producer : EventLoop ExchangeCallback LinkEnd
  /-- The number of interests that reached the producer. -/
  received : Nat := 0
  registrationRefused : Bool := false
  /-- How interests ended, in order. -/
  outcomes : List Exchange.Outcome := []
  /-- The number of interests that were pending when the consumer asked. -/
  stillPending : Option Nat := none

namespace Exchange

/-- Let one loop see what the other has done to the link and to the host. -/
def follow (l other : EventLoop ExchangeCallback LinkEnd) : EventLoop ExchangeCallback LinkEnd :=
  { l with engine := { l.engine with
      transport := { l.engine.transport with link := other.engine.transport.link }
      host := other.engine.host } }

/-- The loop of a face. -/
def loop (x : Exchange) : Role → EventLoop ExchangeCallback LinkEnd
  | .consumer => x.consumer
  | .producer => x.producer

/-- Put back the loop of a face. -/
def setLoop (x : Exchange) (role : Role) (l : EventLoop ExchangeCallback LinkEnd) : Exchange :=
  match role with
  | .consumer => { x with consumer := l, producer := follow x.producer l }
  | .producer => { x with producer := l, consumer := follow x.consumer l }

/-- The content that `answer_interests` puts into the answer to the interest of some number. -/
def answerContent (number : Nat) : Bytes := utf8 ("Data #" ++ toString number).toList

/-- Whether `answer_interests` ignores the interest of some number. -/
def Plan.ignores (p : Plan) (number : Nat) : Bool :=
  match p.dropEvery with
  | none => false
  | some k => decide (0 < k ∧ number % k = 0)

/-- Whether nothing is left to wait for, as the predicate asks that `run_fetch` installs. -/
def isFinished (x : Exchange) : Bool := decide (x.plan.awaited ≤ x.outcomes.length)

/-- What a callback of `run_fetch` or of `answer_interests` does, and what it returns. -/
def react (x : Exchange) (role : Role) (call : Call ExchangeCallback) :
    Exchange × Except CallbackError Bool :=
  match call.callback, call with
  | .delivered, .data entry data =>
    ({ x with outcomes := x.outcomes ++ [.answered entry.interest data] }, .ok false)
  | .expired, .timeout entry _ =>
    ({ x with outcomes := x.outcomes ++ [.expired entry.interest] }, .ok false)
  | .refused, .registerFailed .. => ({ x with registrationRefused := true }, .ok false)
  | .finished, .poll .. => (x, .ok x.isFinished)
  | .answer, .interest _ interest =>
    let number := x.received + 1
    let x := { x with received := number }
    if x.plan.ignores number then (x, .ok false)
    else
      let data := { name := interest.name, content := answerContent number }
      let l := x.loop role
      let (engine, result, _) := l.engine.request (.putData data)
      let verdict := match result with
        | .failed error => .error (.cause error.message)
        | _ => .ok false
      (x.setLoop role { l with engine }, verdict)
  | _, _ => (x, .ok false)

/-- Take note of the answer to the consumer's question. -/
def note (x : Exchange) (events : List (Event ExchangeCallback)) : Exchange :=
  events.foldl (fun x event => match event with
    | .answered _ (.pending count) => { x with stillPending := some count }
    | _ => x) x

/-- One step of a loop, with some order of its timers. A callback is carried out in one step. -/
def stepBy (pick : List (Timer ExchangeCallback) →
      Option (Timer ExchangeCallback × List (Timer ExchangeCallback)))
    (x : Exchange) (role : Role) : Exchange × Turn :=
  match (x.loop role).engine.current? with
  | some call =>
    let (x, verdict) := x.react role call
    let (l, events, turn) := (x.loop role).resume verdict
    ((x.setLoop role l).note events, turn)
  | none =>
    match (x.loop role).stepBy? pick with
    | none => (x, .worked)
    | some (l, events, turn) => ((x.setLoop role l).note events, turn)

/-- One step of a loop. -/
def step (x : Exchange) (role : Role) : Exchange × Turn := x.stepBy Timer.takeFirst? role

/-- Let the clock show a later time. -/
def setNow (x : Exchange) (now : Instant) : Exchange :=
  let host := { x.consumer.engine.host with now }
  x.setLoop .consumer { x.consumer with engine := { x.consumer.engine with host } }

/-- The time the clock shows. -/
def now (x : Exchange) : Instant := x.consumer.engine.host.now

/-- Wait for a time in milliseconds, if it lies ahead. -/
def sleepUntil (x : Exchange) (millis : Nat) : Exchange :=
  if x.now < .ofMillis millis then x.setNow (.ofMillis millis) else x

/-- `ThreadsafeFace::hand_off`: queue a command through a face. -/
def queue (x : Exchange) (role : Role) (command : Command ExchangeCallback) : Exchange :=
  let l := x.loop role
  match l.channel.handOff command with
  | .ok channel => x.setLoop role { l with channel }
  | .error _ => x

/-- `EntryId::next`: draw an identifier at a face. -/
def drawId (x : Exchange) (role : Role) : EntryId × Exchange :=
  let l := x.loop role
  let (id, host) := l.engine.host.drawId
  (id, x.setLoop role { l with engine := { l.engine with host } })

/-- `ThreadsafeFace::shutdown`: shut a face down. -/
def shutdown (x : Exchange) (role : Role) : Exchange :=
  let l := x.loop role
  x.setLoop role { l with channel := l.channel.shutdown }

end Exchange

end NamedData
