import NamedData.Loop.Channel

/-!
The event loop.

The loop owns a node and is the only place where the node is touched. It has three sources of work:
the commands queued by faces, one-shot timers, and two services that re-arm themselves, event
processing and the poll of the stop predicate. Commands go first: a timer is only considered when no
command waits. Of the timers whose time has come the one with the earliest deadline goes first, and
of those with equal deadlines the one that was armed first; deadlines count in whole milliseconds.
-/
namespace NamedData

/-- `ScheduledTask`: what a timer of the loop leads to. -/
inductive Task (κ : Type) where
  | processEvents
  | pollPredicate
  | node (call : NodeCall κ)
  | callback (callback : κ)

/-- A one-shot timer. -/
structure Timer (κ : Type) where
  deadline : Instant
  task : Task κ

namespace Timer

/-- Whether one timer goes before another that was armed earlier. -/
def before {κ : Type} (t earlier : Timer κ) : Bool :=
  decide (t.deadline.ceilMillis < earlier.deadline.ceilMillis)

/-- The timer that goes first, with the others in their order. -/
def takeFirst? {κ : Type} : List (Timer κ) → Option (Timer κ × List (Timer κ))
  | [] => none
  | t :: ts =>
    match takeFirst? ts with
    | none => some (t, [])
    | some (first, rest) =>
      if before first t then some (first, t :: rest) else some (t, ts)

end Timer

/-- Why a run of the loop ended. -/
inductive LoopExit where
  /-- The stop predicate held. The loop can be run again. -/
  | stopped
  /-- The face was shut down. -/
  | shutdown
  /-- Every face is gone and nothing is left to run. -/
  | idle
deriving DecidableEq

/-- What a turn of the loop came to. -/
inductive Turn where
  /-- Some work was done; there may be more. -/
  | worked
  /-- Nothing can be done before this time, in milliseconds; or before a face queues a command. -/
  | waiting (wake : Option Nat)
  | exited (exit : LoopExit)
  /-- A deadline lay beyond the clock's range. -/
  | collapsed
deriving DecidableEq

/-- An event loop with its node. -/
structure EventLoop (κ : Type) (τ : Type) where
  engine : Engine κ Outbox τ
  channel : Channel κ := {}
  /-- Whether the end of the queue has not been seen. -/
  commandsOpen : Bool := true
  /-- The armed timers in the order they were armed. -/
  timers : List (Timer κ) := []
  /-- The stop predicate, and how often it has been polled. -/
  predicate : Option (κ × Nat) := none
  pollArmed : Bool := false
  /-- Whether the predicate has stopped the loop before. -/
  stopped : Bool := false

namespace EventLoop

variable {κ τ : Type} [Transport τ]

/-- The current time in whole milliseconds. -/
def nowMillis (l : EventLoop κ τ) : Nat := l.engine.host.now.nanos / 1000000

/-- `EventLoop::schedule`: arm a timer; `none` if the clock never shows its deadline. -/
def arm? (l : EventLoop κ τ) (delay : Duration) (task : Task κ) : Option (EventLoop κ τ) :=
  (l.engine.host.now.add? delay).map fun deadline =>
    { l with timers := l.timers ++ [{ deadline, task }] }

/-- `EventLoop::new`: a loop that has not run yet. Event processing is armed at once. -/
def start? (node : Node κ Outbox) (transport : τ) (host : Host) : Option (EventLoop κ τ) :=
  arm? { engine := { node, transport, host } } .zero .processEvents

/-- The beginning of `EventLoop::run`. The first poll of the stop predicate is armed, at once or, after
a run that the predicate stopped, a full interval from now. -/
def begin? (l : EventLoop κ τ) : Option (EventLoop κ τ) :=
  if !l.pollArmed && l.channel.active then
    let delay := if l.stopped then l.engine.node.config.stopWhenInterval else .zero
    (l.arm? delay .pollPredicate).map fun l => { l with pollArmed := true }
  else some l

/-- Arm a timer for each of some calls. -/
def armCalls? (l : EventLoop κ τ) : List (Duration × NodeCall κ) → Option (EventLoop κ τ)
  | [] => some l
  | (delay, call) :: calls =>
    match l.arm? delay (.node call) with
    | none => none
    | some l => l.armCalls? calls

/-- `EventLoop::arm_node_timers`: arm a timer for every call the node has armed since the last turn. -/
def armNodeCalls? (l : EventLoop κ τ) : Option (EventLoop κ τ) :=
  armCalls?
    { l with engine := { l.engine with node := { l.engine.node with scheduler := {} } } }
    l.engine.node.scheduler.calls

/-- The log record of a request that failed, as `EventLoop::handle_command` writes it. -/
def failure (request : Request κ) (error : FaceError) : Option Notice :=
  match request with
  | .express id .. => some (.expressFailed id error)
  | .putData data => some (.putFailed data.name error)
  | .send element => some (.sendFailed element.length error)
  | _ => none

/-- `EventLoop::handle_command`: execute a command that has been taken from the queue. -/
def execute (l : EventLoop κ τ) : Command κ → EventLoop κ τ × List (Event κ) × Turn
  | .request request =>
    let (engine, result, events) := l.engine.request request
    let l := { l with engine }
    match result with
    | .done => (l, events, .worked)
    | .failed error => (l, events ++ ((failure request error).map .logged).toList, .worked)
    | .collapsed => (l, events, .collapsed)
  | .stopWhen predicate => ({ l with predicate := predicate.map (·, 0) }, [], .worked)
  | .callLater delay callback =>
    match l.arm? delay (.callback callback) with
    | none => (l, [], .collapsed)
    | some l => (l, [], .worked)
  | .countPending ticket =>
    (l, [.answered ticket (.pending l.engine.node.pending.size)], .worked)
  | .flush ticket => (l, [.answered ticket .flushed], .worked)
  | .shutdown =>
    let (engine, events) := l.engine.shutdown
    ({ l with engine, channel := { l.channel with active := false } }, events, .exited .shutdown)

/-- The end of a poll in `EventLoop::run_task`: arm the next one. -/
def rearmPoll (l : EventLoop κ τ) : EventLoop κ τ × List (Event κ) × Turn :=
  match l.arm? l.engine.node.config.stopWhenInterval .pollPredicate with
  | none => (l, [], .collapsed)
  | some l => ({ l with pollArmed := true }, [], .worked)

/-- `EventLoop::run_task`: run the task of a timer that has been taken off. The services do nothing once
a face has been shut down.

Event processing arms its next tick before the node works through the elements that have come in, where
`run_task` does so behind this work. The timers are the same in either order, but for a deadline that
the work makes later by the time it takes (`LoopSystem.next_tick_differs_in_its_deadline`); so a
deadline beyond the clock's range is noticed before the work. A poll that asks its predicate goes on in
`resume`. -/
def runTask (l : EventLoop κ τ) : Task κ → EventLoop κ τ × List (Event κ) × Turn
  | .processEvents =>
    if l.channel.active then
      match l.arm? l.engine.node.config.processEventsInterval .processEvents with
      | none => (l, [], .collapsed)
      | some l => ({ l with engine := l.engine.push .reading }, [], .worked)
    else (l, [], .worked)
  | .pollPredicate =>
    let l := { l with pollArmed := false }
    if l.channel.active then
      match l.predicate with
      | none => l.rearmPoll
      | some (predicate, index) =>
        let (engine, events) := l.engine.invoke (.poll predicate index)
        ({ l with engine, predicate := some (predicate, index + 1) }, events, .worked)
    else (l, [], .worked)
  | .node call =>
    let (engine, events) := l.engine.run call
    ({ l with engine }, events, .worked)
  | .callback callback =>
    let (engine, events) := l.engine.invoke (.faceDelay callback)
    ({ l with engine }, events, .worked)

/-- `LoopEvent`: what a turn of the loop settles on. -/
inductive Choice (κ : Type) where
  /-- A command is executed; those behind it stay queued. -/
  | command (command : Command κ) (queue : List (Command κ))
  /-- The queue has come to its end. -/
  | close
  /-- A timer whose time has come is taken off. -/
  | timer (task : Task κ) (timers : List (Timer κ))
  /-- Nothing can be done before this time. -/
  | wait (wake : Option Nat)
  | idle

/-- The selection in `EventLoop::run`: settle on what to do. Which of several timers comes up first is
for `pick` to say. -/
def choose (pick : List (Timer κ) → Option (Timer κ × List (Timer κ))) (l : EventLoop κ τ) :
    Choice κ :=
  match l.commandsOpen, l.channel.queue with
  | true, command :: queue => .command command queue
  | commandsOpen, _ =>
    if commandsOpen && !l.channel.hasFace then .close
    else
      match pick l.timers with
      | none => if commandsOpen then .wait none else .idle
      | some (first, timers) =>
        if first.deadline.ceilMillis ≤ l.nowMillis then .timer first.task timers
        else .wait (some first.deadline.ceilMillis)

/-- Do what a turn has settled on. -/
def carryOut (l : EventLoop κ τ) : Choice κ → EventLoop κ τ × List (Event κ) × Turn
  | .command command queue => execute { l with channel := { l.channel with queue } } command
  | .close => ({ l with commandsOpen := false }, [], .worked)
  | .timer task timers => runTask { l with timers } task
  | .wait wake => (l, [], .waiting wake)
  | .idle => (l, [], .exited .idle)

/-- One round of `EventLoop::run` whose node is at rest, with some order of the timers. -/
def turnBy (pick : List (Timer κ) → Option (Timer κ × List (Timer κ))) (l : EventLoop κ τ) :
    EventLoop κ τ × List (Event κ) × Turn :=
  match l.armNodeCalls? with
  | none => (l, [], .collapsed)
  | some l => l.carryOut (l.choose pick)

/-- One step of a running loop, with some order of the timers: the next bit of unfinished work of the
node, or a turn if the node is at rest. There is no step while a callback runs. -/
def stepBy? (pick : List (Timer κ) → Option (Timer κ × List (Timer κ))) (l : EventLoop κ τ) :
    Option (EventLoop κ τ × List (Event κ) × Turn) :=
  match l.engine.frames with
  | [] => some (l.turnBy pick)
  | _ => l.engine.advance.map fun (engine, events) => ({ l with engine }, events, .worked)

/-- One step of a running loop. -/
def step? (l : EventLoop κ τ) : Option (EventLoop κ τ × List (Event κ) × Turn) :=
  l.stepBy? Timer.takeFirst?

/-- End the callback on top. A poll that yields `true` ends the run; one that fails is logged and, like
one that yields `false`, repeated later, as `EventLoop::run_task` has it. -/
def resume (l : EventLoop κ τ) (result : Except CallbackError Bool) :
    EventLoop κ τ × List (Event κ) × Turn :=
  match l.engine.current? with
  | some (.poll ..) =>
    let l := { l with engine := { l.engine with frames := l.engine.frames.tail } }
    match result with
    | .ok true => ({ l with stopped := true }, [], .exited .stopped)
    | .ok false => l.rearmPoll
    | .error error =>
      let (l, events, turn) := l.rearmPoll
      (l, .logged (.predicateFailed error) :: events, turn)
  | _ =>
    let (engine, events) := l.engine.resume (result.map fun _ => ())
    ({ l with engine }, events, .worked)

end EventLoop

end NamedData
