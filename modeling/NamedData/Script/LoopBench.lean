import NamedData.Script.Basic

/-!
Playing scripts on a face with its event loop.

The loop's node holds the left end of a link and the script the right end. While the loop runs and can
do nothing, time jumps to the next timer, or to the end of the run's time limit.
-/
namespace NamedData.Script

/-- What a queued question asks. -/
inductive Question where
  | count
  | flush
deriving DecidableEq

/-- The answer to a queued question, or the news that it was dropped unanswered. -/
structure Settlement where
  ticket : Nat
  question : Question
  answer : Option Answer
deriving DecidableEq

/-- A note with the time, in milliseconds, at which it was taken. -/
abbrev TimedNote := Nat × Note

/-- A face and its loop, and what surrounds them. -/
structure LoopBench where
  loop : EventLoop Reaction Port
  /-- Whether the script still holds the far end of the link. -/
  peer : Bool := true
  /-- The number of tickets given out. -/
  tickets : Nat := 0
  /-- The questions answered during the step being played. -/
  settlements : List Settlement := []
  /-- The callbacks being played, innermost first. -/
  activations : List Activation := []
  /-- Whether some operation did not return. -/
  collapsed : Bool := false

namespace LoopBench

/-- What an observer sees of some events. Answers are kept for the end of the step, and log records are
seen from warnings on. -/
def observeAll (b : LoopBench) (events : List (Event Reaction)) : LoopBench × List TimedNote :=
  let settled := events.filterMap fun
    | .answered (some ticket) answer =>
      let question := match answer with
        | .pending _ => Question.count
        | .flushed => .flush
      some { ticket, question, answer := some answer : Settlement }
    | _ => none
  let notes := events.filterMap fun
    | .answered .. | .sent _ | .armed .. => none
    | .logged notice =>
      if notice.level = .debug then none else some (b.loop.nowMillis, .event (.logged notice))
    | event => some (b.loop.nowMillis, Note.event event)
  ({ b with settlements := b.settlements ++ settled }, notes)

/-- Queue a command through the face, with what the step answers if that works. -/
def handOff (b : LoopBench) (command : Command Reaction) (reply : Reply) : LoopBench × Reply :=
  match b.loop.channel.handOff command with
  | .ok channel => ({ b with loop := { b.loop with channel } }, reply)
  | .error error => (b, .faceError error)

/-- Draw an identifier and queue a command with it. -/
def handOffNew (b : LoopBench) (command : EntryId → Command Reaction) : LoopBench × Reply :=
  let (id, host) := b.loop.engine.host.drawId
  let b := { b with loop := { b.loop with engine := { b.loop.engine with host } } }
  b.handOff (command id) (.id id)

/-- Queue a question. A forgotten question gets no ticket. -/
def ask (b : LoopBench) (forget : Bool) (command : Option Nat → Command Reaction) :
    LoopBench × Reply :=
  if forget then ((b.handOff (command none) .nothing).1, .nothing)
  else
    let ticket := b.tickets
    let b := { b with tickets := ticket + 1 }
    match b.loop.channel.handOff (command (some ticket)) with
    | .ok channel => ({ b with loop := { b.loop with channel } }, .ticket ticket none)
    | .error error => (b, .ticket ticket (some error))

/-- A step through the face. -/
def faceAct (b : LoopBench) (act : Act) : LoopBench × Reply :=
  if b.loop.channel.hasFace then
    match act with
    | .express _ interest onData onTimeout =>
      b.handOffNew fun id => .request (.express id interest onData onTimeout)
    | .removePending id => b.handOff (.request (.removePending id)) .nothing
    | .register _ root onInterest onFailed options =>
      b.handOffNew fun id => .request (.register id root onInterest onFailed options)
    | .removeRegistered id => b.handOff (.request (.removeRegistered id)) .nothing
    | .setFilter _ root onInterest =>
      b.handOffNew fun id => .request (.setFilter id ⟨root⟩ onInterest)
    | .unsetFilter id => b.handOff (.request (.unsetFilter id)) .nothing
    | .putData data => b.handOff (.request (.putData (data.resolve none))) .nothing
    | .send element => b.handOff (.request (.send element)) .nothing
    | .callLater delay callback => b.handOff (.callLater delay callback) .nothing
    | .stopWhen predicate => b.handOff (.stopWhen (some predicate)) .nothing
    | .clearStopWhen => b.handOff (.stopWhen none) .nothing
    | .count forget => b.ask forget .countPending
    | .flush forget => b.ask forget .flush
    | .shutdown =>
      ({ b with loop := { b.loop with channel := b.loop.channel.shutdown } }, .nothing)
    | .isActive => (b, .flag b.loop.channel.active)
    | .misnamed error => (b, .nameError error)
    | _ => (b, .unknown)
  else (b, .noFace)

/-- A step that needs neither face nor node. -/
def commonAct? (b : LoopBench) (act : Act) : Option (LoopBench × Reply) :=
  let engine := b.loop.engine
  match act with
  | .setFaults _ faults =>
    let engine := { engine with transport := engine.transport.setFaults faults }
    some ({ b with loop := { b.loop with engine } }, .nothing)
  | _ =>
    (peerAct? act b.peer engine.transport).map fun (peer, transport, reply) =>
      ({ b with peer, loop := { b.loop with engine := { engine with transport } } }, reply)

/-- A step of a callback. -/
def innerAct (b : LoopBench) (a : Activation) : Step → LoopBench × Reply × List TimedNote
  | .mk _ viaFace act =>
    match b.commonAct? act with
    | some (b, reply) => (b, reply, [])
    | none =>
      if a.handsNode && !viaFace then
        let (engine, reply, events) := nodeAct act a.incoming b.loop.engine
        let (b, notes) := observeAll { b with loop := { b.loop with engine } } events
        (b, reply, notes)
      else
        let (b, reply) := b.faceAct act
        (b, reply, [])

/-- Begin or continue to play the callback on top. -/
def stepInside (b : LoopBench) (call : Call Reaction) : LoopBench × List TimedNote × Turn :=
  let inside := b.loop.engine.frames.countP fun
    | .inside _ => true
    | _ => false
  match b.activations with
  | a :: outer =>
    if b.activations.length < inside then
      ({ b with activations := .ofCall call :: b.activations }, [], .worked)
    else
      match a.report, a.steps with
      | some reply, _ =>
        ({ b with activations := a.settled :: outer },
          [(b.loop.nowMillis, .acted a.done reply)], .worked)
      | none, step :: rest =>
        let (b, reply, notes) := b.innerAct a step
        let turn := match reply with
          | .collapsed => Turn.collapsed
          | _ => .worked
        ({ b with activations := a.started rest reply :: outer }, notes, turn)
      | none, [] =>
        let (loop, events, turn) := b.loop.resume a.result
        let (b, notes) := observeAll { b with loop, activations := outer } events
        (b, notes, turn)
  | [] => ({ b with activations := [.ofCall call] }, [], .worked)

/-- Do the next bit of a run. -/
def stepRun (b : LoopBench) : LoopBench × List TimedNote × Turn :=
  match b.loop.engine.current? with
  | some call => b.stepInside call
  | none =>
    match b.loop.step? with
    | none => (b, [], .worked)
    | some (loop, events, turn) =>
      let (b, notes) := observeAll { b with loop } events
      (b, notes, turn)

/-- Move the clock to a time in milliseconds. -/
def setMillis (b : LoopBench) (millis : Nat) : LoopBench :=
  let host := { b.loop.engine.host with now := .ofMillis millis }
  { b with loop := { b.loop with engine := { b.loop.engine with host } } }

/-- Run the loop until it ends or its time is up. -/
def runUntil : Nat → Nat → LoopBench → List TimedNote → LoopBench × Reply × List TimedNote
  | 0, _, b, notes => (b, .limit, notes)
  | fuel + 1, deadline, b, notes =>
    let (b, more, turn) := b.stepRun
    let notes := more.reverse ++ notes
    match turn with
    | .worked => runUntil fuel deadline b notes
    | .exited exit => (b, .exited exit, notes)
    | .collapsed => ({ b with collapsed := true }, .collapsed, notes)
    | .waiting wake =>
      match wake with
      | some wake =>
        if wake ≤ deadline then runUntil fuel deadline (b.setMillis wake) notes
        else (b.setMillis deadline, .limit, notes)
      | none => (b.setMillis deadline, .limit, notes)

/-- The questions a queue holds that somebody listens to. -/
def unanswered (queue : List (Command Reaction)) : List Settlement :=
  queue.filterMap fun
    | .countPending (some ticket) => some { ticket, question := .count, answer := none }
    | .flush (some ticket) => some { ticket, question := .flush, answer := none }
    | _ => none

/-- A step from outside any callback. -/
def outerAct (fuel : Nat) (b : LoopBench) : Step → LoopBench × Reply × List TimedNote
  | .mk _ _ act =>
    match b.commonAct? act with
    | some (b, reply) => (b, reply, [])
    | none =>
      match act with
      | .run limit =>
        if b.loop.channel.hasLoop then
          match b.loop.begin? with
          | none => ({ b with collapsed := true }, .collapsed, [])
          | some loop => runUntil fuel (b.loop.nowMillis + limit) { b with loop } []
        else (b, .noLoop, [])
      | .advance millis => (b.setMillis (b.loop.nowMillis + millis), .nothing, [])
      | .dropFace =>
        ({ b with loop := { b.loop with channel := b.loop.channel.dropFace } }, .nothing, [])
      | .dropLoop =>
        let transport := b.loop.engine.transport.updateLink fun link => link.drop .left
        ({ b with
            settlements := b.settlements ++ unanswered b.loop.channel.queue
            loop := { b.loop with
              channel := b.loop.channel.dropLoop
              engine := { b.loop.engine with transport } } }, .nothing, [])
      | _ =>
        let (b, reply) := b.faceAct act
        (b, reply, [])

/-- Play one step to its end: what came of it, what was noted meanwhile, and which questions were
answered. -/
def play (fuel : Nat) (b : LoopBench) (step : Step) :
    LoopBench × Reply × List TimedNote × List Settlement :=
  let (b, reply, notes) := b.outerAct fuel step
  ({ b with settlements := [] }, reply, notes.reverse, b.settlements)

/-- Whether the face is active, as long as it exists. -/
def active? (b : LoopBench) : Option Bool :=
  if b.loop.channel.hasFace then some b.loop.channel.active else none

end LoopBench

end NamedData.Script
