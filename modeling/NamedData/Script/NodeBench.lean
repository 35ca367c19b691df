import NamedData.Script.Basic

/-!
Playing scripts on one or two nodes.

The nodes share a link, a clock and a counter of identifiers. Node 0 holds the left end; the right end
belongs to node 1, or, if there is only one node, to the script itself. Only one node works at a time.
-/
namespace NamedData.Script

/-- The node that is not at work, with its transport. What its transport says of the link is out of
date. -/
structure Spare (σ : Type → Type) where
  node : Node Reaction σ
  port : Port

/-- One or two nodes, and what surrounds them. -/
structure NodeBench (σ : Type → Type) where
  /-- The node at work, with the link and the clock. -/
  engine : Engine Reaction σ Port
  /-- Which node is at work. -/
  current : Nat := 0
  spare : Option (Spare σ) := none
  /-- Whether the script holds the far end of the link. -/
  peer : Bool
  /-- Whether armed calls run only when the script says so. -/
  manual : Bool := false
  /-- The calls armed so far, for the script to run once each. -/
  armed : List (Option (NodeCall Reaction)) := []
  /-- The callbacks being played, innermost first. -/
  activations : List Activation := []

namespace NodeBench

variable {σ : Type → Type} [Scheduler σ]

/-- Let a node be the one at work. -/
def attend (b : NodeBench σ) (node : Nat) : NodeBench σ :=
  if node = b.current then b
  else
    match b.spare with
    | none => b
    | some spare =>
      { b with
        current := node
        spare := some { node := b.engine.node, port := b.engine.transport }
        engine := { b.engine with
          node := spare.node
          transport := match b.engine.transport.link? with
            | some link => spare.port.updateLink fun _ => link
            | none => spare.port } }

/-- What an observer sees of an event, and the calls it arms. A link tells of registrations and of
its closing, a sink of what is sent to it. Log records are seen from warnings on. -/
def observe (b : NodeBench σ) (event : Event Reaction) : NodeBench σ × List Note :=
  match event, b.engine.transport with
  | .armed delay call, _ =>
    if b.manual then
      ({ b with armed := b.armed ++ [some call] }, [.armed b.armed.length delay])
    else (b, [])
  | .sent _, .wired _ => (b, [])
  | .registering .., .sink | .closed, .sink => (b, [])
  | .logged notice, _ => if notice.level = .debug then (b, []) else (b, [.event event])
  | event, _ => (b, [.event event])

/-- Observe several events. -/
def observeAll (b : NodeBench σ) : List (Event Reaction) → NodeBench σ × List Note
  | [] => (b, [])
  | event :: events =>
    let (b, notes) := b.observe event
    let (b, more) := b.observeAll events
    (b, notes ++ more)

/-- A step that needs no node. -/
def commonAct? (b : NodeBench σ) (act : Act) : Option (NodeBench σ × Reply) :=
  match act with
  | .setFaults node faults =>
    let b :=
      if node = b.current then
        { b with engine := { b.engine with transport := b.engine.transport.setFaults faults } }
      else { b with spare := b.spare.map fun s => { s with port := s.port.setFaults faults } }
    some (b, .nothing)
  | _ =>
    (peerAct? act b.peer b.engine.transport).map fun (peer, transport, reply) =>
      ({ b with peer, engine := { b.engine with transport } }, reply)

/-- A step of a callback. -/
def innerAct (b : NodeBench σ) (a : Activation) : Step → NodeBench σ × Reply × List Note
  | .mk _ viaFace act =>
    match b.commonAct? act with
    | some (b, reply) => (b, reply, [])
    | none =>
      if a.handsNode && !viaFace then
        let (engine, reply, events) := nodeAct act a.incoming b.engine
        let (b, notes) := observeAll { b with engine } events
        (b, reply, notes)
      else (b, .noFace, [])

/-- A step from outside any callback. -/
def outerAct (b : NodeBench σ) : Step → NodeBench σ × Reply × List Note
  | .mk node _ act =>
    match b.commonAct? act with
    | some (b, reply) => (b, reply, [])
    | none =>
      let b := b.attend node
      match act with
      | .advance millis =>
        let now : Instant := ⟨b.engine.host.now.nanos + millis * 1000000⟩
        ({ b with engine := { b.engine with host := { b.engine.host with now } } }, .nothing, [])
      | .fire index =>
        match b.armed[index]?.join with
        | none => (b, .notArmed, [])
        | some call =>
          let (engine, events) := b.engine.run call
          let (b, notes) := observeAll { b with engine, armed := b.armed.set index none } events
          (b, .nothing, notes)
      | _ =>
        let (engine, reply, events) := nodeAct act none b.engine
        let (b, notes) := observeAll { b with engine } events
        (b, reply, notes)

/-- Do the next bit of what a step has led to. There is none when everything is worked off. -/
def step? (b : NodeBench σ) : Option (NodeBench σ × List Note) :=
  match b.engine.current? with
  | none =>
    b.engine.advance.map fun (engine, events) => observeAll { b with engine } events
  | some call =>
    let inside := b.engine.frames.countP fun
      | .inside _ => true
      | _ => false
    match b.activations with
    | a :: outer =>
      if b.activations.length < inside then
        some ({ b with activations := .ofCall call :: b.activations }, [])
      else
        match a.report, a.steps with
        | some reply, _ => some ({ b with activations := a.settled :: outer }, [.acted a.done reply])
        | none, step :: rest =>
          let (b, reply, notes) := b.innerAct a step
          some ({ b with activations := a.started rest reply :: outer }, notes)
        | none, [] =>
          let (engine, events) := b.engine.resume (a.result.map fun _ => ())
          some (observeAll { b with engine, activations := outer } events)
    | [] => some ({ b with activations := [.ofCall call] }, [])

/-- Work off what a step has led to. -/
def settle : Nat → NodeBench σ → List Note → NodeBench σ × List Note
  | 0, b, notes => (b, notes)
  | fuel + 1, b, notes =>
    match b.step? with
    | none => (b, notes)
    | some (b, more) => settle fuel b (more.reverse ++ notes)

/-- Whether the step under way in some callback did not return. -/
def hasCollapsed (b : NodeBench σ) : Bool :=
  b.activations.any fun a => match a.report with
    | some .collapsed => true
    | _ => false

/-- Play one step to its end: what came of it, and what was noted meanwhile. A step in which some
operation did not return does not return either. -/
def play (fuel : Nat) (b : NodeBench σ) (step : Step) : NodeBench σ × Reply × List Note :=
  let (b, reply, notes) := b.outerAct step
  let (b, notes) := settle fuel b notes.reverse
  let reply := if b.hasCollapsed then .collapsed else reply
  ({ b with activations := [] }, reply, notes.reverse)

/-- The sizes of the tables of a node. -/
def nodeSizes (n : Node Reaction σ) : Nat × Nat × Nat :=
  (n.pending.size, n.filters.size, n.registrations.size)

/-- The sizes of the tables of every node, in order. -/
def sizes (b : NodeBench σ) : List (Nat × Nat × Nat) :=
  let here := nodeSizes b.engine.node
  match b.spare with
  | none => [here]
  | some spare =>
    let there := nodeSizes spare.node
    if b.current = 0 then [here, there] else [there, here]

end NodeBench

end NamedData.Script
