import NamedData.Proofs.Node.Run
import NamedData.Loop.Basic

/-!
Runs of an event loop and its faces: every interleaving of what the faces do with the steps of the
loop.

The faces of a loop share everything but their owners, so what any of them does is a move of the whole.
A face that is shut down first clears the flag and then queues the command, and others may act in
between. The loop is run, stopped and run again; while it runs it takes a turn when its node is at
rest, and may take the timers in any order. A turn looks at the queue once: what is queued while a turn
is under way counts as queued after it. Between two moves the clock, the transport and the rest of the
host may change.
-/
namespace NamedData

/-- What a loop is doing. -/
inductive Phase where
  /-- It is not being run. -/
  | parked
  | running
  /-- It is gone, or its clock has overflowed. -/
  | dead
deriving DecidableEq

/-- The phase a turn leads to. -/
def Turn.phase : Turn → Phase
  | .worked | .waiting _ => .running
  | .exited _ => .parked
  | .collapsed => .dead

/-- An event loop with its faces. -/
structure LoopSystem (κ : Type) (τ : Type) where
  loop : EventLoop κ τ
  phase : Phase := .parked
  /-- Whether a face has cleared the flag and not yet queued the command to shut down. -/
  closing : Bool := false

/-- What can happen to an event loop and its faces. -/
inductive LoopMove (κ : Type) where
  /-- A face queues a command other than to shut down. -/
  | queue (command : Command κ)
  /-- A face is shut down: it clears the flag. -/
  | lower
  /-- The face that has cleared the flag queues the command to shut down. -/
  | announce
  /-- The last face is dropped. -/
  | leave
  /-- The loop is run, for the first time or again. -/
  | begin
  /-- The loop takes a turn, with the timers in some order. -/
  | turn (pick : List (Timer κ) → Option (Timer κ × List (Timer κ)))
  /-- The node does the next bit of its unfinished work. -/
  | advance
  /-- The callback on top returns. -/
  | resume (result : Except CallbackError Bool)
  /-- A callback that was handed the node starts an operation. -/
  | perform (operation : Operation κ)
  /-- Whoever runs the loop abandons the run while the loop waits. -/
  | pause
  /-- The loop is dropped. -/
  | destroy
  /-- The world around changes. -/
  | drift

/-- An order of timers that neither forgets nor invents any. -/
structure LawfulPick {κ : Type} (pick : List (Timer κ) → Option (Timer κ × List (Timer κ))) :
    Prop where
  perm : ∀ {timers first rest}, pick timers = some (first, rest) → (first :: rest).Perm timers
  nil_of_none : ∀ {timers}, pick timers = none → timers = []

private theorem nil_of_takeFirst_none {κ : Type} {timers : List (Timer κ)}
    (none : Timer.takeFirst? timers = none) : timers = [] := by
  cases timers with
  | nil => rfl
  | cons t ts =>
    rw [Timer.takeFirst?] at none
    split at none
    · cases none
    · split at none <;> cases none

/-- The order of timers of a loop on its own is lawful. -/
theorem lawfulPick_takeFirst {κ : Type} : LawfulPick (Timer.takeFirst? (κ := κ)) where
  nil_of_none := nil_of_takeFirst_none
  perm := by
    intro timers
    induction timers with
    | nil =>
      intro first rest taken
      cases taken
    | cons t ts ih =>
      intro first rest taken
      rw [Timer.takeFirst?] at taken
      split at taken
      · next none =>
        cases taken
        rw [nil_of_takeFirst_none none]
      · next earliest others found =>
        split at taken
        · cases taken
          exact (List.Perm.swap ..).trans ((ih found).cons t)
        · cases taken
          exact .refl _

/-- The command that a loop settled on. -/
def EventLoop.Choice.command? {κ : Type} : Choice κ → Option (Command κ)
  | .command asked _ => some asked
  | _ => none

namespace LoopSystem

variable {κ τ : Type} [Transport τ]

/-- A loop with its first face. Neither has done anything yet. -/
def open? (config : FaceConfig) (format : WireFormat) (transport : τ) (host : Host) :
    Option (LoopSystem κ τ) :=
  (EventLoop.start? { config, format, scheduler := {} } transport host).map fun loop => { loop }

/-- The loop with its channel changed. -/
def withChannel (s : LoopSystem κ τ) (channel : Channel κ) : LoopSystem κ τ :=
  { s with loop := { s.loop with channel } }

/-- Queue a command, if the loop still exists. -/
def handOff (s : LoopSystem κ τ) (command : Command κ) : LoopSystem κ τ :=
  match s.loop.channel.handOff command with
  | .ok channel => s.withChannel channel
  | .error _ => s

/-- The loop with its node changed. -/
def withEngine (s : LoopSystem κ τ) (engine : Engine κ Outbox τ) : LoopSystem κ τ :=
  { s with loop := { s.loop with engine } }

/-- The loop after a turn, in the phase it leads to. -/
def settle (s : LoopSystem κ τ) (outcome : EventLoop κ τ × List (Event κ) × Turn) :
    LoopSystem κ τ :=
  { s with loop := outcome.1, phase := outcome.2.2.phase }

/-- One step of a loop, its faces, and the world around them. -/
inductive Step (s : LoopSystem κ τ) : LoopMove κ → List (Event κ) → LoopSystem κ τ → Prop where
  | queue {command : Command κ} (other : command ≠ .shutdown)
      (face : s.loop.channel.hasFace = true) : Step s (.queue command) [] (s.handOff command)
  | lower (face : s.loop.channel.hasFace = true) (active : s.loop.channel.active = true) :
      Step s .lower []
        { s.withChannel { s.loop.channel with active := false } with closing := true }
  | announce (closing : s.closing = true) :
      Step s .announce [] { s.handOff .shutdown with closing := false }
  | leave (face : s.loop.channel.hasFace = true) (closing : s.closing = false) :
      Step s .leave [] (s.withChannel s.loop.channel.dropFace)
  | begin {loop : EventLoop κ τ} (parked : s.phase = .parked) (begun : s.loop.begin? = some loop) :
      Step s .begin [] { s with loop, phase := .running }
  | overflow (parked : s.phase = .parked) (late : s.loop.begin? = none) :
      Step s .begin [] { s with phase := .dead }
  | turn {pick : List (Timer κ) → Option (Timer κ × List (Timer κ))} (running : s.phase = .running)
      (rest : s.loop.engine.frames = []) (lawful : LawfulPick pick) :
      Step s (.turn pick) (s.loop.turnBy pick).2.1 (s.settle (s.loop.turnBy pick))
  | advance {engine : Engine κ Outbox τ} {events : List (Event κ)} (running : s.phase = .running)
      (advanced : s.loop.engine.advance = some (engine, events)) :
      Step s .advance events (s.withEngine engine)
  | resume {call : Call κ} {result : Except CallbackError Bool} (running : s.phase = .running)
      (inside : s.loop.engine.current? = some call) :
      Step s (.resume result) (s.loop.resume result).2.1 (s.settle (s.loop.resume result))
  | perform {call : Call κ} {operation : Operation κ} (running : s.phase = .running)
      (inside : s.loop.engine.current? = some call) (handed : call.handsNode = true)
      (public' : ∀ call, operation ≠ .run call) :
      Step s (.perform operation) (s.loop.engine.perform operation).2.2
        (s.withEngine (s.loop.engine.perform operation).1)
  | pause (running : s.phase = .running) (rest : s.loop.engine.frames = []) :
      Step s .pause [] { s with phase := .parked }
  | destroy (idle : s.phase ≠ .running) :
      Step s .destroy [] { s.withChannel s.loop.channel.dropLoop with phase := .dead }
  | drift {transport : τ} {host : Host}
      (drifts : s.loop.engine.host.Drifts s.loop.engine.node.pending host) :
      Step s .drift [] (s.withEngine { s.loop.engine with transport, host })

/-- A stage of a run. -/
abbrev Stage (κ τ : Type) := NamedData.Stage (LoopSystem κ τ) (LoopMove κ) (Event κ)

/-- The runs of a loop and its faces. -/
abbrev Run (start : LoopSystem κ τ) (stages : List (Stage κ τ)) (s : LoopSystem κ τ) : Prop :=
  NamedData.Run (fun _ stage => stage.before.Step stage.move stage.events stage.after) start stages s

/-- A run goes on with any step that can be made. -/
theorem Run.extend {start s after : LoopSystem κ τ} {stages : List (Stage κ τ)} {move : LoopMove κ}
    {events : List (Event κ)} (run : start.Run stages s) (step : s.Step move events after) :
    start.Run (stages ++ [⟨s, move, events, after⟩]) after :=
  .step run step

/-- Shutting a face down is clearing the flag and queueing the command. -/
theorem shutdown_eq {s : LoopSystem κ τ} (face : s.loop.channel.hasFace = true)
    (active : s.loop.channel.active = true) (open' : s.closing = false) :
    ∃ mid, s.Step .lower [] mid ∧
      mid.Step .announce [] (s.withChannel s.loop.channel.shutdown) := by
  refine ⟨_, .lower face active, ?_⟩
  obtain ⟨⟨engine, ⟨queue, flag, someFace, hasLoop⟩, commandsOpen, timers, predicate, pollArmed,
    stopped⟩, phase, closing⟩ := s
  cases active
  cases open'
  have announced := Step.announce (s := ⟨⟨engine, ⟨queue, false, someFace, hasLoop⟩, commandsOpen,
    timers, predicate, pollArmed, stopped⟩, phase, true⟩) rfl
  cases hasLoop <;> exact announced

/-- A step of a running loop on its own is a step of the whole. -/
theorem step_of_stepBy? {s : LoopSystem κ τ} {after : EventLoop κ τ} {events : List (Event κ)}
    {pick : List (Timer κ) → Option (Timer κ × List (Timer κ))} {turn : Turn} (lawful : LawfulPick pick)
    (running : s.phase = .running) (stepped : s.loop.stepBy? pick = some (after, events, turn)) :
    ∃ move, s.Step move events { s with loop := after, phase := turn.phase } := by
  rw [EventLoop.stepBy?] at stepped
  split at stepped
  · next rest =>
    have taken : s.loop.turnBy pick = (after, events, turn) := Option.some.inj stepped
    have step := Step.turn running rest lawful
    rw [taken] at step
    exact ⟨_, step⟩
  · obtain ⟨⟨engine, seen⟩, advanced, same⟩ := Option.map_eq_some_iff.mp stepped
    cases same
    have step := Step.advance running advanced
    rw [Turn.phase, ← running]
    exact ⟨_, step⟩

/-! ## What a stage is -/

/-- What the loop settled on in a turn, and the loop that did. -/
def settled? (stage : Stage κ τ) : Option (EventLoop κ τ × EventLoop.Choice κ) :=
  match stage.move with
  | .turn pick => stage.before.loop.armNodeCalls?.map fun loop => (loop, loop.choose pick)
  | _ => none

/-- The command that the loop took from the queue. -/
def taken? (stage : Stage κ τ) : Option (Command κ) :=
  (settled? stage).bind fun settled => settled.2.command?

/-- The command that a face queued. -/
def queued? (stage : Stage κ τ) : Option (Command κ) :=
  match stage.move with
  | .queue command => if stage.before.loop.channel.hasLoop then some command else none
  | .announce => if stage.before.loop.channel.hasLoop then some .shutdown else none
  | _ => none

/-- The commands that were executed, in order. -/
def executed (stages : List (Stage κ τ)) : List (Command κ) := stages.filterMap taken?

/-- The commands that were queued, in order. -/
def queued (stages : List (Stage κ τ)) : List (Command κ) := stages.filterMap queued?

end LoopSystem

end NamedData
