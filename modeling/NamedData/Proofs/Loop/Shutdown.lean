import NamedData.Proofs.Loop.Services
import NamedData.Proofs.Node.Closing

/-!
Shutting down the faces of a loop.

Any number of faces may be shut down at the same time. Each such call first clears the flag they share
and learns whether it was up; only a call that has found it up queues the command, and anything may
happen in between (`Crowd.Step`). The flag being up, a call that has yet to queue the command and a
queued command to shut down are worth one each, and together they are never worth more than one
(`LoopSystem.Run.worth`).
-/
namespace NamedData

/-- Whether a command is to shut down. -/
def Command.shuts {κ : Type} : Command κ → Bool
  | .shutdown => true
  | _ => false

/-- Whether a callback that was handed the node shuts it down. -/
def LoopMove.closes {κ : Type} : LoopMove κ → Bool
  | .perform .shutdown => true
  | _ => false

/-! ## What the functions of a loop do to the flag -/

namespace EventLoop

variable {κ τ : Type} {l after : EventLoop κ τ}

theorem channel_of_arm? {delay : Duration} {task : Task κ} (timed : l.arm? delay task = some after) :
    after.channel = l.channel := by
  obtain ⟨deadline, rfl⟩ := eq_of_arm? timed
  rfl

theorem channel_of_armNodeCalls? (armed : l.armNodeCalls? = some after) :
    after.channel = l.channel := by
  obtain ⟨timers, rfl, -⟩ := eq_of_armNodeCalls? armed
  rfl

theorem channel_of_begin? (begun : l.begin? = some after) : after.channel = l.channel := by
  rw [begin?] at begun
  split at begun
  · obtain ⟨mid, timed, rfl⟩ := Option.map_eq_some_iff.mp begun
    have same := channel_of_arm? timed
    exact same
  · cases begun
    rfl

theorem rearmPoll_channel (l : EventLoop κ τ) : l.rearmPoll.1.channel = l.channel := by
  rw [rearmPoll]
  cases timed : l.arm? l.engine.node.config.stopWhenInterval .pollPredicate with
  | none => rfl
  | some mid =>
    have same := channel_of_arm? timed
    exact same

theorem resume_channel (l : EventLoop κ τ) (result : Except CallbackError Bool) :
    (l.resume result).1.channel = l.channel := by
  rw [resume.eq_def]
  split
  · dsimp only
    split
    · rfl
    · exact rearmPoll_channel _
    · exact rearmPoll_channel _
  · rfl

theorem runTask_channel (l : EventLoop κ τ) (task : Task κ) :
    (l.runTask task).1.channel = l.channel := by
  cases task with
  | processEvents =>
    simp only [runTask]
    split
    · split
      · rfl
      · next timed =>
        have same := channel_of_arm? timed
        exact same
    · rfl
  | pollPredicate =>
    simp only [runTask]
    split
    · split
      · exact rearmPoll_channel _
      · rfl
    · rfl
  | node | callback => rfl

variable [Transport τ]

/-- No command raises the flag. -/
theorem execute_lowered (down : l.channel.active = false) (command : Command κ) :
    (l.execute command).1.channel.active = false := by
  cases command with
  | request request =>
    simp only [execute]
    split <;> exact down
  | callLater delay callback =>
    simp only [execute]
    split
    · exact down
    · next timed =>
      rw [channel_of_arm? timed]
      exact down
  | shutdown => rfl
  | stopWhen | countPending | flush => exact down

/-- No turn raises the flag. -/
theorem turnBy_lowered (down : l.channel.active = false)
    (pick : List (Timer κ) → Option (Timer κ × List (Timer κ))) :
    (l.turnBy pick).1.channel.active = false := by
  cases armed : l.armNodeCalls? with
  | none =>
    rw [turnBy_of_none armed]
    exact down
  | some loop =>
    rw [← channel_of_armNodeCalls? armed] at down
    rw [turnBy_of_some armed]
    cases loop.choose pick with
    | command command queue =>
      exact execute_lowered (l := { loop with channel := { loop.channel with queue } }) down command
    | timer task timers =>
      rw [carryOut, runTask_channel]
      exact down
    | close | wait | idle => exact down

omit [Transport τ] in
/-- A timer of a service leads to nothing when the flag is down, and is not armed again. -/
theorem runTask_of_lowered (down : l.channel.active = false) {task : Task κ}
    (service : task.service? ≠ none) :
    (l.runTask task).1.engine = l.engine ∧ (l.runTask task).1.timers = l.timers ∧
      (l.runTask task).2.1 = [] := by
  cases task with
  | processEvents | pollPredicate => simp [runTask, down]
  | node | callback => exact absurd rfl service

omit [Transport τ] in
/-- A run that begins when the flag is down arms nothing. -/
theorem begin?_of_lowered (down : l.channel.active = false) : l.begin? = some l := by
  simp [begin?, down]

omit [Transport τ] in
/-- A callback that returns ends a run only if it is the stop predicate, and yields `true`. -/
theorem resume_exit_iff (l : EventLoop κ τ) (result : Except CallbackError Bool) (exit : LoopExit) :
    (l.resume result).2.2.exit? = some exit ↔ exit = .stopped ∧ result = .ok true ∧
      ∃ predicate index, l.engine.current? = some (.poll predicate index) := by
  have rearmed : ∀ l : EventLoop κ τ, l.rearmPoll.2.2.exit? = none := by
    intro l
    rw [rearmPoll]
    split <;> rfl
  rw [resume.eq_def]
  split
  · next predicate index inside =>
    rcases result with error | (_ | _)
    · simp [rearmed]
    · simp [rearmed]
    · simp [Turn.exit?, inside, eq_comm]
  · next other =>
    simp only [Turn.exit?, reduceCtorEq, false_iff]
    rintro ⟨-, -, predicate, index, asked⟩
    exact other predicate index asked

end EventLoop

namespace LoopSystem

open EventLoop (Tidy)

variable {κ τ : Type} {s start after : LoopSystem κ τ}
variable {stage : Stage κ τ} {stages past future : List (Stage κ τ)}

/-! ## One command to shut down -/

/-- A list that holds at most one element of a kind is split by it in one way. -/
theorem split_unique {α : Type} {kind : α → Bool} {only : α}
    {before behind earlier later : List α} (this : kind only = true)
    (one : (before ++ only :: behind).countP kind ≤ 1)
    (same : before ++ only :: behind = earlier ++ only :: later) : before = earlier := by
  rcases List.append_eq_append_iff.mp same with ⟨between, rfl, rest⟩ | ⟨between, rfl, rest⟩
  · cases between with
    | nil => simp
    | cons first between =>
      rw [rest] at one
      obtain ⟨rfl, -⟩ := List.cons.inj rest
      simp [this] at one
      omega
  · cases between with
    | nil => simp
    | cons first between =>
      obtain ⟨rfl, -⟩ := List.cons.inj rest
      simp [this] at one
      omega

/-- What is left of the one command to shut down: the flag is up, or a face has cleared it and has yet
to queue the command. -/
def worth (s : LoopSystem κ τ) : Nat := s.closing.toNat + s.loop.channel.active.toNat

theorem handOff_active (s : LoopSystem κ τ) (command : Command κ) :
    (s.handOff command).loop.channel.active = s.loop.channel.active := by
  rw [handOff, Channel.handOff]
  split
  · next handed =>
    split at handed
    · cases handed
      rfl
    · cases handed
  · rfl

/-- The command to shut down that a stage queues, if it does. -/
theorem queued?_shuts (other : stage.move ≠ .announce)
    (command : stage.move ≠ .queue .shutdown) :
    (queued? stage).toList.countP Command.shuts = 0 := by
  rw [queued?]
  split
  · next command move =>
    split
    · cases command with
      | shutdown => exact absurd move ‹stage.move ≠ .queue .shutdown›
      | request | stopWhen | callLater | countPending | flush => rfl
    · rfl
  · next move => exact absurd move other
  · rfl

variable [Transport τ]

/-- The flag is never raised. -/
theorem Step.lowered {move : LoopMove κ} {events : List (Event κ)} (step : s.Step move events after)
    (down : s.loop.channel.active = false) : after.loop.channel.active = false := by
  cases step with
  | queue | announce => exact (handOff_active s _).trans down
  | lower => rfl
  | begin parked begun =>
    rw [EventLoop.begin?_of_lowered down] at begun
    cases begun
    exact down
  | turn => exact EventLoop.turnBy_lowered down _
  | resume =>
    rw [settle, EventLoop.resume_channel]
    exact down
  | leave | overflow | advance | perform | pause | destroy | drift => exact down

/-- Only a face that is being shut down is in the middle of it. -/
theorem Step.closing {move : LoopMove κ} {events : List (Event κ)} (step : s.Step move events after)
    (lower : move ≠ .lower) (announce : move ≠ .announce) : after.closing = s.closing := by
  cases step with
  | lower => exact absurd rfl lower
  | announce => exact absurd rfl announce
  | queue =>
    obtain ⟨channel, same⟩ := handOff_eq s _
    rw [same]
    rfl
  | leave | begin | overflow | turn | advance | resume | perform | pause | destroy | drift => rfl

/-- A step that queues a command to shut down uses up what was left of it. -/
theorem Step.worth (step : stage.before.Step stage.move stage.events stage.after) :
    (queued? stage).toList.countP Command.shuts + stage.after.worth ≤ stage.before.worth := by
  by_cases lower : stage.move = .lower
  · obtain ⟨before, move, events, after⟩ := stage
    cases lower
    change before.Step .lower events after at step
    cases step with
    | lower face active => simp [queued?, LoopSystem.worth, withChannel, active]
  by_cases announce : stage.move = .announce
  · obtain ⟨before, move, events, after⟩ := stage
    cases announce
    change before.Step .announce events after at step
    cases step with
    | announce closing =>
      have active := handOff_active before .shutdown
      simp only [queued?, LoopSystem.worth, closing]
      rw [active]
      split <;> simp [Command.shuts]
  have silent : (queued? stage).toList.countP Command.shuts = 0 := by
    apply queued?_shuts announce
    intro command
    generalize stage.events = events, stage.after = after at step
    rw [command] at step
    cases step with
    | queue other => exact other rfl
  have closing := step.closing lower announce
  have flag : stage.after.loop.channel.active.toNat ≤ stage.before.loop.channel.active.toNat := by
    cases down : stage.before.loop.channel.active with
    | false => exact Nat.le_of_eq (congrArg Bool.toNat (step.lowered down))
    | true => exact Bool.toNat_le _
  rw [silent, LoopSystem.worth, LoopSystem.worth, closing]
  omega

/-- A command to shut down is queued only once, however many faces are shut down. -/
theorem Run.worth (run : start.Run stages s) :
    (queued stages).countP Command.shuts + s.worth ≤ start.worth := by
  apply run.invariant
  · exact Nat.le_of_eq (Nat.zero_add _)
  · intro past stage _ step spent
    have less := Step.worth step
    rw [queued_concat, List.countP_append]
    omega

/-! ## The end of a run -/

/-- Why a run of the loop ends with a stage, if it does. -/
def exit? (stage : Stage κ τ) : Option LoopExit :=
  match stage.move with
  | .turn pick => (stage.before.loop.turnBy pick).2.2.exit?
  | .resume result => (stage.before.loop.resume result).2.2.exit?
  | _ => none

/-- A turn ends a run if what it settles on does. -/
theorem exit?_of_turn {pick : List (Timer κ) → Option (Timer κ × List (Timer κ))}
    (turns : stage.move = .turn pick) : exit? stage = (settled? stage).bind (·.2.exit?) := by
  rw [exit?, settled?, turns]
  cases armed : stage.before.loop.armNodeCalls? with
  | none =>
    dsimp only
    rw [EventLoop.turnBy_of_none armed]
    rfl
  | some loop =>
    dsimp only
    rw [EventLoop.turnBy_of_some armed, EventLoop.carryOut_exit?]
    rfl

/-- A run ends with a shutdown when the loop takes the command. -/
theorem exit?_iff (stage : Stage κ τ) :
    exit? stage = some .shutdown ↔ taken? stage = some .shutdown := by
  obtain ⟨before, move, events, after⟩ := stage
  cases move with
  | turn pick =>
    rw [exit?_of_turn rfl, taken?, Option.bind_eq_some_iff, Option.bind_eq_some_iff]
    simp [EventLoop.Choice.exit?_eq_some_iff]
  | resume result => simp [exit?, EventLoop.resume_exit_iff, taken?, settled?]
  | queue | lower | announce | leave | begin | advance | perform | pause | destroy | drift =>
    simp [exit?, taken?, settled?]

/-- A run ends for want of work when the loop finds none. -/
theorem exit?_eq_idle_iff (stage : Stage κ τ) :
    exit? stage = some .idle ↔ ∃ loop, settled? stage = some (loop, .idle) := by
  obtain ⟨before, move, events, after⟩ := stage
  cases move with
  | turn pick =>
    rw [exit?_of_turn rfl, Option.bind_eq_some_iff]
    simp [EventLoop.Choice.exit?_eq_some_iff]
  | resume result => simp [exit?, EventLoop.resume_exit_iff, settled?]
  | queue | lower | announce | leave | begin | advance | perform | pause | destroy | drift =>
    simp [exit?, settled?]

/-- A run is stopped when the stop predicate yields `true`. -/
theorem exit?_eq_stopped_iff (stage : Stage κ τ) :
    exit? stage = some .stopped ↔ stage.move = .resume (.ok true) ∧
      ∃ predicate index, stage.before.loop.engine.current? = some (.poll predicate index) := by
  obtain ⟨before, move, events, after⟩ := stage
  cases move with
  | turn pick =>
    rw [exit?_of_turn rfl, Option.bind_eq_some_iff]
    simp [EventLoop.Choice.exit?_eq_some_iff]
  | resume result => simp [exit?, EventLoop.resume_exit_iff]
  | queue | lower | announce | leave | begin | advance | perform | pause | destroy | drift =>
    simp [exit?]

/-- The runs that end with a shutdown are counted by the commands that were executed. -/
theorem countP_exit? (stages : List (Stage κ τ)) :
    stages.countP (fun stage => exit? stage = some .shutdown) =
      (executed stages).countP Command.shuts := by
  rw [executed, List.countP_filterMap]
  congr 1
  funext stage
  have ends := exit?_iff stage
  cases taken : taken? stage with
  | none => simpa [taken] using ends
  | some command => cases command <;> simpa [taken, Command.shuts] using ends

omit [Transport τ] in
/-- Of the stages of a node that a stage of the loop is, those in which the node is shut down. -/
theorem nodeStages_closes (stage : Stage κ τ) :
    (nodeStages stage).countP (·.move.closes) =
      (taken? stage).toList.countP Command.shuts + stage.move.closes.toNat := by
  obtain ⟨before, move, events, after⟩ := stage
  cases move with
  | turn pick =>
    simp only [nodeStages, taken?, settled?]
    cases before.loop.armNodeCalls? with
    | none => rfl
    | some loop =>
      simp only [Option.map, Option.bind]
      cases loop.choose pick with
      | command command queue =>
        cases command <;> rfl
      | timer task timers =>
        cases task with
        | processEvents =>
          by_cases ready : loop.channel.active = true ∧
              (loop.engine.host.now.add? loop.engine.node.config.processEventsInterval).isSome = true
          · simp only [EventLoop.operation?, if_pos ready]
            rfl
          · simp only [EventLoop.operation?, if_neg ready]
            rfl
        | node | pollPredicate | callback => rfl
      | close | wait | idle => rfl
  | perform operation => cases operation <;> rfl
  | resume result =>
    simp only [nodeStages]
    split <;> rfl
  | queue | lower | announce | leave | begin | advance | pause | destroy | drift => rfl

/-- The transport of a loop is closed when the loop takes a command to shut down, and when a callback
that was handed the node asks for it. -/
theorem Run.closes {config : FaceConfig} {format : WireFormat} {transport : τ} {host : Host}
    (opened : open? config format transport host = some start) (run : start.Run stages s) :
    (NamedData.Stage.seen stages).countP Event.closes =
      (executed stages).countP Command.shuts + stages.countP (·.move.closes) := by
  obtain ⟨simulates, seen⟩ := Run.simulates opened run
  have own : (NamedData.Stage.seen stages).countP Event.closes =
      ((NamedData.Stage.seen stages).filter Event.ofNode).countP Event.closes := by
    rw [List.countP_filter]
    congr 1
    funext event
    cases event <;> rfl
  rw [own, ← seen, Engine.Run.closes simulates.run]
  clear run simulates seen own opened
  induction stages with
  | nil => rfl
  | cons stage stages ih =>
    rw [List.flatMap_cons, List.countP_append, nodeStages_closes, ih]
    have split : executed (stage :: stages) = (taken? stage).toList ++ executed stages := by
      cases taken : taken? stage <;> simp [executed, taken]
    rw [split, List.countP_append, List.countP_cons]
    cases stage.move.closes <;> simp <;> omega

omit [Transport τ] in
/-- No more commands to shut down are executed than were queued. -/
theorem Orderly.shutdowns_executed (orderly : Orderly stages s) :
    (executed stages).countP Command.shuts ≤ (queued stages).countP Command.shuts := by
  obtain ⟨lost, split, -⟩ := orderly.fifo
  rw [split, List.append_assoc, List.countP_append]
  exact Nat.le_add_right ..

end LoopSystem

/-! ## Faces that are shut down at the same time -/

/-- A loop with its faces, some of which are in the middle of being shut down. -/
structure Crowd (κ τ : Type) where
  loop : EventLoop κ τ
  phase : Phase := .parked
  /-- The calls to shut down that found the flag up and have yet to queue the command. -/
  late : List Nat := []

/-- What can happen to a loop and its faces. -/
inductive CrowdMove (κ : Type) where
  /-- A call to shut a face down clears the flag and learns whether it was up. -/
  | swap (caller : Nat)
  /-- A call that found the flag up queues the command to shut down. -/
  | announce (caller : Nat)
  | other (move : LoopMove κ)

/-- Whether a callback that was handed the node shuts it down. -/
def CrowdMove.closes {κ : Type} : CrowdMove κ → Bool
  | .other move => move.closes
  | _ => false

namespace Crowd

variable {κ τ : Type}

/-- The loop and its faces, with the calls to shut down not told apart. -/
def whole (c : Crowd κ τ) : LoopSystem κ τ :=
  { loop := c.loop, phase := c.phase, closing := !c.late.isEmpty }

/-- A call to shut a face down clears the flag. If the flag was up, the call has yet to queue the
command. -/
def swap (c : Crowd κ τ) (caller : Nat) : Crowd κ τ :=
  { c with
    loop := { c.loop with channel := { c.loop.channel with active := false } }
    late := if c.loop.channel.active then caller :: c.late else c.late }

/-- A call that found the flag up queues the command to shut down. -/
def announce (c : Crowd κ τ) (caller : Nat) : Crowd κ τ :=
  { c with loop := (c.whole.handOff .shutdown).loop, late := c.late.erase caller }

/-- What a call to shut a face down comes to if nothing happens in between. -/
theorem shutdown_eq (c : Crowd κ τ) (caller : Nat) :
    (if c.loop.channel.active then (c.swap caller).announce caller else c.swap caller) =
      { c with loop := { c.loop with channel := c.loop.channel.shutdown } } := by
  obtain ⟨⟨engine, ⟨queue, active, someFace, hasLoop⟩, commandsOpen, timers, predicate, pollArmed,
    stopped⟩, phase, late⟩ := c
  cases active <;> cases hasLoop <;>
    simp [swap, announce, whole, LoopSystem.handOff, LoopSystem.withChannel, Channel.shutdown,
      Channel.handOff]

/-- A stage of a run. -/
abbrev Stage (κ τ : Type) := NamedData.Stage (Crowd κ τ) (CrowdMove κ) (Event κ)

/-- The same stage, with the calls to shut down not told apart. A call that finds the flag down does
nothing. -/
def loopStage? (stage : Stage κ τ) : Option (LoopSystem.Stage κ τ) :=
  let as (move : LoopMove κ) : LoopSystem.Stage κ τ :=
    ⟨stage.before.whole, move, stage.events, stage.after.whole⟩
  match stage.move with
  | .swap _ => if stage.before.loop.channel.active then some (as .lower) else none
  | .announce _ => some (as .announce)
  | .other move => some (as move)

/-- A run, with the calls to shut down not told apart. -/
def loopStages (stages : List (Stage κ τ)) : List (LoopSystem.Stage κ τ) :=
  stages.filterMap loopStage?

theorem loopStages_concat (stages : List (Stage κ τ)) (stage : Stage κ τ) :
    loopStages (stages ++ [stage]) = loopStages stages ++ (loopStage? stage).toList := by
  rw [loopStages, List.filterMap_append]
  cases found : loopStage? stage <;> simp [loopStages, found]

variable [Transport τ]

/-- One step of a loop and its faces, any number of which may be in the middle of being shut down. -/
inductive Step (c : Crowd κ τ) : CrowdMove κ → List (Event κ) → Crowd κ τ → Prop where
  | swap {caller : Nat} (face : c.loop.channel.hasFace = true) :
      Step c (.swap caller) [] (c.swap caller)
  | announce {caller : Nat} (waits : caller ∈ c.late) :
      Step c (.announce caller) [] (c.announce caller)
  | other {move : LoopMove κ} {events : List (Event κ)} {after : LoopSystem κ τ}
      (lower : move ≠ .lower) (announce : move ≠ .announce) (step : c.whole.Step move events after) :
      Step c (.other move) events { c with loop := after.loop, phase := after.phase }

/-- The runs of a loop and its faces. -/
abbrev Run (start : Crowd κ τ) (stages : List (Stage κ τ)) (c : Crowd κ τ) : Prop :=
  NamedData.Run (fun _ stage => stage.before.Step stage.move stage.events stage.after) start stages c

/-- A run goes on with any step that can be made. -/
theorem Run.extend {start c after : Crowd κ τ} {stages : List (Stage κ τ)} {move : CrowdMove κ}
    {events : List (Event κ)} (run : start.Run stages c) (step : c.Step move events after) :
    start.Run (stages ++ [⟨c, move, events, after⟩]) after :=
  .step run step

/-- At most one call has yet to queue the command, and then the flag is down. -/
structure Calm (c : Crowd κ τ) : Prop where
  one : c.late.length ≤ 1
  down : c.late ≠ [] → c.loop.channel.active = false

section steps

omit [Transport τ]

variable {c : Crowd κ τ} {caller : Nat}

theorem swap_of_lowered (down : c.loop.channel.active = false) : c.swap caller = c := by
  obtain ⟨⟨engine, ⟨queue, active, someFace, hasLoop⟩, commandsOpen, timers, predicate, pollArmed,
    stopped⟩, phase, late⟩ := c
  cases down
  rfl

theorem Calm.late_eq_nil (calm : Calm c) (active : c.loop.channel.active = true) : c.late = [] := by
  by_contra late
  exact absurd (active.symm.trans (calm.down late)) (by decide)

theorem Calm.late_eq (calm : Calm c) (waits : caller ∈ c.late) : c.late = [caller] := by
  obtain ⟨loop, phase, late⟩ := c
  have one := calm.one
  cases late with
  | nil => cases waits
  | cons first others =>
    cases others with
    | nil => rw [List.mem_singleton.mp waits]
    | cons second others => simp at one

theorem Calm.swap (calm : Calm c) : Calm (c.swap caller) := by
  refine ⟨?_, fun _ => rfl⟩
  cases active : c.loop.channel.active with
  | false =>
    rw [swap_of_lowered active]
    exact calm.one
  | true => simp [Crowd.swap, active, calm.late_eq_nil active]

theorem Calm.announce (calm : Calm c) (waits : caller ∈ c.late) : Calm (c.announce caller) := by
  have none : (c.announce caller).late = [] := by simp [Crowd.announce, calm.late_eq waits]
  exact ⟨by rw [none]; exact Nat.zero_le 1, fun late => absurd none late⟩

/-- The call that queues the command is the only one that has yet to do so. -/
theorem whole_announce (calm : Calm c) (waits : caller ∈ c.late) :
    (c.announce caller).whole = { c.whole.handOff .shutdown with closing := false } := by
  obtain ⟨channel, same⟩ := LoopSystem.handOff_eq c.whole .shutdown
  simp only [announce, whole, calm.late_eq waits] at same ⊢
  rw [same]
  simp [LoopSystem.withChannel]

end steps

/-- A step is one of the loop and its faces with the calls to shut down not told apart, or it does
nothing. -/
theorem Step.loop {stage : Stage κ τ} (calm : Calm stage.before)
    (step : stage.before.Step stage.move stage.events stage.after) :
    loopStage? stage = none ∧ stage.events = [] ∧ stage.after = stage.before ∨
      ∃ move, loopStage? stage =
          some ⟨stage.before.whole, move, stage.events, stage.after.whole⟩ ∧
        stage.before.whole.Step move stage.events stage.after.whole := by
  obtain ⟨before, move, events, after⟩ := stage
  change before.Step move events after at step
  change Calm before at calm
  cases step with
  | @swap caller face =>
    cases active : before.loop.channel.active with
    | false => exact .inl ⟨by simp [loopStage?, active], rfl, swap_of_lowered active⟩
    | true =>
      refine .inr ⟨.lower, by simp [loopStage?, active], ?_⟩
      have lowered := LoopSystem.Step.lower (s := before.whole) face active
      simp only [Crowd.swap, whole, active, if_true]
      exact lowered
  | announce waits =>
    refine .inr ⟨.announce, rfl, ?_⟩
    have closing : before.whole.closing = true := by simp [whole, calm.late_eq waits]
    have announced := LoopSystem.Step.announce closing
    rw [← whole_announce calm waits] at announced
    exact announced
  | @other move events after lower announce step =>
    refine .inr ⟨move, rfl, ?_⟩
    have same : whole { before with loop := after.loop, phase := after.phase } = after := by
      have closing : after.closing = !before.late.isEmpty := step.closing lower announce
      rw [whole, ← closing]
    dsimp only
    rw [same]
    exact step

theorem Step.calm {c after : Crowd κ τ} {move : CrowdMove κ} {events : List (Event κ)}
    (calm : Calm c) (step : c.Step move events after) : Calm after := by
  cases step with
  | swap face => exact calm.swap
  | announce waits => exact calm.announce waits
  | other lower announce step => exact ⟨calm.one, fun late => step.lowered (calm.down late)⟩

/-- The flag is never raised. -/
theorem Step.lowered {c after : Crowd κ τ} {move : CrowdMove κ} {events : List (Event κ)}
    (step : c.Step move events after) (down : c.loop.channel.active = false) :
    after.loop.channel.active = false := by
  cases step with
  | swap face => rfl
  | announce waits => exact (LoopSystem.handOff_active c.whole _).trans down
  | other lower announce step => exact step.lowered down

variable {start c : Crowd κ τ} {stages past mid future : List (Stage κ τ)} {stage later : Stage κ τ}
variable {config : FaceConfig} {format : WireFormat} {transport : τ} {host : Host} {caller : Nat}

/-- Every run is one with the calls to shut down not told apart. -/
theorem Run.loop (alone : start.late = []) (run : start.Run stages c) :
    Calm c ∧ start.whole.Run (loopStages stages) c.whole ∧
      NamedData.Stage.seen (loopStages stages) = NamedData.Stage.seen stages := by
  apply run.invariant
  · refine ⟨⟨?_, fun late => absurd alone late⟩, .start, rfl⟩
    simp [alone]
  · rintro past stage _ step ⟨calm, upTo, seen⟩
    refine ⟨Step.calm calm step, ?_⟩
    rw [loopStages_concat, NamedData.Stage.seen_append, NamedData.Stage.seen_concat, seen]
    rcases Step.loop calm step with ⟨nothing, silent, same⟩ | ⟨move, same, moved⟩
    · rw [nothing, silent, same]
      simpa [NamedData.Stage.seen] using upTo
    · rw [same]
      exact ⟨upTo.extend moved, by simp [NamedData.Stage.seen]⟩

omit [Transport τ] in
theorem countP_closes (stages : List (Stage κ τ)) :
    (loopStages stages).countP (·.move.closes) = stages.countP (·.move.closes) := by
  rw [loopStages, List.countP_filterMap]
  congr 1
  funext stage
  rw [loopStage?]
  cases stage.move with
  | swap caller => cases stage.before.loop.channel.active <;> rfl
  | announce | other => rfl

/-- From the moment a face has been shut down the flag is down. -/
theorem Run.lowered (run : start.Run (past ++ stage :: future) c) (swaps : stage.move = .swap caller) :
    c.loop.channel.active = false := by
  rw [List.append_cons] at run
  apply run.since
  · intro state upTo
    obtain ⟨-, step, rfl⟩ := upTo.of_concat
    generalize stage.events = events, stage.after = after at step
    rw [swaps] at step
    cases step
    rfl
  · intro later stage _ step down
    exact step.lowered down

/-- Once a face has been shut down, the flag is down after every stage. -/
theorem Run.lowered_after (run : start.Run (past ++ stage :: future) c)
    (swaps : stage.move = .swap caller) (member : later ∈ stage :: future) :
    later.after.loop.channel.active = false := by
  rcases List.mem_cons.mp member with rfl | member
  · exact Run.lowered run.through swaps
  · obtain ⟨mid, behind, rfl⟩ := List.append_of_mem member
    have upTo : start.Run ((past ++ stage :: mid) ++ later :: behind) c := by simpa using run
    have through := upTo.through
    rw [List.append_assoc] at through
    exact Run.lowered through swaps

/-- Once a face has been shut down, a run of the loop that begins arms nothing. -/
theorem Run.begins_idle (run : start.Run (past ++ stage :: mid ++ later :: future) c)
    (swaps : stage.move = .swap caller) (begins : later.move = .other .begin) :
    later.after.loop = later.before.loop := by
  obtain ⟨upTo, step⟩ := run.at_stage
  have none := EventLoop.begin?_of_lowered (Run.lowered upTo swaps)
  generalize later.events = events, later.after = after at step
  rw [begins] at step
  cases step with
  | other lower announce step =>
    cases step with
    | begin parked begun => exact (Option.some.inj (none.symm.trans begun)).symm
    | overflow parked late => rfl

section opened

variable (opened : LoopSystem.open? config format transport host = some start.whole)

include opened

omit [Transport τ] in
/-- At first nobody has lowered the flag, and the flag is up. -/
theorem alone_of_open? : start.late = [] ∧ start.whole.worth = 1 := by
  obtain ⟨deadline, same⟩ := LoopSystem.eq_of_open? opened
  have still := congrArg LoopSystem.closing same
  refine ⟨by simpa [whole] using still, ?_⟩
  rw [same]
  rfl

/-- The command to shut down is queued once at most. -/
theorem Run.queued_once (run : start.Run stages c) :
    (LoopSystem.queued (loopStages stages)).countP Command.shuts ≤ 1 := by
  obtain ⟨alone, worth⟩ := alone_of_open? opened
  have spent := LoopSystem.Run.worth (Run.loop alone run).2.1
  omega

/-- Once a face has been shut down, a timer of a service starts nothing and is not armed again. -/
theorem Run.services_idle {loop : EventLoop κ τ} {task : Task κ} {timers : List (Timer κ)}
    (run : start.Run (past ++ stage :: mid ++ later :: future) c)
    (swaps : stage.move = .swap caller)
    (settled : (loopStage? later).bind LoopSystem.settled? = some (loop, .timer task timers))
    (service : task.service? ≠ none) :
    later.events = [] ∧ later.after.loop.engine = loop.engine ∧ later.after.loop.timers = timers := by
  obtain ⟨upTo, step⟩ := run.at_stage
  have down := Run.lowered upTo swaps
  have calm := (Run.loop (alone_of_open? opened).1 upTo).1
  rcases Step.loop calm step with ⟨nothing, -⟩ | ⟨move, same, moved⟩
  · rw [nothing] at settled
    cases settled
  · rw [same] at settled
    have settles := LoopSystem.settles_of_settled? moved settled
    have collected := EventLoop.channel_of_armNodeCalls? settles.armed
    obtain ⟨engine, left, silent⟩ :=
      EventLoop.runTask_of_lowered (l := { loop with timers }) (by rw [collected]; exact down) service
    have after := congrArg LoopSystem.loop settles.after
    change later.after.loop = (EventLoop.runTask _ _).1 at after
    rw [after]
    exact ⟨settles.events.trans silent, engine, left⟩

/-- When the command to shut down is taken, all that was queued before it has been executed. -/
theorem Run.executed_before {before behind : List (Command κ)}
    (run : start.Run (past ++ stage :: future) c)
    (taken : (loopStage? stage).bind LoopSystem.taken? = some .shutdown)
    (split : LoopSystem.queued (loopStages past) = before ++ .shutdown :: behind) :
    LoopSystem.executed (loopStages past) = before := by
  obtain ⟨upTo, step⟩ := run.at_stage
  obtain ⟨calm, whole, -⟩ := Run.loop (alone_of_open? opened).1 upTo
  rcases Step.loop calm step with ⟨nothing, -⟩ | ⟨move, same, moved⟩
  · rw [nothing] at taken
    cases taken
  · rw [same] at taken
    obtain ⟨loop, queue, settles⟩ := LoopSystem.settles_of_taken? moved taken
    have order := (LoopSystem.Run.orderly opened whole).queued_eq settles.running
    have once := Run.queued_once opened upTo
    rw [settles.command.2.1, split] at order
    rw [split] at once
    exact (LoopSystem.split_unique rfl once order).symm

end opened

/-- What shutting down the faces of a loop comes to. -/
structure ShutDownOnce (stages : List (Stage κ τ)) : Prop where
  /-- However many faces are shut down, the command is queued once at most. -/
  queued : (LoopSystem.queued (loopStages stages)).countP Command.shuts ≤ 1
  /-- So it is executed once at most: of its own accord the loop tears its node down once at most. -/
  executed : (LoopSystem.executed (loopStages stages)).countP Command.shuts ≤ 1
  /-- Beyond that only a callback that was handed the node can tear it down, once for each time that it
  does so. -/
  tornDown : (NamedData.Stage.seen stages).countP Event.closes ≤ 1 + stages.countP (·.move.closes)
  /-- Of all the runs of the loop one ends with a shutdown at most. -/
  exits : (loopStages stages).countP (fun stage => LoopSystem.exit? stage = some .shutdown) ≤ 1
  /-- From the moment a face has been shut down the flag is down. -/
  lowered : ∀ past stage future caller, stages = past ++ stage :: future →
    stage.move = .swap caller → ∀ later ∈ stage :: future, later.after.loop.channel.active = false
  /-- From then on a timer of a service starts nothing, and is not armed again. -/
  idle : ∀ past stage mid later future caller loop task timers,
    stages = past ++ stage :: mid ++ later :: future → stage.move = .swap caller →
    (loopStage? later).bind LoopSystem.settled? = some (loop, .timer task timers) →
    task.service? ≠ none →
    later.events = [] ∧ later.after.loop.engine = loop.engine ∧ later.after.loop.timers = timers
  /-- Nor does a run that begins from then on arm one. -/
  rerun : ∀ past stage mid later future caller, stages = past ++ stage :: mid ++ later :: future →
    stage.move = .swap caller → later.move = .other .begin → later.after.loop = later.before.loop
  /-- When the command is taken, those that were queued before it have been executed. -/
  drained : ∀ past stage future before behind, stages = past ++ stage :: future →
    (loopStage? stage).bind LoopSystem.taken? = some .shutdown →
    LoopSystem.queued (loopStages past) = before ++ .shutdown :: behind →
    LoopSystem.executed (loopStages past) = before

/-- **Faces are shut down once**, however many of them are at the same time, and whatever the others and
the loop do meanwhile. -/
theorem faces_are_shut_down_once
    (opened : LoopSystem.open? config format transport host = some start.whole)
    (run : start.Run stages c) : ShutDownOnce stages := by
  obtain ⟨-, whole, seen⟩ := Run.loop (alone_of_open? opened).1 run
  have once := Run.queued_once opened run
  have executed := Nat.le_trans (LoopSystem.Run.orderly opened whole).shutdowns_executed once
  constructor
  case queued => exact once
  case executed => exact executed
  case tornDown =>
    rw [← seen, LoopSystem.Run.closes opened whole, countP_closes]
    exact Nat.add_le_add_right executed _
  case exits =>
    rw [LoopSystem.countP_exit?]
    exact executed
  case lowered =>
    rintro past stage future caller rfl swaps later member
    exact Run.lowered_after run swaps member
  case idle =>
    rintro past stage mid later future caller loop task timers rfl swaps settled service
    exact Run.services_idle opened run swaps settled service
  case rerun =>
    rintro past stage mid later future caller rfl swaps begins
    exact Run.begins_idle run swaps begins
  case drained =>
    rintro past stage future before behind rfl taken split
    exact Run.executed_before opened run taken split

/-- Two faces are shut down at the same time. What was queued before is executed, and when the loop is
run again the timer of its event processing starts nothing. -/
theorem two_faces_are_shut_down :
    ∃ (stages : List (Stage Unit Sink)) (c : Crowd Unit Sink),
      LoopSystem.open? {} Engine.untouched.node.format {} Engine.untouched.host =
        some (whole { loop := LoopSystem.atRest.loop }) ∧
      Run { loop := LoopSystem.atRest.loop } stages c ∧ ShutDownOnce stages ∧
      LoopSystem.executed (loopStages stages) = [.flush none, .shutdown] ∧
      (stages.map (·.move)).take 4 = [.other (.queue (.flush none)), .swap 1, .swap 2, .announce 1] ∧
      (NamedData.Stage.seen stages).length = 2 ∧ c.loop.timers = [] := by
  have opened : LoopSystem.open? {} Engine.untouched.node.format {} Engine.untouched.host =
    some (whole { loop := LoopSystem.atRest.loop }) := rfl
  have begins : Run { loop := LoopSystem.atRest.loop } [] _ := .start
  have queued := begins.extend <| show Step _ (.other (.queue (.flush none))) _ _ from
    .other nofun nofun (.queue nofun rfl)
  have first := queued.extend <| show Step _ (.swap 1) _ _ from .swap rfl
  have second := first.extend <| show Step _ (.swap 2) _ _ from .swap rfl
  have announced := second.extend <| show Step _ (.announce 1) _ _ from
    .announce List.mem_cons_self
  have running := announced.extend <| show Step _ (.other .begin) _ _ from
    .other nofun nofun (.begin rfl rfl)
  have flushed := running.extend <| show Step _ (.other (.turn _)) _ _ from
    .other nofun nofun (.turn rfl rfl lawfulPick_takeFirst)
  have shut := flushed.extend <| show Step _ (.other (.turn _)) _ _ from
    .other nofun nofun (.turn rfl rfl lawfulPick_takeFirst)
  have again := shut.extend <| show Step _ (.other .begin) _ _ from
    .other nofun nofun (.begin rfl rfl)
  have idle := again.extend <| show Step _ (.other (.turn _)) _ _ from
    .other nofun nofun (.turn rfl rfl lawfulPick_takeFirst)
  exact ⟨_, _, opened, idle, faces_are_shut_down_once opened idle, rfl, rfl, rfl, rfl⟩

end Crowd

end NamedData
