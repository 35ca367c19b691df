import NamedData.Proofs.Loop.Backlog

/-!
The one-shot timers of an event loop.

What a face or the node of a loop wants done later goes through up to three places until it is done. In
every run it is in one of them until its timer goes off, which happens once and not too early, and running
the loop again after an exit neither drops nor doubles it (`LoopSystem.errands_are_done_once`).
-/
namespace NamedData

namespace LoopSystem

open EventLoop (Tidy)

variable {κ τ : Type}

/-- The places where the errands of a loop are. -/
def backlog (s : LoopSystem κ τ) : Backlog κ := s.loop.backlog (s.phase = .dead)

theorem handOff_engine (s : LoopSystem κ τ) (command : Command κ) :
    (s.handOff command).loop.engine = s.loop.engine := by
  obtain ⟨channel, same⟩ := handOff_eq s command
  rw [same]
  rfl

/-- What is on the clock. -/
def now (s : LoopSystem κ τ) : Instant := s.loop.engine.host.now

/-- A command that is queued may give the loop an errand. -/
theorem handOff_steps (s : LoopSystem κ τ) (command : Command κ) :
    s.backlog.Steps
      (((if s.loop.channel.hasLoop then some command else none).bind Command.later?).toList.map
        fun w => ⟨.callback w.2, s.now, w.1⟩) [] (s.handOff command).backlog := by
  cases there : s.loop.channel.hasLoop with
  | false =>
    have same : s.handOff command = s := by
      rw [handOff, Channel.handOff, there]
      rfl
    rw [same]
    exact .refl
  | true =>
    have queued : (s.handOff command).backlog =
        { s.backlog with waiting := s.backlog.waiting ++ command.later?.toList } := by
      rw [handOff, Channel.handOff, there]
      exact EventLoop.backlog_queue s.loop command _
    rw [queued, if_pos rfl, Option.bind_some]
    cases command.later? with
    | none =>
      rw [Option.toList_none, List.append_nil]
      exact .refl
    | some later => exact .single (.hand later.1 later.2)

variable [Transport τ]

/-- The errand that is run in a stage. -/
def errand? (stage : Stage κ τ) : Option (Task κ) :=
  (settled? stage).bind fun settled => settled.2.errand?

/-- The errands that are run in a stage, and when. -/
def invoked (stage : Stage κ τ) : List (Task κ × Instant) :=
  (errand? stage).toList.map (·, stage.before.now)

/-- The errands that are given in a stage, by a face or by the node. -/
def given (stage : Stage κ τ) : List (Errand κ) :=
  ((queued? stage).bind Command.later?).toList.map (fun w => ⟨.callback w.2, stage.before.now, w.1⟩) ++
    armings stage.events stage.before.now

/-- What a stage does with the errands of a loop. -/
structure Handles (stage : Stage κ τ) : Prop where
  steps : stage.before.backlog.Steps (given stage) (invoked stage) stage.after.backlog
  told : Told (errand? stage) stage.events
  batches : stage.after.loop.engine.frames.flatMap Frame.calls ⊆
    stage.before.loop.engine.frames.flatMap Frame.calls

variable {s start : LoopSystem κ τ} {stage : Stage κ τ} {stages past future : List (Stage κ τ)}

omit [Transport τ] in
/-- A loop may leave its errands where they are. -/
theorem Handles.rest (silent : stage.events = []) (unsettled : settled? stage = none)
    (steps : stage.before.backlog.Steps
      (((queued? stage).bind Command.later?).toList.map fun w => ⟨.callback w.2, stage.before.now, w.1⟩)
      [] stage.after.backlog)
    (frames : stage.after.loop.engine.frames = stage.before.loop.engine.frames) : Handles stage where
  steps := by
    rw [given, invoked, errand?, silent, unsettled, armings, List.filterMap_nil, List.map_nil,
      List.append_nil]
    exact steps
  told := by
    rw [errand?, silent, unsettled]
    exact .none rfl
  batches := by
    rw [frames]
    exact List.Subset.refl _

omit [Transport τ] in
/-- A loop that works does so as its functions say. -/
theorem Handles.of_does {run : Option (Task κ)} {outcome : EventLoop κ τ × List (Event κ) × Turn}
    (alive : stage.before.phase ≠ .dead) (does : stage.before.loop.Does run outcome)
    (unqueued : queued? stage = none) (runs : errand? stage = run)
    (events : stage.events = outcome.2.1) (after : stage.after = stage.before.settle outcome) :
    Handles stage where
  steps := by
    rw [given, invoked, unqueued, runs, events, after, backlog, decide_eq_false alive]
    exact does.steps
  told := by
    rw [runs, events]
    exact does.told
  batches := by
    rw [after]
    exact does.batches

omit [Transport τ] in
/-- So does one that lets its node work. -/
theorem Handles.of_posts {engine : Engine κ Outbox τ} (running : stage.before.phase = .running)
    (posts : stage.before.loop.engine.Posts none stage.events engine)
    (unqueued : queued? stage = none) (unsettled : settled? stage = none)
    (after : stage.after = stage.before.withEngine engine) : Handles stage := by
  have does : stage.before.loop.Does none
      ({ stage.before.loop with engine }, stage.events, .worked) := .of_posts .refl rfl posts rfl rfl
  refine .of_does (by simp [running]) does unqueued (by rw [errand?, unsettled]; rfl) rfl ?_
  rw [after, settle, Turn.phase, ← running]
  rfl

/-- Every step of a loop leads its errands on, as long as no calls are run that its node has kept back
and the clock does not go back. -/
theorem Step.handles (step : stage.before.Step stage.move stage.events stage.after)
    (idle : stage.before.loop.engine.frames.flatMap Frame.calls = [])
    (clock : stage.before.now ≤ stage.after.now) : Handles stage := by
  obtain ⟨before, move, events, after⟩ := stage
  change before.Step move events after at step
  change before.loop.engine.frames.flatMap Frame.calls = [] at idle
  change before.now ≤ after.now at clock
  have alive : before.phase ≠ .dead → before.backlog = before.loop.backlog false := by
    intro alive
    rw [backlog, decide_eq_false alive]
  cases step with
  | @queue command other face =>
    have frames := congrArg Engine.frames (before.handOff_engine command)
    exact .rest rfl rfl (before.handOff_steps command) frames
  | announce closing =>
    have frames := congrArg Engine.frames (before.handOff_engine .shutdown)
    exact .rest rfl rfl (before.handOff_steps .shutdown) frames
  | lower | leave => exact .rest rfl rfl .refl rfl
  | begin parked begun =>
    have same := EventLoop.backlog_of_begin? false begun
    have steps : before.backlog.Steps [] [] (before.loop.backlog false) := by
      rw [alive (by simp [parked])]
      exact .refl
    rw [← same] at steps
    exact .rest rfl rfl steps (congrArg Engine.frames (EventLoop.engine_of_begin? begun))
  | overflow parked late => exact .rest rfl rfl (.doom .refl fun _ => rfl) rfl
  | pause running rest =>
    have same : LoopSystem.backlog { before with phase := .parked } = before.backlog := by
      rw [alive (by simp [running])]
      rfl
    refine .rest rfl rfl ?_ rfl
    rw [same]
    exact .refl
  | destroy dead =>
    have lost := Backlog.Step.lose (b := before.backlog) before.backlog.waiting.length
    rw [List.drop_length] at lost
    exact .rest rfl rfl (.single lost) rfl
  | drift drifts => exact .rest rfl rfl (.single (.wait clock)) rfl
  | @turn pick running rest lawful =>
    have working : before.phase ≠ .dead := by simp [running]
    cases armed : before.loop.armNodeCalls? with
    | none =>
      rw [EventLoop.turnBy_of_none armed]
      refine .rest rfl ?_ (.doom .refl fun _ => rfl) rfl
      rw [settled?, armed]
      rfl
    | some loop =>
      have does := (loop.carryOut_does lawful rfl).collect armed
      rw [← EventLoop.turnBy_of_some armed] at does
      refine .of_does working does rfl ?_ rfl rfl
      simp only [errand?, settled?, armed]
      rfl
  | @advance engine events running advanced =>
    exact .of_posts running (Engine.advance_posts idle advanced) rfl rfl rfl
  | @resume call result running inside =>
    have working : before.phase ≠ .dead := by simp [running]
    exact .of_does working (before.loop.resume_does result) rfl rfl rfl rfl
  | @perform call operation running inside handed public' =>
    exact .of_posts running (before.loop.engine.perform_posts public') rfl rfl rfl

/-! ## The outbox of the node when a run ends -/

omit [Transport τ] in
/-- While a loop runs a callback of its own, nothing is in the outbox of its node. -/
def Emptied (e : Engine κ Outbox τ) : Prop :=
  ∀ call, e.current? = some call → call.ofNode = false → e.node.scheduler.calls = []

omit [Transport τ] in
theorem Emptied.of_own {e : Engine κ Outbox τ} (own : e.Own) : Emptied e := by
  intro call inside loops
  obtain ⟨outer, frames⟩ := Engine.frames_of_current? inside
  have mine := own (.inside call) (frames ▸ List.mem_cons_self)
  exact absurd (mine.symm.trans loops) (by decide)

/-- When a loop calls back after it has collected the calls in the outbox, nothing is there. -/
theorem Emptied.carryOut {l : EventLoop κ τ} (rest : l.engine.frames = [])
    (empty : l.engine.node.scheduler.calls = []) (choice : EventLoop.Choice κ) :
    Emptied (l.carryOut choice).1.engine := by
  cases started : l.operation? choice with
  | some operation =>
    have owns := Engine.perform_owns (Tidy.own_of_rest rest) operation
    rw [← (EventLoop.carryOut_of_some (Tidy.own_of_rest rest) started).1] at owns
    exact .of_own owns.frames
  | none =>
    intro call _ _
    have aside := (EventLoop.carryOut_of_none rest started).plain
    have same := congrArg (·.node.scheduler.calls) aside
    exact same.trans empty

omit [Transport τ] in
theorem calls_of_armNodeCalls? {l loop : EventLoop κ τ} (armed : l.armNodeCalls? = some loop) :
    loop.engine.node.scheduler.calls = [] := by
  rw [EventLoop.engine_of_armNodeCalls? armed]
  rfl

theorem Step.emptied {move : LoopMove κ} {events : List (Event κ)} {before after : LoopSystem κ τ}
    (step : before.Step move events after) (tidy : Tidy before.loop.engine)
    (emptied : Emptied before.loop.engine) : Emptied after.loop.engine := by
  cases step with
  | queue | announce =>
    rw [handOff_engine]
    exact emptied
  | begin parked begun =>
    rw [EventLoop.engine_of_begin? begun]
    exact emptied
  | @turn pick running rest lawful =>
    change Emptied (before.loop.turnBy pick).1.engine
    cases armed : before.loop.armNodeCalls? with
    | none =>
      rw [EventLoop.turnBy_of_none armed]
      exact emptied
    | some loop =>
      have rest' : loop.engine.frames = [] := by
        rw [EventLoop.engine_of_armNodeCalls? armed]
        exact rest
      rw [EventLoop.turnBy_of_some armed]
      exact .carryOut rest' (calls_of_armNodeCalls? armed) _
  | advance running advanced =>
    exact .of_own (Engine.advance_owns (tidy.own_of_advance advanced) advanced).frames
  | @resume call result running inside =>
    change Emptied (before.loop.resume result).1.engine
    cases mine : call.ofNode with
    | true =>
      have owns := Engine.resume_owns (tidy.own_of_mine inside mine) (result.map fun _ => ())
      rw [EventLoop.resume_of_mine inside mine]
      exact .of_own owns.frames
    | false =>
      have frames := tidy.frames_of_loops inside mine
      rw [(EventLoop.resume_of_loops frames mine result).1]
      exact .of_own (Tidy.own_of_rest rfl)
  | @perform call operation running inside handed public' =>
    have own := tidy.own_of_mine inside (Call.ofNode_of_handsNode handed)
    exact .of_own (Engine.perform_owns own operation).frames
  | lower | leave | overflow | pause | destroy | drift => exact emptied

/-- When a run of the loop ends, nothing is in the outbox. -/
theorem Step.emptied_of_exit {exit : LoopExit}
    (step : stage.before.Step stage.move stage.events stage.after)
    (emptied : Emptied stage.before.loop.engine) (exited : exit? stage = some exit) :
    stage.after.loop.engine.node.scheduler.calls = [] := by
  obtain ⟨before, move, events, after⟩ := stage
  change before.Step move events after at step
  change Emptied before.loop.engine at emptied
  cases step with
  | @turn pick running rest lawful =>
    change (before.loop.turnBy pick).2.2.exit? = some exit at exited
    change (before.loop.turnBy pick).1.engine.node.scheduler.calls = []
    cases armed : before.loop.armNodeCalls? with
    | none =>
      rw [EventLoop.turnBy_of_none armed] at exited
      cases exited
    | some loop =>
      have empty := calls_of_armNodeCalls? armed
      rw [EventLoop.turnBy_of_some armed, EventLoop.carryOut_exit?,
        EventLoop.Choice.exit?_eq_some_iff] at exited
      rw [EventLoop.turnBy_of_some armed]
      obtain ⟨-, idle⟩ | ⟨-, shut⟩ := exited
      · rw [idle]
        exact empty
      · obtain ⟨queue, taken⟩ := EventLoop.Choice.eq_of_command? shut
        rw [taken]
        exact empty
  | @resume call result running inside =>
    change (before.loop.resume result).2.2.exit? = some exit at exited
    have same := EventLoop.resume_backlog before.loop result false
    have boxed : (before.loop.resume result).1.engine.node.scheduler.calls =
        before.loop.engine.node.scheduler.calls := congrArg Backlog.boxed same
    refine boxed.trans (emptied call inside ?_)
    rw [EventLoop.resume, inside] at exited
    cases call with
    | poll => rfl
    | data | timeout | interest | registerFailed | nodeDelay | faceDelay => cases exited
  | queue | lower | announce | leave | begin | overflow | advance | perform | pause | destroy
  | drift => cases exited

/-! ## Whole runs -/

/-- The clock does not go back in the course of some stages. -/
def Forward (stages : List (Stage κ τ)) : Prop :=
  ∀ stage ∈ stages, stage.before.now ≤ stage.after.now

/-- What comes of all that is to be done once, up to some point of a run. -/
structure DoneOnce (stages : List (Stage κ τ)) (s : LoopSystem κ τ) : Prop where
  /-- As long as the loop is there, every errand that was given is in one of the places or has been
  done, and it was not done before its delay was over. -/
  whole : s.phase ≠ .dead → ∃ waiting boxed armed finished,
    s.backlog.Accounts (stages.flatMap given) (stages.flatMap invoked) waiting boxed armed finished []
  /-- Even when the loop goes, no errand has been done early, and what has been done is not kept. -/
  kept : s.backlog.Kept (stages.flatMap given) (stages.flatMap invoked)
  /-- No errand is done more often than it was given. -/
  once : ((stages.flatMap invoked).map (·.1)).Subperm ((stages.flatMap given).map (·.task))
  /-- The application is called on account of an errand when that is run, and only then. -/
  told : ∀ stage ∈ stages, Told (errand? stage) stage.events
  /-- Whenever a run of the loop ends, the outbox of its node is empty. -/
  emptied : ∀ stage ∈ stages, ∀ exit, exit? stage = some exit →
    stage.after.loop.engine.node.scheduler.calls = []
  /-- To run the loop again leaves every errand where it is. -/
  rerun : ∀ stage ∈ stages, stage.move = .begin → stage.after.phase = .running →
    stage.after.backlog = stage.before.backlog

variable {config : FaceConfig} {format : WireFormat} {transport : τ} {host : Host}

/-- What carries the accounts of the errands through a run. -/
structure Diligent (stages : List (Stage κ τ)) (s : LoopSystem κ τ) : Prop where
  kept : s.backlog.Kept (stages.flatMap given) (stages.flatMap invoked)
  idle : s.loop.engine.frames.flatMap Frame.calls = []
  told : ∀ stage ∈ stages, Told (errand? stage) stage.events

theorem Run.diligent (opened : open? config format transport host = some start)
    (run : start.Run stages s) (clock : Forward stages) : Diligent stages s := by
  revert clock
  apply run.invariant
  · intro _
    obtain ⟨deadline, rfl⟩ := eq_of_open? opened
    exact ⟨.start rfl rfl rfl, rfl, fun _ member => by cases member⟩
  · intro past stage _ step ih clock
    have before := ih fun earlier member => clock earlier (List.mem_append_left _ member)
    have handles := step.handles before.idle (clock stage (by simp))
    constructor
    case kept =>
      have kept := before.kept.steps handles.steps
      simpa using kept
    case idle => exact List.subset_nil.mp (before.idle ▸ handles.batches)
    case told =>
      intro other member
      rcases List.mem_append.mp member with old | new
      · exact before.told other old
      · rw [List.mem_singleton.mp new]
        exact handles.told

theorem Run.emptied (opened : open? config format transport host = some start)
    (run : start.Run stages s) : Emptied s.loop.engine := by
  apply run.invariant
  · obtain ⟨deadline, rfl⟩ := eq_of_open? opened
    exact .of_own (Tidy.own_of_rest rfl)
  · intro past stage upTo step emptied
    exact Step.emptied step (Run.simulates opened upTo).1.tidy emptied

/-- **One-shot timers are neither lost, repeated nor early.** Whatever a loop and its faces do and in
whatever order expired timers come up, what a face or the node wants done later waits in the queue, in
the outbox of the node or for a timer until it is done, once and not before its delay is over. Leaving
a run and running the loop again changes nothing about this, and whenever a run ends the outbox is
empty. -/
theorem errands_are_done_once (opened : open? config format transport host = some start)
    (run : start.Run stages s) (clock : Forward stages) : DoneOnce stages s := by
  have diligent := Run.diligent opened run clock
  constructor
  case whole =>
    intro alive
    obtain ⟨waiting, boxed, armed, finished, lost, accounts⟩ := diligent.kept
    obtain rfl := accounts.safe (decide_eq_false alive)
    exact ⟨waiting, boxed, armed, finished, accounts⟩
  case kept => exact diligent.kept
  case once => exact diligent.kept.once
  case told => exact diligent.told
  case emptied =>
    intro stage member exit exited
    obtain ⟨past, future, rfl⟩ := List.append_of_mem member
    obtain ⟨upTo, step⟩ := run.at_stage
    exact Step.emptied_of_exit step (Run.emptied opened upTo) exited
  case rerun =>
    intro stage member begins running
    obtain ⟨past, future, rfl⟩ := List.append_of_mem member
    obtain ⟨upTo, step⟩ := run.at_stage
    rw [begins] at step
    generalize stage.events = events, stage.before = old, stage.after = new at step running ⊢
    cases step with
    | begin parked begun =>
      have same := EventLoop.backlog_of_begin? false begun
      have alive : old.phase ≠ .dead := by simp [parked]
      rw [backlog, backlog, decide_eq_false alive]
      exact same
    | overflow => cases running

/-- A face wants a callback after a millisecond. The loop is stopped by its predicate, run again two
milliseconds later, and calls back then. -/
theorem called_back_in_the_second_run :
    ∃ (stages : List (Stage Unit Sink)) (s : LoopSystem Unit Sink),
      open? {} Engine.untouched.node.format {} Engine.untouched.host = some atRest ∧
      atRest.Run stages s ∧ Forward stages ∧ stages.filterMap exit? = [.stopped] ∧
      stages.flatMap given = [⟨.callback (), ⟨0⟩, .ofMillis 1⟩] ∧
      stages.flatMap invoked = [(.callback (), ⟨2000000⟩)] ∧ DoneOnce stages s := by
  have opened : open? {} Engine.untouched.node.format {} Engine.untouched.host = some atRest := rfl
  have begins : atRest.Run [] atRest := .start
  have asked := begins.extend <| show atRest.Step (.queue (.stopWhen (some ()))) [] _ from
    .queue (by simp) rfl
  have delayed := asked.extend <| show LoopSystem.Step _ (.queue (.callLater (.ofMillis 1) ())) [] _
    from .queue (by simp) rfl
  have running := delayed.extend (.begin rfl rfl)
  have replaced := running.extend (.turn rfl rfl lawfulPick_takeFirst)
  have armed := replaced.extend (.turn rfl rfl lawfulPick_takeFirst)
  have processing := armed.extend (.turn rfl rfl lawfulPick_takeFirst)
  have drained := processing.extend (.advance rfl rfl)
  have processed := drained.extend (.advance rfl rfl)
  have polling := processed.extend (.turn rfl rfl lawfulPick_takeFirst)
  have stopped := polling.extend <| show LoopSystem.Step _ (.resume (.ok true)) _ _ from
    .resume rfl rfl
  have later := stopped.extend <| show LoopSystem.Step _ .drift [] (LoopSystem.withEngine _
      { LoopSystem.loop _ |>.engine with
        transport := {}, host := { Engine.untouched.host with now := ⟨2000000⟩ } }) from
    .drift ⟨Nat.le_refl _, fun _ member => by cases member⟩
  have again := later.extend (.begin rfl rfl)
  have called := again.extend (.turn rfl rfl lawfulPick_takeFirst)
  refine ⟨_, _, opened, called, ?forward, rfl, rfl, rfl,
    errands_are_done_once opened called ?forward⟩
  rw [Forward]
  decide +kernel

end LoopSystem

end NamedData
