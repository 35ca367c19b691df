import NamedData.Proofs.Loop.Run

/-!
What the functions of an event loop leave alone, and what a turn settles on.
-/
namespace NamedData

/-- Why a run of the loop ends with a turn, if it does. -/
def Turn.exit? : Turn → Option LoopExit
  | .exited exit => some exit
  | _ => none

theorem Turn.exit?_of_parked {turn : Turn} (parked : turn.phase = .parked) :
    ∃ exit, turn.exit? = some exit := by
  cases turn with
  | exited exit => exact ⟨exit, rfl⟩
  | worked | waiting | collapsed => cases parked

namespace EventLoop

variable {κ τ : Type} {l after : EventLoop κ τ}

/-- Arming a timer changes nothing else. -/
theorem eq_of_arm? {delay : Duration} {task : Task κ} (armed : l.arm? delay task = some after) :
    ∃ deadline, after = { l with timers := l.timers ++ [{ deadline, task }] } := by
  obtain ⟨deadline, -, rfl⟩ := Option.map_eq_some_iff.mp armed
  exact ⟨deadline, rfl⟩

/-- Arming timers for calls changes nothing else. -/
theorem eq_of_armCalls? {calls : List (Duration × NodeCall κ)}
    (armed : l.armCalls? calls = some after) :
    ∃ timers, after = { l with timers := l.timers ++ timers } ∧
      ∀ t ∈ timers, ∃ call ∈ calls, t.task = .node call.2 := by
  induction calls generalizing l with
  | nil =>
    cases armed
    exact ⟨[], by simp, by simp⟩
  | cons call calls ih =>
    rw [armCalls?] at armed
    cases first : l.arm? call.1 (.node call.2) with
    | none =>
      rw [first] at armed
      cases armed
    | some next =>
      rw [first] at armed
      obtain ⟨deadline, rfl⟩ := eq_of_arm? first
      obtain ⟨timers, rfl, known⟩ := ih armed
      refine ⟨{ deadline, task := .node call.2 } :: timers, by simp, ?_⟩
      intro t member
      rcases List.mem_cons.mp member with rfl | member
      · exact ⟨call, List.mem_cons_self, rfl⟩
      · obtain ⟨other, listed, same⟩ := known t member
        exact ⟨other, List.mem_cons_of_mem _ listed, same⟩

/-- The node of a loop after its calls have been collected. -/
def collected (e : Engine κ Outbox τ) : Engine κ Outbox τ :=
  { e with node := { e.node with scheduler := {} } }

/-- Collecting the calls of the node changes only its outbox and the timers. -/
theorem eq_of_armNodeCalls? (armed : l.armNodeCalls? = some after) :
    ∃ timers, after = { l with engine := collected l.engine, timers := l.timers ++ timers } ∧
      ∀ t ∈ timers, ∃ call ∈ l.engine.node.scheduler.calls, t.task = .node call.2 :=
  eq_of_armCalls? armed

theorem engine_of_armNodeCalls? (armed : l.armNodeCalls? = some after) :
    after.engine = collected l.engine := by
  obtain ⟨timers, rfl, -⟩ := eq_of_armNodeCalls? armed
  rfl

/-- There is nothing to collect from an empty outbox. -/
theorem armNodeCalls?_of_boxed (boxed : l.engine.node.scheduler.calls = []) :
    l.armNodeCalls? = some l := by
  have outbox : ({} : Outbox (NodeCall κ)) = l.engine.node.scheduler :=
    congrArg Outbox.mk boxed.symm
  rw [armNodeCalls?, boxed, outbox]
  rfl

/-- The queue is left alone, and so is who is at its ends. -/
structure SameQueue (l after : EventLoop κ τ) : Prop where
  queue : after.channel.queue = l.channel.queue
  hasFace : after.channel.hasFace = l.channel.hasFace
  hasLoop : after.channel.hasLoop = l.channel.hasLoop
  commandsOpen : after.commandsOpen = l.commandsOpen

theorem SameQueue.trans {mid : EventLoop κ τ} (first : SameQueue l mid)
    (second : SameQueue mid after) : SameQueue l after where
  queue := second.queue.trans first.queue
  hasFace := second.hasFace.trans first.hasFace
  hasLoop := second.hasLoop.trans first.hasLoop
  commandsOpen := second.commandsOpen.trans first.commandsOpen

theorem sameQueue_of_armNodeCalls? (armed : l.armNodeCalls? = some after) : SameQueue l after := by
  obtain ⟨timers, rfl, -⟩ := eq_of_armNodeCalls? armed
  exact ⟨rfl, rfl, rfl, rfl⟩

/-- The queue is left alone, and no timer is armed for a call of the node. -/
structure Keeps (l after : EventLoop κ τ) : Prop extends SameQueue l after where
  timers : ∀ t ∈ after.timers, ∀ call, t.task = .node call → t ∈ l.timers

namespace Keeps

theorem refl (l : EventLoop κ τ) : Keeps l l := ⟨⟨rfl, rfl, rfl, rfl⟩, fun _ member _ _ => member⟩

theorem of_eq {l after : EventLoop κ τ} (queue : after.channel.queue = l.channel.queue)
    (hasFace : after.channel.hasFace = l.channel.hasFace)
    (hasLoop : after.channel.hasLoop = l.channel.hasLoop)
    (commandsOpen : after.commandsOpen = l.commandsOpen) (timers : after.timers = l.timers) :
    Keeps l after :=
  ⟨⟨queue, hasFace, hasLoop, commandsOpen⟩, fun _ member _ _ => timers ▸ member⟩

theorem trans {mid : EventLoop κ τ} (first : Keeps l mid) (second : Keeps mid after) :
    Keeps l after where
  toSameQueue := first.toSameQueue.trans second.toSameQueue
  timers t member call same := first.timers t (second.timers t member call same) call same

/-- Arming a timer for something that is not a call of the node. -/
theorem of_arm? {delay : Duration} {task : Task κ} (armed : l.arm? delay task = some after)
    (other : ∀ call, task ≠ .node call) : Keeps l after := by
  obtain ⟨deadline, rfl⟩ := eq_of_arm? armed
  refine ⟨⟨rfl, rfl, rfl, rfl⟩, ?_⟩
  intro t member call same
  rcases List.mem_append.mp member with old | new
  · exact old
  · rw [List.mem_singleton.mp new] at same
    exact absurd same (other call)

end Keeps

theorem begin?_keeps (begun : l.begin? = some after) : Keeps l after := by
  rw [begin?] at begun
  split at begun
  · obtain ⟨mid, armed, rfl⟩ := Option.map_eq_some_iff.mp begun
    exact (Keeps.of_arm? armed (by simp)).trans (.of_eq rfl rfl rfl rfl rfl)
  · cases begun
    exact .refl l

theorem engine_of_begin? (begun : l.begin? = some after) : after.engine = l.engine := by
  rw [begin?] at begun
  split at begun
  · obtain ⟨mid, armed, rfl⟩ := Option.map_eq_some_iff.mp begun
    obtain ⟨deadline, rfl⟩ := eq_of_arm? armed
    rfl
  · cases begun
    rfl

theorem rearmPoll_keeps (l : EventLoop κ τ) : Keeps l l.rearmPoll.1 := by
  rw [rearmPoll]
  cases armed : l.arm? l.engine.node.config.stopWhenInterval .pollPredicate with
  | none => exact .refl l
  | some mid => exact (Keeps.of_arm? armed (by simp)).trans (.of_eq rfl rfl rfl rfl rfl)

theorem execute_keeps [Transport τ] (l : EventLoop κ τ) (command : Command κ) :
    Keeps l (l.execute command).1 := by
  cases command with
  | request request =>
    rw [execute]
    dsimp only
    split <;> exact .of_eq rfl rfl rfl rfl rfl
  | callLater delay callback =>
    rw [execute]
    cases armed : l.arm? delay (.callback callback) with
    | none => exact .refl l
    | some after => exact .of_arm? armed (by simp)
  | stopWhen | countPending | flush | shutdown => exact .of_eq rfl rfl rfl rfl rfl

theorem runTask_keeps (l : EventLoop κ τ) (task : Task κ) : Keeps l (l.runTask task).1 := by
  cases task with
  | processEvents =>
    rw [runTask]
    split
    · cases armed : l.arm? l.engine.node.config.processEventsInterval .processEvents with
      | none => exact .refl l
      | some mid => exact (Keeps.of_arm? armed (by simp)).trans (.of_eq rfl rfl rfl rfl rfl)
    · exact .refl l
  | pollPredicate =>
    have unarmed : Keeps l { l with pollArmed := false } := .of_eq rfl rfl rfl rfl rfl
    rw [runTask]
    dsimp only
    split
    · split
      · exact unarmed.trans (rearmPoll_keeps _)
      · exact .of_eq rfl rfl rfl rfl rfl
    · exact unarmed
  | node call => exact .of_eq rfl rfl rfl rfl rfl
  | callback callback => exact .of_eq rfl rfl rfl rfl rfl

theorem resume_keeps (l : EventLoop κ τ) (result : Except CallbackError Bool) :
    Keeps l (l.resume result).1 := by
  have returned : Keeps l
      { l with engine := { l.engine with frames := l.engine.frames.tail } } :=
    .of_eq rfl rfl rfl rfl rfl
  rw [resume.eq_def]
  split
  · dsimp only
    split
    · exact .of_eq rfl rfl rfl rfl rfl
    · exact returned.trans (rearmPoll_keeps _)
    · exact returned.trans (rearmPoll_keeps _)
  · exact .of_eq rfl rfl rfl rfl rfl

/-! ## What a turn settles on -/

variable {pick : List (Timer κ) → Option (Timer κ × List (Timer κ))}

/-- A command is taken only from the head of an open queue. -/
theorem queue_of_command {command : Command κ} {queue : List (Command κ)}
    (chosen : l.choose pick = .command command queue) :
    l.commandsOpen = true ∧ l.channel.queue = command :: queue := by
  rw [choose] at chosen
  split at chosen
  · next opened waiting =>
    cases chosen
    exact ⟨opened, waiting⟩
  · split at chosen
    · cases chosen
    · split at chosen
      · split at chosen <;> cases chosen
      · split at chosen <;> cases chosen

/-- When a turn settles on anything else, no command waits that could be taken. -/
theorem queue_eq_nil {choice : Choice κ} (chosen : l.choose pick = choice)
    (other : ∀ command queue, choice ≠ .command command queue) (opened : l.commandsOpen = true) :
    l.channel.queue = [] := by
  cases waiting : l.channel.queue with
  | nil => rfl
  | cons command queue =>
    have taken : l.choose pick = .command command queue := by rw [choose, opened, waiting]
    exact absurd (chosen.symm.trans taken) (other command queue)

/-- The queue comes to its end only when no face is left. -/
theorem hasFace_of_close (chosen : l.choose pick = .close) :
    l.commandsOpen = true ∧ l.channel.hasFace = false := by
  rw [choose] at chosen
  split at chosen
  · cases chosen
  · split at chosen
    · next closed => simpa using closed
    · split at chosen
      · split at chosen <;> cases chosen
      · split at chosen <;> cases chosen

/-- A loop has nothing left to do when its queue has come to its end and no timer is armed. -/
theorem choose_eq_idle_iff (lawful : LawfulPick pick) :
    l.choose pick = .idle ↔ l.commandsOpen = false ∧ l.timers = [] := by
  constructor
  · intro chosen
    rw [choose] at chosen
    split at chosen
    · cases chosen
    · split at chosen
      · cases chosen
      · split at chosen
        · next unpicked =>
          split at chosen
          · cases chosen
          · next shut => exact ⟨by simpa using shut, lawful.nil_of_none unpicked⟩
        · split at chosen <;> cases chosen
  · rintro ⟨shut, unarmed⟩
    have unpicked : pick l.timers = none := by
      cases picked : pick l.timers with
      | none => rfl
      | some taken =>
        have perm := lawful.perm picked
        rw [unarmed] at perm
        exact absurd perm.length_eq (by simp)
    rw [choose, shut]
    simp [unpicked]

/-- A timer that is taken is the one that comes up first, and its time has come. -/
theorem picked_of_timer {task : Task κ} {timers : List (Timer κ)}
    (chosen : l.choose pick = .timer task timers) :
    ∃ first : Timer κ, first.task = task ∧ pick l.timers = some (first, timers) ∧
      first.deadline.ceilMillis ≤ l.nowMillis := by
  rw [choose] at chosen
  split at chosen
  · cases chosen
  · split at chosen
    · cases chosen
    · split at chosen
      · split at chosen <;> cases chosen
      · next first rest picked =>
        split at chosen
        · next due =>
          cases chosen
          exact ⟨first, rfl, picked, due⟩
        · cases chosen

/-- A timer that is taken had been armed, and the others stay. -/
theorem perm_of_timer {task : Task κ} {timers : List (Timer κ)} (lawful : LawfulPick pick)
    (chosen : l.choose pick = .timer task timers) :
    ∃ first : Timer κ, first.task = task ∧ (first :: timers).Perm l.timers := by
  obtain ⟨first, same, picked, -⟩ := picked_of_timer chosen
  exact ⟨first, same, lawful.perm picked⟩

theorem mem_of_timer {task : Task κ} {timers : List (Timer κ)} (lawful : LawfulPick pick)
    (chosen : l.choose pick = .timer task timers) :
    (∃ t ∈ l.timers, t.task = task) ∧ timers ⊆ l.timers := by
  obtain ⟨first, same, perm⟩ := perm_of_timer lawful chosen
  exact ⟨⟨first, perm.subset List.mem_cons_self, same⟩,
    fun t member => perm.subset (List.mem_cons_of_mem _ member)⟩

/-- No turn arms a timer for a call of the node, once the calls have been collected. -/
theorem carryOut_timers [Transport τ] {choice : Choice κ} (lawful : LawfulPick pick)
    (chosen : l.choose pick = choice) :
    ∀ t ∈ (l.carryOut choice).1.timers, ∀ call, t.task = .node call → t ∈ l.timers := by
  intro t member call same
  cases choice with
  | command command queue =>
    have kept := execute_keeps { l with channel := { l.channel with queue } } command
    exact kept.timers t member call same
  | timer task timers =>
    have kept := runTask_keeps { l with timers } task
    exact (mem_of_timer lawful chosen).2 (kept.timers t member call same)
  | close | wait | idle => exact member

/-- Why a run ends when this is carried out, if it does. -/
def Choice.exit? : Choice κ → Option LoopExit
  | .command .shutdown _ => some .shutdown
  | .idle => some .idle
  | _ => none

/-- A turn ends a run only if it takes the command to shut down or finds nothing left to do. -/
theorem carryOut_exit? [Transport τ] (l : EventLoop κ τ) (choice : Choice κ) :
    (l.carryOut choice).2.2.exit? = choice.exit? := by
  cases choice with
  | command command queue =>
    cases command with
    | request request =>
      simp only [carryOut, execute]
      split <;> rfl
    | callLater delay callback =>
      simp only [carryOut, execute]
      split <;> rfl
    | stopWhen | countPending | flush | shutdown => rfl
  | timer task timers =>
    cases task with
    | processEvents =>
      simp only [carryOut, runTask]
      split
      · split <;> rfl
      · rfl
    | pollPredicate =>
      simp only [carryOut, runTask, rearmPoll]
      split
      · split
        · split <;> rfl
        · rfl
      · rfl
    | node | callback => rfl
  | close | wait | idle => rfl

theorem Choice.eq_of_command? {choice : Choice κ} {command : Command κ}
    (taken : choice.command? = some command) : ∃ queue, choice = .command command queue := by
  cases choice with
  | command other queue =>
    cases taken
    exact ⟨queue, rfl⟩
  | close | timer | wait | idle => cases taken

theorem Choice.exit?_eq_some_iff {choice : Choice κ} {exit : LoopExit} :
    choice.exit? = some exit ↔
      exit = .idle ∧ choice = .idle ∨ exit = .shutdown ∧ choice.command? = some .shutdown := by
  cases choice with
  | command command queue => cases command <;> simp [exit?, command?, eq_comm]
  | close | timer | wait | idle => simp [exit?, command?, eq_comm]

theorem turnBy_of_none [Transport τ] (overflow : l.armNodeCalls? = none) :
    l.turnBy pick = (l, [], .collapsed) := by
  rw [turnBy, overflow]

theorem turnBy_of_some [Transport τ] (armed : l.armNodeCalls? = some after) :
    l.turnBy pick = after.carryOut (after.choose pick) := by
  rw [turnBy, armed]

end EventLoop

namespace LoopSystem

variable {κ τ : Type} [Transport τ]

/-- A stage in which a loop took a turn and settled on something. -/
structure Settles (stage : Stage κ τ) (loop : EventLoop κ τ) (choice : EventLoop.Choice κ) :
    Prop where
  running : stage.before.phase = .running
  rest : stage.before.loop.engine.frames = []
  armed : stage.before.loop.armNodeCalls? = some loop
  chosen : ∃ pick, LawfulPick pick ∧ loop.choose pick = choice
  after : stage.after = stage.before.settle (loop.carryOut choice)
  events : stage.events = (loop.carryOut choice).2.1

/-- What a turn settles on it carries out. -/
theorem settles_of_settled? {stage : Stage κ τ} {loop : EventLoop κ τ}
    {choice : EventLoop.Choice κ} (step : stage.before.Step stage.move stage.events stage.after)
    (settled : settled? stage = some (loop, choice)) : Settles stage loop choice := by
  obtain ⟨before, move, events, after⟩ := stage
  change before.Step move events after at step
  cases step with
  | turn running rest lawful =>
    obtain ⟨collected, armed, same⟩ := Option.map_eq_some_iff.mp settled
    obtain ⟨rfl, chosen⟩ := Prod.mk.inj same
    refine ⟨running, rest, armed, ⟨_, lawful, chosen⟩, ?_, ?_⟩
    · rw [EventLoop.turnBy_of_some armed, chosen]
    · rw [EventLoop.turnBy_of_some armed, chosen]
  | queue | lower | announce | leave | begin | overflow | advance | resume | perform | pause | destroy
  | drift => cases settled

/-- A command is taken in a turn that settles on it. -/
theorem settles_of_taken? {stage : Stage κ τ} {command : Command κ}
    (step : stage.before.Step stage.move stage.events stage.after)
    (taken : taken? stage = some command) :
    ∃ loop queue, Settles stage loop (.command command queue) := by
  obtain ⟨⟨loop, choice⟩, settled, same⟩ := Option.bind_eq_some_iff.mp taken
  cases choice with
  | command other queue =>
    cases same
    exact ⟨loop, queue, settles_of_settled? step settled⟩
  | close | timer | wait | idle => cases same

end LoopSystem

end NamedData
