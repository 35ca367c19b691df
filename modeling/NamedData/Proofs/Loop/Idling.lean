import NamedData.Proofs.Loop.Resting

/-!
Loops that have nothing left to do.

A run of a loop ends for want of work when a turn finds no timer armed and the queue at its end. To drop
the faces is not enough for that: as long as none of them has been shut down, event processing stays armed.
So a loop that idles has been shut down, has executed every command and has run every errand
(`idle_when_nothing_is_left`).
-/
namespace NamedData

namespace EventLoop

variable {κ τ : Type} {l after : EventLoop κ τ}

/-- A loop without timers has found nothing in the outbox of its node. -/
theorem unboxed_of_unarmed (armed : l.armNodeCalls? = some after) (unarmed : after.timers = []) :
    l.engine.node.scheduler.calls = [] := by
  cases boxed : l.engine.node.scheduler.calls with
  | nil => rfl
  | cons call calls =>
    rw [armNodeCalls?, boxed, armCalls?] at armed
    split at armed
    · cases armed
    · next first =>
      obtain ⟨deadline, rfl⟩ := eq_of_arm? first
      obtain ⟨timers, rfl, -⟩ := eq_of_armCalls? armed
      simp at unarmed

end EventLoop

namespace LoopSystem

variable {κ τ : Type} [Transport τ] {s after start : LoopSystem κ τ}
variable {stage : Stage κ τ} {stages past future : List (Stage κ τ)}

/-! ## Faces that have not been shut down -/

/-- No face is being shut down, or has been. -/
structure Unshut (s : LoopSystem κ τ) : Prop where
  active : s.loop.channel.active = true
  closing : s.closing = false
  queue : .shutdown ∉ s.loop.channel.queue

omit [Transport τ] in
theorem Unshut.handOff {command : Command κ} (unshut : Unshut s) (other : command ≠ .shutdown) :
    Unshut (s.handOff command) := by
  rw [LoopSystem.handOff, Channel.handOff]
  cases there : s.loop.channel.hasLoop with
  | false => exact unshut
  | true =>
    refine ⟨unshut.active, unshut.closing, ?_⟩
    simpa [withChannel, unshut.queue] using other.symm

theorem Unshut.turn {pick : List (Timer κ) → Option (Timer κ × List (Timer κ))} (unshut : Unshut s) :
    Unshut (s.settle (s.loop.turnBy pick)) := by
  suffices kept : (s.loop.turnBy pick).1.channel.active = true ∧
      .shutdown ∉ (s.loop.turnBy pick).1.channel.queue from ⟨kept.1, unshut.closing, kept.2⟩
  cases armed : s.loop.armNodeCalls? with
  | none =>
    rw [EventLoop.turnBy_of_none armed]
    exact ⟨unshut.active, unshut.queue⟩
  | some loop =>
    have channel := EventLoop.channel_of_armNodeCalls? armed
    have active : loop.channel.active = true := by
      rw [channel]
      exact unshut.active
    have queued : .shutdown ∉ loop.channel.queue := by
      rw [channel]
      exact unshut.queue
    rw [EventLoop.turnBy_of_some armed]
    cases chosen : loop.choose pick with
    | command command queue =>
      rw [(EventLoop.queue_of_command chosen).2, List.mem_cons, not_or] at queued
      rw [EventLoop.carryOut, EventLoop.execute_channel]
      · exact ⟨active, queued.2⟩
      · intro exited
        have exits := EventLoop.carryOut_exit? loop (.command command queue)
        rw [EventLoop.carryOut, exited] at exits
        have shuts := EventLoop.Choice.exit?_eq_some_iff.mp exits.symm
        simp only [reduceCtorEq, false_and, true_and, false_or] at shuts
        exact queued.1 (Option.some.inj shuts).symm
    | timer task timers =>
      rw [EventLoop.carryOut, EventLoop.runTask_channel]
      exact ⟨active, queued⟩
    | close | wait | idle => exact ⟨active, queued⟩

/-- That changes only when a face clears the flag. -/
theorem Step.unshut {move : LoopMove κ} {events : List (Event κ)} (step : s.Step move events after)
    (unshut : Unshut s) (other : move ≠ .lower) : Unshut after := by
  cases step with
  | queue command => exact unshut.handOff command
  | lower => exact absurd rfl other
  | announce closing => exact absurd (closing.symm.trans unshut.closing) (by decide)
  | begin parked begun =>
    have channel := EventLoop.channel_of_begin? begun
    refine ⟨?_, unshut.closing, ?_⟩
    · rw [channel]
      exact unshut.active
    · rw [channel]
      exact unshut.queue
  | turn => exact unshut.turn
  | @resume call result running inside =>
    have channel := EventLoop.resume_channel s.loop result
    refine ⟨?_, unshut.closing, ?_⟩
    · rw [settle, channel]
      exact unshut.active
    · rw [settle, channel]
      exact unshut.queue
  | destroy => exact ⟨unshut.active, unshut.closing, List.not_mem_nil⟩
  | leave | overflow | advance | perform | pause | drift =>
    exact ⟨unshut.active, unshut.closing, unshut.queue⟩

theorem Run.unshut (run : start.Run stages s) (unshut : Unshut start)
    (other : ∀ stage ∈ stages, stage.move ≠ .lower) : Unshut s := by
  revert other
  apply run.invariant
  · exact fun _ => unshut
  · intro past stage _ step ih other
    exact step.unshut (ih fun earlier member => other earlier (List.mem_append_left _ member))
      (other stage (by simp))

/-! ## Loops with nothing left to do -/

variable {config : FaceConfig} {format : WireFormat} {transport : τ} {host : Host}

/-- Nothing is left to do, at some point of a run. -/
structure Spent (stages : List (Stage κ τ)) (s : LoopSystem κ τ) : Prop where
  /-- No face is left, and one has been shut down. -/
  faceless : s.loop.channel.hasFace = false
  lowered : ∃ stage ∈ stages, stage.move = .lower
  inactive : s.loop.channel.active = false
  /-- Every command that was queued has been executed. -/
  executed : s.loop.channel.queue = [] ∧ executed stages = queued stages
  /-- No timer is armed for anything, and no call of the node waits to be armed. -/
  unarmed : s.loop.timers = []
  boxed : s.loop.engine.node.scheduler.calls = []
  /-- Nothing is in progress. -/
  rest : s.loop.engine.frames = []

/-- A loop that finds nothing to do has nothing left to do. -/
theorem Spent.of_idle {loop : EventLoop κ τ} (opened : open? config format transport host = some start)
    (run : start.Run past stage.before) (settles : Settles stage loop .idle) :
    stage.before.loop.commandsOpen = false ∧ Spent past stage.before ∧
      stage.after = { stage.before with phase := .parked } := by
  obtain ⟨pick, lawful, chosen⟩ := settles.chosen
  obtain ⟨shut, unarmed⟩ := (EventLoop.choose_eq_idle_iff lawful).mp chosen
  have boxed := EventLoop.unboxed_of_unarmed settles.armed unarmed
  obtain rfl : stage.before.loop = loop :=
    Option.some.inj ((EventLoop.armNodeCalls?_of_boxed boxed).symm.trans settles.armed)
  have orderly := Run.orderly opened run
  obtain ⟨faceless, queue⟩ := orderly.closed shut
  have alive : stage.before.phase ≠ .dead := by simp [settles.running]
  -- an active loop would have its event processing armed
  have inactive : stage.before.loop.channel.active = false := by
    rw [← Bool.not_eq_true]
    intro active
    have armed := (Run.attentive opened run).serviced.lasting alive active
    rw [unarmed] at armed
    cases armed
  refine ⟨shut, ?_, settles.after⟩
  constructor
  case faceless => exact faceless
  case lowered =>
    by_contra never
    have unshut : Unshut start := by
      obtain ⟨deadline, rfl⟩ := eq_of_open? opened
      exact ⟨rfl, rfl, List.not_mem_nil⟩
    have active := (run.unshut unshut fun stage member lowers => never ⟨stage, member, lowers⟩).active
    exact absurd (active.symm.trans inactive) (by decide)
  case inactive => exact inactive
  case executed =>
    refine ⟨queue, ?_⟩
    rw [orderly.queued_eq settles.running, queue, List.append_nil]
  case unarmed => exact unarmed
  case boxed => exact boxed
  case rest => exact settles.rest

omit [Transport τ] in
/-- To end the run changes nothing about that. -/
theorem Spent.park {loop : EventLoop κ τ} (spent : Spent past stage.before)
    (settled : settled? stage = some (loop, .idle))
    (same : stage.after = { stage.before with phase := .parked }) :
    Spent (past ++ [stage]) stage.after := by
  have untaken : taken? stage = none := by
    rw [taken?, settled]
    rfl
  have silent : queued? stage = none := by
    rw [settled?] at settled
    split at settled
    · next move => rw [queued?, move]
    · cases settled
  rw [same]
  constructor
  case faceless => exact spent.faceless
  case lowered =>
    obtain ⟨earlier, member, lowers⟩ := spent.lowered
    exact ⟨earlier, List.mem_append_left _ member, lowers⟩
  case inactive => exact spent.inactive
  case executed =>
    rw [executed_concat, queued_concat, silent, untaken, spent.executed.2]
    exact ⟨spent.executed.1, rfl⟩
  case unarmed => exact spent.unarmed
  case boxed => exact spent.boxed
  case rest => exact spent.rest

/-- What a loop with nothing left to do was to do later has been done. -/
theorem Spent.errands (opened : open? config format transport host = some start)
    (run : start.Run stages s) (spent : Spent stages s) (alive : s.phase ≠ .dead)
    (clock : Forward stages) :
    ((stages.flatMap given).map (·.task)).Perm ((stages.flatMap invoked).map (·.1)) := by
  obtain ⟨waiting, boxed, armed, finished, accounts⟩ :=
    (errands_are_done_once opened run clock).whole alive
  refine accounts.perm_of_empty ⟨?_, spent.boxed, ?_⟩
  · rw [backlog, EventLoop.backlog, spent.executed.1]
    rfl
  · rw [backlog, EventLoop.backlog, spent.unarmed]
    rfl

/-- **A loop idles only when nothing is left to do.** A run ends for want of work exactly if a turn is
taken after the loop has seen the end of its queue and nothing is left to do: every face is gone and one of
them has been shut down, every command that was queued has been executed, and no timer is armed or waits to
be armed. So it never ends that way before a face has been shut down, though all of them may be gone. Nothing
changes when it does, so what was armed has been run and nothing is abandoned. -/
theorem idle_when_nothing_is_left (opened : open? config format transport host = some start)
    (run : start.Run (past ++ stage :: future) s) :
    (exit? stage = some .idle ↔ (∃ pick, stage.move = .turn pick) ∧
      stage.before.loop.commandsOpen = false ∧ Spent past stage.before) ∧
    (exit? stage = some .idle →
      Spent (past ++ [stage]) stage.after ∧ stage.after = { stage.before with phase := .parked } ∧
      (Forward (past ++ [stage]) → (((past ++ [stage]).flatMap given).map (·.task)).Perm
        (((past ++ [stage]).flatMap invoked).map (·.1)))) := by
  obtain ⟨upTo, step⟩ := run.at_stage
  rw [exit?_eq_idle_iff]
  refine ⟨⟨?leaves, ?stays⟩, ?left⟩
  case leaves =>
    rintro ⟨loop, settled⟩
    obtain ⟨shut, spent, -⟩ := Spent.of_idle opened upTo (settles_of_settled? step settled)
    refine ⟨?_, shut, spent⟩
    rw [settled?] at settled
    split at settled
    · next pick move => exact ⟨pick, move⟩
    · cases settled
  case stays =>
    rintro ⟨⟨pick, move⟩, shut, spent⟩
    generalize stage.events = events, stage.after = after at step
    rw [move] at step
    cases step with
    | turn running rest lawful =>
      have collected := EventLoop.armNodeCalls?_of_boxed spent.boxed
      refine ⟨stage.before.loop, ?_⟩
      rw [settled?, move]
      simp only [collected, Option.map_some, Option.some.injEq, Prod.mk.injEq, true_and]
      exact (EventLoop.choose_eq_idle_iff lawful).mpr ⟨shut, spent.unarmed⟩
  case left =>
    rintro ⟨loop, settled⟩
    have settles := settles_of_settled? step settled
    obtain ⟨-, spent, same⟩ := Spent.of_idle opened upTo settles
    have spent := spent.park settled same
    exact ⟨spent, same, spent.errands opened run.through (by simp [same])⟩

/-- A face wants a callback after a millisecond, is shut down and dropped. The loop leaves its run when it
takes the command to shut down, and idles when it is run again and has called back. -/
theorem called_back_before_it_idles :
    ∃ (past : List (Stage Unit Sink)) (stage : Stage Unit Sink),
      open? {} Engine.untouched.node.format {} Engine.untouched.host = some atRest ∧
      atRest.Run (past ++ stage :: []) stage.after ∧
      (past ++ [stage]).filterMap exit? = [.shutdown, .idle] ∧
      (past ++ [stage]).flatMap invoked = [(.callback (), ⟨1000000⟩)] ∧
      Spent (past ++ [stage]) stage.after := by
  have opened : open? {} Engine.untouched.node.format {} Engine.untouched.host = some atRest := rfl
  have begins : atRest.Run [] atRest := .start
  have delayed := begins.extend <| show atRest.Step (.queue (.callLater (.ofMillis 1) ())) [] _ from
    .queue (by simp) rfl
  have lowered := delayed.extend (.lower rfl rfl)
  have announced := lowered.extend (.announce rfl)
  have dropped := announced.extend (.leave rfl rfl)
  have running := dropped.extend (.begin rfl rfl)
  have armed := running.extend (.turn rfl rfl lawfulPick_takeFirst)
  have shut := armed.extend (.turn rfl rfl lawfulPick_takeFirst)
  have again := shut.extend (.begin rfl rfl)
  have closed := again.extend (.turn rfl rfl lawfulPick_takeFirst)
  have processed := closed.extend (.turn rfl rfl lawfulPick_takeFirst)
  have later := processed.extend <| show LoopSystem.Step _ .drift [] (LoopSystem.withEngine _
      { LoopSystem.loop _ |>.engine with
        transport := {}, host := { Engine.untouched.host with now := ⟨1000000⟩ } }) from
    .drift ⟨Nat.le_refl _, fun _ member => by cases member⟩
  have called := later.extend (.turn rfl rfl lawfulPick_takeFirst)
  have returned := called.extend <| show LoopSystem.Step _ (.resume (.ok true)) _ _ from
    .resume rfl rfl
  have idle := returned.extend (.turn rfl rfl lawfulPick_takeFirst)
  exact ⟨_, _, opened, idle, rfl, rfl, ((idle_when_nothing_is_left opened idle).2 rfl).1⟩

end LoopSystem

end NamedData
