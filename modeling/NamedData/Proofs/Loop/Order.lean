import NamedData.Proofs.Loop.Turn

/-!
The order in which an event loop executes commands.

At every point of a run the commands that were queued are those that were executed, followed by those
that still wait, in this order (`LoopSystem.Orderly`). The loop takes a timer only when none waits.
-/
namespace NamedData.LoopSystem

open EventLoop (Keeps SameQueue)

variable {κ τ : Type} {start s : LoopSystem κ τ} {stage : Stage κ τ}
variable {stages past future : List (Stage κ τ)}

theorem executed_concat (stages : List (Stage κ τ)) (stage : Stage κ τ) :
    executed (stages ++ [stage]) = executed stages ++ (taken? stage).toList := by
  rw [executed, List.filterMap_append]
  cases found : taken? stage <;> simp [executed, found]

theorem queued_concat (stages : List (Stage κ τ)) (stage : Stage κ τ) :
    queued (stages ++ [stage]) = queued stages ++ (queued? stage).toList := by
  rw [queued, List.filterMap_append]
  cases found : queued? stage <;> simp [queued, found]

/-- A loop that has just been made has armed its event processing. -/
theorem eq_of_open? {config : FaceConfig} {format : WireFormat} {transport : τ} {host : Host}
    (opened : open? config format transport host = some start) :
    ∃ deadline, start = { loop := {
      engine := { node := { config, format, scheduler := {} }, transport, host }
      timers := [{ deadline, task := .processEvents }] } } := by
  obtain ⟨loop, started, rfl⟩ := Option.map_eq_some_iff.mp opened
  obtain ⟨deadline, rfl⟩ := EventLoop.eq_of_arm? started
  exact ⟨deadline, rfl⟩

/-- Queueing a command changes the channel only. -/
theorem handOff_eq (s : LoopSystem κ τ) (command : Command κ) :
    ∃ channel, s.handOff command = s.withChannel channel := by
  rw [handOff]
  split
  · next channel handed => exact ⟨channel, rfl⟩
  · exact ⟨s.loop.channel, rfl⟩

/-- What is true of the queue at every point of a run. -/
structure Orderly (stages : List (Stage κ τ)) (s : LoopSystem κ τ) : Prop where
  /-- The loop has seen the end of the queue only after the last face was gone. -/
  closed : s.loop.commandsOpen = false → s.loop.channel.hasFace = false ∧ s.loop.channel.queue = []
  /-- A face that is being shut down still exists. -/
  closing : s.closing = true → s.loop.channel.hasFace = true
  /-- Only a loop that is gone does not receive commands. -/
  gone : s.loop.channel.hasLoop = false → s.phase = .dead
  /-- Commands are lost only with the loop. -/
  fifo : ∃ lost, queued stages = executed stages ++ s.loop.channel.queue ++ lost ∧
    (s.loop.channel.hasLoop = true → lost = [])

namespace Orderly

/-- A loop that runs exists. -/
theorem hasLoop_of_running (orderly : Orderly stages s) (running : s.phase = .running) :
    s.loop.channel.hasLoop = true := by
  rw [← Bool.not_eq_false]
  intro gone
  exact absurd (running.symm.trans (orderly.gone gone)) (by decide)

/-- While a loop runs no command is lost. -/
theorem queued_eq (orderly : Orderly stages s) (running : s.phase = .running) :
    queued stages = executed stages ++ s.loop.channel.queue := by
  obtain ⟨lost, split, kept⟩ := orderly.fifo
  rw [split, kept (orderly.hasLoop_of_running running), List.append_nil]

theorem fifo_of_eq (orderly : Orderly stages stage.before) (silent : queued? stage = none)
    (untaken : taken? stage = none)
    (queue : stage.after.loop.channel.queue = stage.before.loop.channel.queue)
    (hasLoop : stage.after.loop.channel.hasLoop = stage.before.loop.channel.hasLoop) :
    ∃ lost, queued (stages ++ [stage]) =
        executed (stages ++ [stage]) ++ stage.after.loop.channel.queue ++ lost ∧
      (stage.after.loop.channel.hasLoop = true → lost = []) := by
  rw [queued_concat, executed_concat, silent, untaken, queue, hasLoop]
  simpa using orderly.fifo

/-- Steps in which no command is queued or taken keep the order. -/
theorem keep (orderly : Orderly stages stage.before) (silent : queued? stage = none)
    (untaken : taken? stage = none) (keeps : SameQueue stage.before.loop stage.after.loop)
    (closing : stage.after.closing = stage.before.closing)
    (alive : stage.before.phase = .dead → stage.after.phase = .dead) :
    Orderly (stages ++ [stage]) stage.after where
  closed := by
    rw [keeps.commandsOpen, keeps.hasFace, keeps.queue]
    exact orderly.closed
  closing := by
    rw [closing, keeps.hasFace]
    exact orderly.closing
  gone := by
    rw [keeps.hasLoop]
    exact fun gone => alive (orderly.gone gone)
  fifo := orderly.fifo_of_eq silent untaken keeps.queue keeps.hasLoop

/-- A command that is queued goes behind the others. -/
theorem handOff {command : Command κ} {closing : Bool} (orderly : Orderly stages stage.before)
    (queued : queued? stage =
      if stage.before.loop.channel.hasLoop then some command else none)
    (untaken : taken? stage = none) (face : stage.before.loop.channel.hasFace = true)
    (after : stage.after = { stage.before.handOff command with closing }) :
    Orderly (stages ++ [stage]) stage.after := by
  obtain ⟨lost, split, kept⟩ := orderly.fifo
  rw [after]
  cases there : stage.before.loop.channel.hasLoop with
  | false =>
    rw [there] at queued
    have same : stage.before.handOff command = stage.before := by
      simp [LoopSystem.handOff, Channel.handOff, there]
    rw [same]
    refine ⟨orderly.closed, fun _ => face, orderly.gone, lost, ?_, kept⟩
    simpa [queued_concat, executed_concat, queued, untaken] using split
  | true =>
    rw [there] at queued
    have opened : stage.before.loop.commandsOpen ≠ false := by
      intro shut
      rw [(orderly.closed shut).1] at face
      cases face
    have handed : stage.before.handOff command = stage.before.withChannel
        { stage.before.loop.channel with
          queue := stage.before.loop.channel.queue ++ [command] } := by
      simp [LoopSystem.handOff, Channel.handOff, there]
    rw [handed]
    refine ⟨fun shut => absurd shut opened, fun _ => face, ?_, [], ?_, fun _ => rfl⟩
    · intro gone
      change stage.before.loop.channel.hasLoop = false at gone
      rw [there] at gone
      cases gone
    · rw [queued_concat, executed_concat, queued, untaken, split, kept there]
      simp [withChannel]

variable [Transport τ]

section turns

variable {pick : List (Timer κ) → Option (Timer κ × List (Timer κ))} {loop : EventLoop κ τ}

/-- A command that is executed is taken from the head of the queue. -/
theorem execute {command : Command κ} {queue : List (Command κ)} (orderly : Orderly stages stage.before)
    (silent : queued? stage = none) (running : stage.before.phase = .running)
    (same : SameQueue stage.before.loop loop) (chosen : loop.choose pick = .command command queue)
    (taken : taken? stage = some command)
    (after : stage.after = stage.before.settle (loop.carryOut (.command command queue))) :
    Orderly (stages ++ [stage]) stage.after := by
  have there := orderly.hasLoop_of_running running
  obtain ⟨opened, waiting⟩ := EventLoop.queue_of_command chosen
  have ran := EventLoop.execute_keeps { loop with channel := { loop.channel with queue } } command
  obtain ⟨lost, split, kept⟩ := orderly.fifo
  rw [after]
  refine ⟨?_, ?_, ?_, lost, ?_, ?_⟩
  · intro shut
    exact absurd (opened.symm.trans (ran.commandsOpen.symm.trans shut)) (by decide)
  · intro closing
    exact (ran.hasFace.trans same.hasFace).trans (orderly.closing closing)
  · intro gone
    exact absurd ((ran.hasLoop.trans (same.hasLoop.trans there)).symm.trans gone) (by decide)
  · rw [queued_concat, executed_concat, silent, taken, split, ← same.queue, waiting]
    change _ = _ ++ ((EventLoop.execute _ command).1).channel.queue ++ lost
    rw [ran.queue]
    simp
  · exact fun _ => kept there

/-- The end of the queue is seen when no face is left. -/
theorem close (orderly : Orderly stages stage.before) (silent : queued? stage = none)
    (running : stage.before.phase = .running) (same : SameQueue stage.before.loop loop)
    (chosen : loop.choose pick = .close) (untaken : taken? stage = none)
    (after : stage.after = stage.before.settle (loop.carryOut .close)) :
    Orderly (stages ++ [stage]) stage.after := by
  have there := orderly.hasLoop_of_running running
  obtain ⟨opened, faceless⟩ := EventLoop.hasFace_of_close chosen
  have empty := EventLoop.queue_eq_nil chosen (by simp) opened
  have order := orderly.fifo_of_eq silent untaken (by rw [after]; exact same.queue)
    (by rw [after]; exact same.hasLoop)
  rw [after] at order ⊢
  refine ⟨fun _ => ⟨faceless, empty⟩, ?_, ?_, order⟩
  · intro closing
    exact same.hasFace.trans (orderly.closing closing)
  · intro gone
    exact absurd ((same.hasLoop.trans there).symm.trans gone) (by decide)

/-- A turn takes a command from the head of the queue, or none. -/
theorem turn (orderly : Orderly stages stage.before) (move : stage.move = .turn pick)
    (running : stage.before.phase = .running)
    (after : stage.after = stage.before.settle (stage.before.loop.turnBy pick)) :
    Orderly (stages ++ [stage]) stage.after := by
  have silent : queued? stage = none := by rw [queued?, move]
  have alive : stage.before.phase = .dead → stage.after.phase = .dead := by
    intro dead
    exact absurd (running.symm.trans dead) (by decide)
  cases armed : stage.before.loop.armNodeCalls? with
  | none =>
    have untaken : taken? stage = none := by
      simp only [taken?, settled?, move, armed, Option.map, Option.bind]
    rw [EventLoop.turnBy_of_none armed] at after
    apply orderly.keep silent untaken _ _ alive
    · rw [after]
      exact ⟨rfl, rfl, rfl, rfl⟩
    · rw [after]
      rfl
  | some loop =>
    have takes : taken? stage = (loop.choose pick).command? := by
      simp only [taken?, settled?, move, armed, Option.map, Option.bind]
    have same := EventLoop.sameQueue_of_armNodeCalls? armed
    rw [EventLoop.turnBy_of_some armed] at after
    cases chosen : loop.choose pick with
    | command command queue =>
      rw [chosen] at after takes
      exact orderly.execute silent running same chosen takes after
    | close =>
      rw [chosen] at after takes
      exact orderly.close silent running same chosen takes after
    | timer task timers =>
      rw [chosen] at after takes
      have ran := EventLoop.runTask_keeps { loop with timers } task
      apply orderly.keep silent takes _ _ alive
      · rw [after]
        exact same.trans ⟨ran.queue, ran.hasFace, ran.hasLoop, ran.commandsOpen⟩
      · rw [after]
        rfl
    | wait | idle =>
      rw [chosen] at after takes
      apply orderly.keep silent takes _ _ alive
      · rw [after]
        exact same
      · rw [after]
        rfl

end turns

/-- Every step keeps the order. -/
theorem step (orderly : Orderly stages stage.before)
    (step : stage.before.Step stage.move stage.events stage.after) :
    Orderly (stages ++ [stage]) stage.after := by
  obtain ⟨before, move, events, after⟩ := stage
  change before.Step move events after at step
  cases step with
  | queue other face => exact orderly.handOff rfl rfl face rfl
  | lower face active =>
    exact ⟨orderly.closed, fun _ => face, orderly.gone, orderly.fifo_of_eq rfl rfl rfl rfl⟩
  | announce closing => exact orderly.handOff rfl rfl (orderly.closing closing) rfl
  | leave face closing =>
    refine ⟨fun shut => ⟨rfl, (orderly.closed shut).2⟩, ?_, orderly.gone,
      orderly.fifo_of_eq rfl rfl rfl rfl⟩
    intro still
    exact absurd (closing.symm.trans still) (by decide)
  | begin parked begun =>
    refine orderly.keep rfl rfl (EventLoop.begin?_keeps begun).toSameQueue rfl ?_
    intro dead
    exact absurd (parked.symm.trans dead) (by decide)
  | overflow => exact orderly.keep rfl rfl ⟨rfl, rfl, rfl, rfl⟩ rfl fun _ => rfl
  | turn running rest lawful => exact orderly.turn rfl running rfl
  | advance | perform | drift => exact orderly.keep rfl rfl ⟨rfl, rfl, rfl, rfl⟩ rfl id
  | resume running inside =>
    refine orderly.keep rfl rfl (EventLoop.resume_keeps _ _).toSameQueue rfl ?_
    intro dead
    exact absurd (running.symm.trans dead) (by decide)
  | pause running rest =>
    refine orderly.keep rfl rfl ⟨rfl, rfl, rfl, rfl⟩ rfl ?_
    intro dead
    exact absurd (running.symm.trans dead) (by decide)
  | destroy idle =>
    obtain ⟨lost, split, -⟩ := orderly.fifo
    refine ⟨fun shut => ⟨(orderly.closed shut).1, rfl⟩, orderly.closing, fun _ => rfl,
      before.loop.channel.queue ++ lost, ?_, ?_⟩
    · rw [queued_concat, executed_concat, split]
      simp [queued?, taken?, settled?, withChannel, Channel.dropLoop]
    · intro there
      cases there

end Orderly

variable [Transport τ]

/-- Every run of a loop and its faces is orderly. -/
theorem Run.orderly {config : FaceConfig} {format : WireFormat} {transport : τ} {host : Host}
    (opened : open? config format transport host = some start) (run : start.Run stages s) :
    Orderly stages s := by
  apply run.invariant
  · obtain ⟨deadline, rfl⟩ := eq_of_open? opened
    exact ⟨by simp, by simp, by simp, [], rfl, fun _ => rfl⟩
  · intro past stage _ step orderly
    exact orderly.step step

/-- A timer is taken only when no command waits. -/
theorem Orderly.queue_of_timer {loop : EventLoop κ τ} {task : Task κ} {timers : List (Timer κ)}
    (orderly : Orderly past stage.before) (settles : Settles stage loop (.timer task timers)) :
    stage.before.loop.channel.queue = [] := by
  have same := EventLoop.sameQueue_of_armNodeCalls? settles.armed
  cases opened : stage.before.loop.commandsOpen with
  | false => exact (orderly.closed opened).2
  | true =>
    obtain ⟨pick, -, chosen⟩ := settles.chosen
    rw [← same.queue]
    exact EventLoop.queue_eq_nil chosen (by simp) (same.commandsOpen.trans opened)

/-- Only running the loop makes it run. -/
theorem Step.idle {after : LoopSystem κ τ} {move : LoopMove κ} {events : List (Event κ)}
    (step : s.Step move events after) (idle : s.phase ≠ .running) (other : move ≠ .begin) :
    after.phase ≠ .running := by
  cases step with
  | begin | overflow => exact absurd rfl other
  | turn running | advance running | resume running | perform running | pause running =>
    exact absurd running idle
  | queue | announce =>
    obtain ⟨channel, same⟩ := handOff_eq s _
    rw [same]
    exact idle
  | lower | leave | drift => exact idle
  | destroy => simp

/-- Between a shutdown and the next command the loop is run again. -/
theorem Run.begin_after_shutdown {before mid : List (Stage κ τ)} {first later : Stage κ τ}
    {command : Command κ}
    (run : start.Run (before ++ first :: mid ++ later :: future) s)
    (shut : taken? first = some .shutdown) (taken : taken? later = some command) :
    ∃ stage ∈ mid, stage.move = .begin := by
  obtain ⟨upTo, step⟩ := run.at_stage
  obtain ⟨_, _, settles⟩ := settles_of_taken? step taken
  have running := settles.running
  rw [List.append_cons] at upTo
  have begun : ∀ {state : LoopSystem κ τ}, start.Run (before ++ [first] ++ mid) state →
      (∃ stage ∈ mid, stage.move = .begin) ∨ state.phase ≠ .running := by
    intro state upTo
    apply upTo.since
    · intro state through
      obtain ⟨-, shutting, rfl⟩ := through.of_concat
      obtain ⟨_, _, shuts⟩ := settles_of_taken? shutting shut
      rw [shuts.after]
      exact .inr (by simp [settle, EventLoop.carryOut, EventLoop.execute, Turn.phase])
    · intro stages stage _ step earlier
      rcases earlier with ⟨other, member, begins⟩ | idle
      · exact .inl ⟨other, List.mem_append_left _ member, begins⟩
      · by_cases begins : stage.move = .begin
        · exact .inl ⟨stage, List.mem_append_right _ (List.mem_singleton_self _), begins⟩
        · exact .inr (step.idle idle begins)
  exact (begun upTo).resolve_right fun idle => idle running

end NamedData.LoopSystem
