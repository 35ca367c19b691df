import NamedData.Proofs.Loop.Polling

/-!
When the next tick of event processing is armed.

A tick lets the node work through the elements that have come in, and while callbacks run time passes. A
loop arms the next tick before this work. To arm it only after the work makes no difference but for the
deadline, which is then later by the time that has passed meanwhile (`next_tick_differs_in_its_deadline`): as long
as its node works a loop leaves the timers alone (`AtWork.step`).
-/
namespace NamedData

open EventLoop (Tidy)

/-- A tick that can arm the next one leaves the node with its elements to read. -/
theorem EventLoop.runTask_of_tick {κ τ : Type} {l : EventLoop κ τ} (active : l.channel.active = true)
    (goesOn : (l.runTask .processEvents).2.2.phase = .running) :
    ∃ next, l.engine.host.now.add? l.engine.node.config.processEventsInterval = some next ∧
      (l.runTask .processEvents).1 =
        { l with engine := l.engine.push .reading, timers := l.timers ++ [⟨next, .processEvents⟩] } := by
  rw [runTask, if_pos active] at goesOn ⊢
  cases timed : l.arm? l.engine.node.config.processEventsInterval .processEvents with
  | none =>
    rw [timed] at goesOn
    cases goesOn
  | some armed =>
    obtain ⟨next, shown, rfl⟩ := Option.map_eq_some_iff.mp timed
    exact ⟨next, shown, rfl⟩

namespace LoopSystem

variable {κ τ : Type} [Transport τ] {s start after : LoopSystem κ τ}

/-- A loop that has let its node work. -/
structure AtWork (s : LoopSystem κ τ) : Prop where
  running : s.phase = .running
  own : s.loop.engine.Own

/-- As long as its node works a loop is not left, and arms and runs nothing. -/
theorem AtWork.step {move : LoopMove κ} {events : List (Event κ)} (works : s.AtWork)
    (busy : s.loop.engine.frames ≠ []) (step : s.Step move events after) :
    after.AtWork ∧ after.loop.timers = s.loop.timers := by
  obtain ⟨running, own⟩ := works
  cases step with
  | queue other face =>
    obtain ⟨channel, handed⟩ := handOff_eq s _
    rw [handed]
    exact ⟨⟨running, own⟩, rfl⟩
  | announce closing =>
    obtain ⟨channel, handed⟩ := handOff_eq s .shutdown
    rw [handed]
    exact ⟨⟨running, own⟩, rfl⟩
  | lower | leave | drift => exact ⟨⟨running, own⟩, rfl⟩
  | begin parked | overflow parked => cases running.symm.trans parked
  | turn running rest | pause running rest => exact absurd rest busy
  | advance running advanced => exact ⟨⟨running, (Engine.advance_owns own advanced).frames⟩, rfl⟩
  | @resume call result running inside =>
    obtain ⟨outer, frames⟩ := Engine.frames_of_current? inside
    have mine : call.ofNode = true := own (.inside call) (frames ▸ List.mem_cons_self)
    have owns := Engine.resume_owns own (result.map fun _ => ())
    rw [EventLoop.resume_of_mine inside mine result]
    exact ⟨⟨rfl, owns.frames⟩, rfl⟩
  | @perform call operation running inside =>
    exact ⟨⟨running, (Engine.perform_owns own operation).frames⟩, rfl⟩
  | destroy idle => exact absurd running idle

variable {tick : Stage κ τ} {past work : List (Stage κ τ)}
variable {config : FaceConfig} {format : WireFormat} {transport : τ} {host : Host}
variable {loop : EventLoop κ τ} {timers : List (Timer κ)}

/-- A tick arms the next one and lets the node work, unless a face has been shut down or the clock
overflows. -/
theorem AtWork.of_tick (step : tick.before.Step tick.move tick.events tick.after)
    (settled : settled? tick = some (loop, .timer .processEvents timers))
    (active : loop.channel.active = true) (goesOn : tick.after.phase = .running) :
    tick.after.AtWork ∧ ∃ next,
      tick.before.now.add? tick.before.loop.engine.node.config.processEventsInterval = some next ∧
      tick.after.loop.timers = timers ++ [⟨next, .processEvents⟩] := by
  obtain ⟨running, rest, armed, chosen, same, -⟩ := settles_of_settled? step settled
  have engine := EventLoop.engine_of_armNodeCalls? armed
  rw [same] at goesOn ⊢
  obtain ⟨next, shown, ticked⟩ := EventLoop.runTask_of_tick (l := { loop with timers }) active goesOn
  have reads : (settle tick.before (loop.carryOut (.timer .processEvents timers))).loop = _ := ticked
  rw [engine] at shown
  refine ⟨⟨goesOn, ?_⟩, next, shown, congrArg EventLoop.timers reads⟩
  rw [reads, engine]
  exact List.forall_mem_cons.mpr ⟨rfl, Tidy.own_of_rest rest⟩

/-- So it is until the work is done. -/
theorem Run.atWork (run : start.Run (past ++ tick :: work) s) (clock : Forward (past ++ tick :: work))
    (works : tick.after.AtWork) (busy : ∀ stage ∈ work, stage.before.loop.engine.frames ≠ []) :
    s.AtWork ∧ s.loop.timers = tick.after.loop.timers ∧ tick.before.now ≤ s.now := by
  rw [List.append_cons] at run clock
  revert busy clock
  apply run.since
  · intro mid begun clock _
    obtain ⟨-, -, rfl⟩ := begun.of_concat
    exact ⟨works, rfl, clock tick (by simp)⟩
  · intro later stage _ step ih clock busy
    obtain ⟨works, same, passed⟩ := ih (fun other member => clock other (by simp at member ⊢; tauto))
      fun other member => busy other (List.mem_append_left _ member)
    obtain ⟨still, left⟩ := works.step (busy stage (by simp)) step
    exact ⟨still, left.trans same, Nat.le_trans passed (clock stage (by simp))⟩

/-- **Whether the next tick is armed before the work of the node or after it makes no difference but for
its deadline.** As long as the node works all timers stay as they are, so the tick that would be armed only
now would stand in the same place, and it would be due later by the time that has passed meanwhile. -/
theorem next_tick_differs_in_its_deadline (opened : open? config format transport host = some start)
    (run : start.Run (past ++ tick :: work) s) (clock : Forward (past ++ tick :: work))
    (settled : settled? tick = some (loop, .timer .processEvents timers))
    (active : loop.channel.active = true) (goesOn : tick.after.phase = .running)
    (busy : ∀ stage ∈ work, stage.before.loop.engine.frames ≠ []) :
    ∃ next, s.loop.timers = timers ++ [⟨next, .processEvents⟩] ∧
      ∀ late, EventLoop.arm? { s.loop with timers } s.loop.engine.node.config.processEventsInterval
          .processEvents = some late →
        ∃ deadline, late = { s.loop with timers := timers ++ [⟨deadline, .processEvents⟩] } ∧
          deadline.nanos = next.nanos + (s.now.nanos - tick.before.now.nanos) := by
  obtain ⟨upTo, step⟩ := run.at_stage
  obtain ⟨works, next, shown, armed⟩ := AtWork.of_tick step settled active goesOn
  obtain ⟨-, same, passed⟩ := Run.atWork run clock works busy
  refine ⟨next, same.trans armed, fun late timed => ?_⟩
  obtain ⟨deadline, later, rfl⟩ := Option.map_eq_some_iff.mp timed
  refine ⟨deadline, rfl, ?_⟩
  have configured : s.loop.engine.node.config = tick.before.loop.engine.node.config :=
    (Run.configured opened run).trans (Run.configured opened upTo).symm
  have first := Instant.nanos_of_add? shown
  have second := Instant.nanos_of_add? later
  rw [Instant.le_def] at passed
  rw [configured] at second
  change deadline.nanos = s.now.nanos + _ at second
  omega

end LoopSystem

end NamedData
