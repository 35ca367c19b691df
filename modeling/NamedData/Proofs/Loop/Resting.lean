import NamedData.Proofs.Loop.Shutdown
import NamedData.Proofs.Loop.Timers

/-!
Loops that are at rest.

A loop at rest takes the next command that waits (`EventLoop.Rests.next`). What a loop has under way is
always its node's, or it is one callback of the loop while nothing waits (`EventLoop.Orderly`); so when the
stop predicate ends a run the loop is at rest, and nothing waits (`EventLoop.Orderly.rests`).
-/
namespace NamedData.EventLoop

variable {κ τ : Type} {l after : EventLoop κ τ}

/-- A loop that has nothing under way and nothing in the outbox of its node, with its channel. -/
structure Rests (channel : Channel κ) (l : EventLoop κ τ) : Prop where
  frames : l.engine.frames = []
  boxed : l.engine.node.scheduler.calls = []
  commandsOpen : l.commandsOpen = true
  channel : l.channel = channel

/-- What is under way at a loop is its node's, or it is one callback of the loop, and then nothing waits
in the queue or in the outbox of the node. -/
def Orderly (l : EventLoop κ τ) : Prop :=
  l.engine.Own ∨ ∃ call, l.engine.frames = [.inside call] ∧ call.ofNode = false ∧
    l.engine.node.scheduler.calls = [] ∧ l.channel.queue = []

theorem Orderly.of_rest (rest : l.engine.frames = []) : l.Orderly := .inl (Tidy.own_of_rest rest)

/-- Whether a loop is orderly is a matter of what is under way and of what waits. -/
theorem Orderly.keep (orderly : l.Orderly) (frames : after.engine.frames = l.engine.frames)
    (boxed : after.engine.node.scheduler.calls = l.engine.node.scheduler.calls)
    (queue : after.channel.queue = l.channel.queue) : after.Orderly := by
  rw [Orderly, Engine.Own, frames, boxed, queue]
  exact orderly

theorem Orderly.tidy (orderly : l.Orderly) : Tidy l.engine :=
  orderly.imp_right fun ⟨call, frames, loops, _⟩ => ⟨call, frames, loops⟩

/-- A callback of the loop is alone. -/
theorem Orderly.alone {call : Call κ} (orderly : l.Orderly) (inside : l.engine.current? = some call)
    (loops : call.ofNode = false) :
    l.engine.frames = [.inside call] ∧ l.engine.node.scheduler.calls = [] ∧ l.channel.queue = [] := by
  have frames := orderly.tidy.frames_of_loops inside loops
  refine ⟨frames, ?_⟩
  rcases orderly with own | ⟨other, -, -, nothing⟩
  · have mine := own (.inside call) (frames ▸ List.mem_cons_self)
    exact absurd (mine.symm.trans loops) (by decide)
  · exact nothing

/-- A callback returns. -/
theorem Orderly.resume {call : Call κ} (orderly : l.Orderly) (inside : l.engine.current? = some call)
    (result : Except CallbackError Bool) : (l.resume result).1.Orderly := by
  cases mine : call.ofNode with
  | true =>
    have own := orderly.tidy.own_of_mine inside mine
    rw [resume_of_mine inside mine]
    exact .inl (Engine.resume_owns own _).frames
  | false =>
    refine .of_rest ?_
    rw [(resume_of_loops (orderly.alone inside mine).1 mine result).1]

/-- **When the answer to the stop predicate ends a run the loop is at rest, and nothing waits.** -/
theorem Orderly.rests {call : Call κ} {result : Except CallbackError Bool} {exit : LoopExit}
    (orderly : l.Orderly) (commandsOpen : l.commandsOpen = true)
    (inside : l.engine.current? = some call) (ended : (l.resume result).2.2 = .exited exit) :
    (l.resume result).1.Rests { l.channel with queue := [] } := by
  have loops : call.ofNode = false := by
    cases mine : call.ofNode with
    | false => rfl
    | true =>
      rw [resume_of_mine inside mine] at ended
      cases ended
  obtain ⟨frames, boxed, queue⟩ := orderly.alone inside loops
  have engine := (resume_of_loops frames loops result).1
  exact {
    frames := by rw [engine]
    boxed := by rw [engine, boxed]
    commandsOpen := (resume_keeps l result).commandsOpen.trans commandsOpen
    channel := by rw [resume_channel, ← queue] }

variable [Transport τ] {pick : List (Timer κ) → Option (Timer κ × List (Timer κ))}

/-- A turn leaves a loop orderly. -/
theorem Orderly.turnBy (rest : l.engine.frames = []) (commandsOpen : l.commandsOpen = true) :
    (l.turnBy pick).1.Orderly := by
  cases armed : l.armNodeCalls? with
  | none =>
    rw [turnBy_of_none armed]
    exact .of_rest rest
  | some loop =>
    have rest' : loop.engine.frames = [] := by
      rw [engine_of_armNodeCalls? armed]
      exact rest
    have own : loop.engine.Own := Tidy.own_of_rest rest'
    have boxed := LoopSystem.calls_of_armNodeCalls? armed
    have opened := (sameQueue_of_armNodeCalls? armed).commandsOpen.trans commandsOpen
    have emptied := LoopSystem.Emptied.carryOut rest' boxed (loop.choose pick)
    rw [turnBy_of_some armed]
    cases started : loop.operation? (loop.choose pick) with
    | some operation =>
      have owns := Engine.perform_owns own operation
      rw [← (carryOut_of_some own started).1] at owns
      exact .inl owns.frames
    | none =>
      rcases (carryOut_of_none rest' started).tidy with own | ⟨call, frames, loops⟩
      · exact .inl own
      · cases chosen : loop.choose pick with
        | command command queue =>
          cases command with
          | request | shutdown =>
            rw [chosen] at started
            cases started
          | stopWhen | countPending | flush => exact .of_rest rest'
          | callLater delay callback =>
            refine .of_rest ?_
            simp only [carryOut, execute]
            split
            · exact rest'
            · next timed =>
              obtain ⟨deadline, rfl⟩ := eq_of_arm? timed
              exact rest'
        | timer task timers =>
          have nothing := queue_eq_nil chosen (by simp) opened
          rw [chosen] at frames emptied
          exact .inr ⟨call, frames, loops, emptied call (by rw [Engine.current?, frames]) loops,
            (congrArg Channel.queue (runTask_channel { loop with timers } task)).trans nothing⟩
        | close | wait | idle => exact .of_rest rest'

/-- **What is under way at a loop stays in order.** -/
theorem Orderly.stepBy? {events : List (Event κ)} {turn : Turn} (orderly : l.Orderly)
    (commandsOpen : l.commandsOpen = true) (stepped : l.stepBy? pick = some (after, events, turn)) :
    after.Orderly := by
  rw [EventLoop.stepBy?] at stepped
  split at stepped
  · next rest =>
    have taken : l.turnBy pick = (after, events, turn) := Option.some.inj stepped
    have turned : (l.turnBy pick).1.Orderly := Orderly.turnBy rest commandsOpen
    rwa [taken] at turned
  · obtain ⟨⟨engine, seen⟩, advanced, same⟩ := Option.map_eq_some_iff.mp stepped
    cases same
    exact .inl (Engine.advance_owns (orderly.tidy.own_of_advance advanced) advanced).frames

/-- Only the command to shut down changes the channel. -/
theorem execute_channel {command : Command κ} (other : (l.execute command).2.2 ≠ .exited .shutdown) :
    (l.execute command).1.channel = l.channel := by
  cases command with
  | request request =>
    simp only [execute]
    split <;> rfl
  | callLater delay callback =>
    simp only [execute]
    split
    · rfl
    · next timed => rw [channel_of_arm? timed]
  | shutdown => exact absurd rfl other
  | stopWhen | countPending | flush => rfl

/-- A step changes nothing about the channel but its queue, unless the run ends with it. -/
theorem channel_of_stepBy? {events : List (Event κ)} {turn : Turn}
    (stepped : l.stepBy? pick = some (after, events, turn)) (other : turn ≠ .exited .shutdown) :
    ∃ queue, after.channel = { l.channel with queue } := by
  rw [EventLoop.stepBy?] at stepped
  split at stepped
  · have taken : l.turnBy pick = (after, events, turn) := Option.some.inj stepped
    cases armed : l.armNodeCalls? with
    | none =>
      rw [turnBy_of_none armed] at taken
      cases taken
      exact ⟨_, rfl⟩
    | some loop =>
      rw [turnBy_of_some armed] at taken
      rw [← channel_of_armNodeCalls? armed]
      cases chosen : loop.choose pick with
      | command command queue =>
        rw [chosen, carryOut] at taken
        have kept : (execute { loop with channel := { loop.channel with queue } } command).1.channel =
            { loop.channel with queue } := execute_channel (by rwa [taken])
        rw [taken] at kept
        exact ⟨queue, kept⟩
      | timer task timers =>
        have same := runTask_channel { loop with timers } task
        rw [chosen, carryOut] at taken
        rw [taken] at same
        exact ⟨_, same⟩
      | close | wait | idle =>
        rw [chosen] at taken
        cases taken
        exact ⟨_, rfl⟩
  · obtain ⟨⟨engine, seen⟩, advanced, same⟩ := Option.map_eq_some_iff.mp stepped
    cases same
    exact ⟨_, rfl⟩

/-- **A loop at rest takes the next command.** -/
theorem Rests.next {channel : Channel κ} {command : Command κ} {queue : List (Command κ)}
    (rests : l.Rests channel) (first : channel.queue = command :: queue) :
    l.stepBy? pick = some ({ l with channel := { channel with queue } }.execute command) := by
  have collected := armNodeCalls?_of_boxed rests.boxed
  have chosen : l.choose pick = .command command queue := by
    rw [choose, rests.commandsOpen, rests.channel, first]
  rw [EventLoop.stepBy?, rests.frames]
  simp only [turnBy_of_some collected, chosen, carryOut, rests.channel]

end NamedData.EventLoop
