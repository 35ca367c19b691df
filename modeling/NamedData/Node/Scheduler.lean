import NamedData.Table.DelayedCalls

/-!
Schedulers: how a node's delayed calls come to run.

A polled scheduler keeps the calls until the node asks for those that are due. An outbox passes every
call on to whoever owns the node, and neither hands calls back nor forgets any.
-/
namespace NamedData

/-- Arms one-shot calls of any kind. -/
class Scheduler (σ : Type → Type) where
  /-- Arm a call a span after now; `none` if the clock never shows that point. -/
  callLater? : {α : Type} → σ α → Instant → Duration → α → Option (σ α)
  /-- The calls to run now. They are armed no longer. -/
  takeDue : {α : Type} → σ α → Instant → List α × σ α
  /-- Forget every call that has not run. -/
  clear : {α : Type} → σ α → σ α

instance : Scheduler DelayedCalls where
  callLater? := DelayedCalls.callLater?
  takeDue := DelayedCalls.takeDue
  clear _ := {}

/-- `LoopScheduler`: calls on their way to the owner of the node, oldest first. -/
structure Outbox (α : Type) where
  calls : List (Duration × α) := []
deriving Inhabited

instance : Scheduler Outbox where
  callLater? box _ delay call := some ⟨box.calls ++ [(delay, call)]⟩
  takeDue box _ := ([], box)
  clear box := box

end NamedData
