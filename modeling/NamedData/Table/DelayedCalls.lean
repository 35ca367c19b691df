import NamedData.Time.Instant

/-!
Calls waiting for their deadline, for nodes that are polled.
-/
namespace NamedData

/-- A call with its deadline. -/
structure DelayedCall (α : Type) where
  due : Instant
  call : α

/-- `DelayedCallTable`: calls sorted by deadline. Calls that share a deadline stand in the order they
were added. -/
structure DelayedCalls (α : Type) where
  calls : List (DelayedCall α) := []
deriving Inhabited

namespace DelayedCalls

variable {α : Type}

/-- `DelayedCallTable::len`: the number of calls that wait. -/
def size (t : DelayedCalls α) : Nat := t.calls.length

/-- `DelayedCallTable::call_at`: add a call behind those that are due no later. -/
def callAt (t : DelayedCalls α) (due : Instant) (call : α) : DelayedCalls α :=
  ⟨t.calls.takeWhile (fun c => decide (c.due ≤ due)) ++
    { due, call } :: t.calls.dropWhile fun c => decide (c.due ≤ due)⟩

/-- `DelayedCallTable::call_later`: add a call that is due a span after now; `none` if the clock never
shows that point. -/
def callLater? (t : DelayedCalls α) (now : Instant) (delay : Duration) (call : α) :
    Option (DelayedCalls α) :=
  (now.add? delay).map fun due => t.callAt due call

/-- `DelayedCallTable::take_due`: take out the calls whose deadline has come, earliest first. -/
def takeDue (t : DelayedCalls α) (now : Instant) : List α × DelayedCalls α :=
  ((t.calls.takeWhile fun c => decide (c.due ≤ now)).map (·.call),
    ⟨t.calls.dropWhile fun c => decide (c.due ≤ now)⟩)

end DelayedCalls

end NamedData
