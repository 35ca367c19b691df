import NamedData.Proofs.Node.Acting

/-!
What closes the transport of a node.

Nothing a node does closes its transport, except that it is shut down (`Engine.Does.closes`).
-/
namespace NamedData

/-- Whether the transport is closed. -/
def Event.closes {κ : Type} : Event κ → Bool
  | .closed => true
  | _ => false

/-- Whether a node is shut down. -/
def Move.closes {κ : Type} : Move κ → Bool
  | .perform .shutdown => true
  | _ => false

namespace Engine

variable {κ τ : Type} {σ : Type → Type} [Scheduler σ] [Transport τ] {e after : Engine κ σ τ}

/-- Only shutting a node down closes its transport. -/
theorem Does.closes {move : Move κ} {events : List (Event κ)} (does : e.Does move events after) :
    events.countP Event.closes = move.closes.toNat := by
  cases does with
  | undecodable brings | interest brings | data brings => cases brings <;> rfl
  | delayed takes | expire takes | lapse takes => cases takes <;> rfl
  | resume | removePending | removeRegistered | unsetFilter =>
    rw [List.countP_map]
    exact List.countP_eq_zero.mpr fun _ _ => Bool.false_ne_true
  | _ => rfl

variable [Scheduler.Faithful σ] {start : Engine κ σ τ} {stages : List (Stage κ σ τ)}

/-- A transport is closed once for every time its node is shut down. -/
theorem Run.closes (run : start.Run stages e) :
    (NamedData.Stage.seen stages).countP Event.closes = stages.countP (·.move.closes) := by
  apply run.invariant
  · rfl
  · intro past stage _ follows same
    rw [NamedData.Stage.seen_concat, List.countP_append, List.countP_append, List.countP_singleton,
      same]
    obtain ⟨before, move, events, after⟩ := stage
    cases follows.1 with
    | act acted =>
      rw [(does_of_act? acted).closes]
      cases move.closes <;> rfl
    | drift => rfl

end Engine

end NamedData
