import NamedData.Proofs.Node.Operating
import NamedData.Proofs.Table.DelayedCalls

/-!
Nodes that keep their armed calls themselves, until they are asked to process events.

Whatever such a node does, at most one operation is carried out on its table (`Engine.Does.operates`) and at
most one call is added to those it keeps (`Engine.Does.calls`). So its table stays in the order in which
interests are expressed, and its calls in the order of their deadlines, those that share one in the order in
which they were armed (`Engine.Run.steady`).
-/
namespace NamedData

/-- Of two timeouts, the one of the interest that was expressed earlier. -/
def NodeCall.Earlier {κ : Type} (call other : NodeCall κ) : Prop :=
  ∀ entry later, call = .timeout entry → other = .timeout later → entry.handle < later.handle

namespace Engine

variable {κ τ : Type} {e after : Engine κ DelayedCalls τ}

/-- Of the calls that a node keeps, one that is armed is the only new one. -/
theorem calls_of_armed {delay : Duration} {call : NodeCall κ} {scheduler : DelayedCalls (NodeCall κ)}
    (armed : Scheduler.callLater? e.node.scheduler e.host.now delay call = some scheduler)
    (numbered : ∀ entry, call = .timeout entry → entry.handle = e.host.marks.next) :
    ∃ due call, scheduler = e.node.scheduler.callAt due call ∧
      ∀ entry, call = .timeout entry → entry.handle = e.host.marks.next := by
  obtain ⟨due, -, rfl⟩ := Option.map_eq_some_iff.mp armed
  exact ⟨due, call, rfl, numbered⟩

variable [Transport τ]

/-- Whatever a node does by itself takes some of the calls it keeps or adds one. If that is a timeout, its
entry has just been made. -/
theorem Does.calls {move : Move κ} {events : List (Event κ)} (does : e.Does move events after) :
    after.node.scheduler.calls.Sublist e.node.scheduler.calls ∨
      ∃ due call, after.node.scheduler = e.node.scheduler.callAt due call ∧
        ∀ entry, call = .timeout entry → entry.handle = e.host.marks.next := by
  cases does with
  | express encoded armed =>
    refine .inr (calls_of_armed armed ?_)
    rintro entry ⟨⟩
    rfl
  | arm armed => exact .inr (calls_of_armed armed nofun)
  | shutdown => exact .inl (List.nil_sublist _)
  | drained | unreadable => exact .inl (DelayedCalls.takeDue_sublist _ _)
  | _ => exact .inl (List.Sublist.refl _)

/-- So the calls stay in order, if the timeouts that are armed are older than any that is yet to be. -/
theorem Does.sorted {move : Move κ} {events : List (Event κ)} (does : e.Does move events after)
    (sorted : e.node.scheduler.Sorted NodeCall.Earlier)
    (armed : ∀ entry, e.Armed (.timeout entry) → entry.handle < e.host.marks.next) :
    after.node.scheduler.Sorted NodeCall.Earlier := by
  rcases does.calls with part | ⟨due, call, added, numbered⟩
  · exact sorted.of_sublist part
  · rw [added]
    apply sorted.callAt
    rintro c member entry later same rfl
    rw [numbered later rfl]
    exact armed entry (.inl ⟨c, member, same⟩)

/-- No one but the node takes away the calls it keeps. -/
def KeepsCalls (stages : List (Stage κ DelayedCalls τ)) : Prop :=
  ∀ stage ∈ stages, stage.move = .drift →
    stage.after.node.scheduler = stage.before.node.scheduler

/-- The table of a node is in order, and so are the calls it keeps. -/
structure Steady (e : Engine κ DelayedCalls τ) : Prop where
  standing : e.node.pending.Standing e.host.marks
  sorted : e.node.scheduler.Sorted NodeCall.Earlier

/-- The table and the calls of a node are in order at every point of a run. -/
theorem Run.steady {start : Engine κ DelayedCalls τ} {stages : List (Stage κ DelayedCalls τ)}
    (fresh : start.Fresh) (sorted : start.node.scheduler.Sorted NodeCall.Earlier)
    (run : start.Run stages e) (keeps : KeepsCalls stages) : e.Steady := by
  refine ⟨Run.standing fresh run, ?_⟩
  revert keeps
  apply run.invariant
  · exact fun _ => sorted
  · intro past stage earlier follows settled keeps
    have before := settled fun other member => keeps other (List.mem_append_left _ member)
    have kept := keeps stage (List.mem_append_right _ (List.mem_singleton_self _))
    have known := Run.known fresh earlier
    have accounts := Run.accounts fresh earlier
    rcases stage with ⟨_, move, events, after⟩
    cases follows.1 with
    | act acted =>
      apply (does_of_act? acted).sorted before
      intro entry armed
      exact accounts.issued entry (known.armed entry armed)
    | drift => exact (kept rfl).symm ▸ before

end Engine

end NamedData
