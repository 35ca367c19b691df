import NamedData.Proofs.Node.Acting
import NamedData.Proofs.Node.Resolution
import NamedData.Proofs.Table.Standing

/-!
The table of a node with any scheduler.

A node carries out at most one operation on its table at once (`Engine.Does.operates`). So the table stays in
order at every point of a run, and an entry whose timeout has been run is not in it any more
(`Engine.Run.gone_of_timeout`).
-/
namespace NamedData.Engine

variable {κ τ : Type} {σ : Type → Type} {e after : Engine κ σ τ}

/-- What a node does at once to its table. -/
def Operates (e after : Engine κ σ τ) : Prop :=
  (after.node.pending, after.host.marks) = (e.node.pending, e.host.marks) ∨
    ∃ operation, (after.node.pending, after.host.marks) =
      (e.node.pending.perform e.host.marks operation).2

theorem Operates.still (pending : after.node.pending = e.node.pending)
    (marks : after.host.marks = e.host.marks) : e.Operates after :=
  .inl (by rw [pending, marks])

theorem Operates.standing (operates : e.Operates after)
    (standing : e.node.pending.Standing e.host.marks) : after.node.pending.Standing after.host.marks := by
  rcases operates with same | ⟨operation, performed⟩
  · obtain ⟨pending, marks⟩ := Prod.mk.inj same
    rw [pending, marks]
    exact standing
  · have later := standing.perform operation
    rw [← performed] at later
    exact later

/-- To run a timeout takes its entry out of the table. -/
theorem gone_of_run (standing : e.node.pending.Standing e.host.marks) (entry : PendingInterest κ) :
    ∀ other ∈ (e.run (.timeout entry)).1.node.pending.entries, other.handle ≠ entry.handle := by
  have removed : (e.run (.timeout entry)).1.node.pending =
      (e.node.pending.removeEntry e.host.marks entry.handle).2.1 := by
    simp only [run]
    split <;> rfl
  intro other member
  rw [removed] at member
  exact (standing.mem_removeEntry member).2

variable [Scheduler σ] [Transport τ]

/-- Whatever a node does, at most one operation is carried out on its table. -/
theorem Does.operates {move : Move κ} {events : List (Event κ)} (does : e.Does move events after) :
    e.Operates after := by
  cases does with
  | @overrun id interest onData onTimeout | @express id interest onData onTimeout =>
    exact .inr ⟨.add id (e.completion interest) onData onTimeout, rfl⟩
  | @removePending id => exact .inr ⟨.removeById id, rfl⟩
  | @data _ _ _ data => exact .inr ⟨.extract data.name, rfl⟩
  | @expire _ entry | @lapse _ entry => exact .inr ⟨.removeEntry entry.handle, rfl⟩
  | shutdown => exact .inr ⟨.clear, rfl⟩
  | _ => exact .still rfl rfl

variable [Scheduler.Faithful σ]
variable {start : Engine κ σ τ} {stages past future : List (Stage κ σ τ)} {stage : Stage κ σ τ}

/-- A table that is in order stays so, whatever its node or the world around does. -/
theorem Step.standing {move : Move κ} {events : List (Event κ)} (step : e.Step move events after)
    (standing : e.node.pending.Standing e.host.marks) : after.node.pending.Standing after.host.marks := by
  cases step with
  | act acted => exact (does_of_act? acted).operates.standing standing
  | drift drifts =>
    have later := standing.of_kept drifts.host.issued drifts.host.kept
    rwa [show after.node.pending = e.node.pending by rw [drifts.node]]

/-- The table of a node is in order at every point of a run. -/
theorem Run.standing (fresh : start.Fresh) (run : start.Run stages e) :
    e.node.pending.Standing e.host.marks := by
  apply run.invariant
  · refine ⟨?_, ?_, ?_⟩ <;> simp [fresh.pending]
  · intro past stage _ follows standing
    exact follows.1.standing standing

/-- An entry whose timeout has been run is not in the table any more. -/
theorem Run.gone_of_timeout {entry : PendingInterest κ} (fresh : start.Fresh)
    (run : start.Run (past ++ stage :: future) e)
    (ran : stage.move = .perform (.run (.timeout entry))) :
    ∀ other ∈ e.node.pending.entries, other.handle ≠ entry.handle := by
  obtain ⟨upTo, step, given⟩ := run.at_stage
  have issued : entry.handle < stage.before.host.marks.next :=
    (Run.accounts fresh upTo).issued entry ((Run.known fresh upTo).available entry (given _ ran))
  have standing := Run.standing fresh upTo
  have moved := step.effect.moved.issued_le
  rw [ran] at step
  rw [List.append_cons] at run
  have since : (∀ other ∈ e.node.pending.entries, other.handle ≠ entry.handle) ∧
      entry.handle < e.host.marks.next := by
    apply run.since
    · intro mid through
      rw [through.of_concat.2.2]
      refine ⟨?_, Nat.lt_of_lt_of_le issued moved⟩
      rw [step.perform_eq.1]
      exact gone_of_run standing entry
    · intro later next _ follows before
      obtain ⟨gone, issued⟩ := before
      have moved := follows.1.effect.moved
      refine ⟨?_, Nat.lt_of_lt_of_le issued moved.issued_le⟩
      intro other waits
      rcases moved.mem_waiting waits with old | made
      · exact gone other old
      · rw [made] at moved
        have numbered : other.handle = next.before.host.marks.next := moved.issued_of_made.1
        omega
  exact since.1

end NamedData.Engine
