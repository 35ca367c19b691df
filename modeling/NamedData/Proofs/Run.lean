import Mathlib.Data.List.Induction

/-!
Runs of a system, recorded stage by stage.

Which step may come next can depend on everything that has happened so far, so a system is given by a
relation between a history and a stage that may follow it. A run is the list of its stages. What holds
of every run is proved by `Run.invariant`, and what holds from some point of a run on by `Run.since`.
-/
namespace NamedData

/-- One step of a run: the state it started from, what was done, what was seen of it, and the state
it led to. -/
structure Stage (S M ε : Type) where
  before : S
  move : M
  events : List ε
  after : S

variable {S M ε : Type}

/-- The runs from a state, each with the state it ends in. -/
inductive Run (Follows : List (Stage S M ε) → Stage S M ε → Prop) (start : S) :
    List (Stage S M ε) → S → Prop where
  | start : Run Follows start [] start
  | step {past : List (Stage S M ε)} {stage : Stage S M ε}
      (run : Run Follows start past stage.before) (follows : Follows past stage) :
      Run Follows start (past ++ [stage]) stage.after

/-- What was seen in the course of some stages. -/
def Stage.seen (stages : List (Stage S M ε)) : List ε := stages.flatMap (·.events)

theorem Stage.seen_append (stages others : List (Stage S M ε)) :
    Stage.seen (stages ++ others) = Stage.seen stages ++ Stage.seen others :=
  List.flatMap_append

theorem Stage.seen_concat (stages : List (Stage S M ε)) (stage : Stage S M ε) :
    Stage.seen (stages ++ [stage]) = Stage.seen stages ++ stage.events := by
  simp [Stage.seen]

namespace Run

variable {Follows : List (Stage S M ε) → Stage S M ε → Prop}
variable {start s : S} {stage : Stage S M ε} {past future stages : List (Stage S M ε)}

theorem of_nil (run : Run Follows start [] s) : s = start := by
  generalize same : ([] : List (Stage S M ε)) = stages at run
  cases run with
  | start => rfl
  | step => simp at same

/-- The last stage of a run follows the run up to it. -/
theorem of_concat (run : Run Follows start (past ++ [stage]) s) :
    Run Follows start past stage.before ∧ Follows past stage ∧ s = stage.after := by
  generalize same : past ++ [stage] = stages at run
  cases run with
  | start => simp at same
  | step run follows =>
    obtain ⟨rfl, last⟩ := List.append_inj' same rfl
    cases last
    exact ⟨run, follows, rfl⟩

/-- Every beginning of a run is a run. -/
theorem of_append (run : Run Follows start (past ++ future) s) :
    ∃ mid, Run Follows start past mid := by
  induction future using List.reverseRecOn generalizing s with
  | nil => exact ⟨s, by simpa using run⟩
  | append_singleton future stage ih =>
    rw [← List.append_assoc] at run
    exact ih run.of_concat.1

/-- Every stage of a run follows the run up to it. -/
theorem at_stage (run : Run Follows start (past ++ stage :: future) s) :
    Run Follows start past stage.before ∧ Follows past stage := by
  rw [List.append_cons] at run
  obtain ⟨_, run⟩ := run.of_append
  exact ⟨run.of_concat.1, run.of_concat.2.1⟩

/-- The part of a run up to and including a stage ends in the state that stage led to. -/
theorem through (run : Run Follows start (past ++ stage :: future) s) :
    Run Follows start (past ++ [stage]) stage.after :=
  .step run.at_stage.1 run.at_stage.2

/-- What holds at some point of a run and is kept by every later step holds at the end. -/
theorem since {P : List (Stage S M ε) → S → Prop} (run : Run Follows start (past ++ future) s)
    (begins : ∀ mid, Run Follows start past mid → P [] mid)
    (keeps : ∀ later stage, Run Follows start (past ++ later) stage.before →
      Follows (past ++ later) stage → P later stage.before → P (later ++ [stage]) stage.after) :
    P future s := by
  induction future using List.reverseRecOn generalizing s with
  | nil => exact begins s (by simpa using run)
  | append_singleton future stage ih =>
    rw [← List.append_assoc] at run
    obtain ⟨earlier, follows, rfl⟩ := run.of_concat
    exact keeps future stage earlier follows (ih earlier)

/-- What holds at first and is kept by every step holds at the end of every run. -/
theorem invariant {P : List (Stage S M ε) → S → Prop} (run : Run Follows start stages s)
    (begins : P [] start)
    (keeps : ∀ past stage, Run Follows start past stage.before → Follows past stage →
      P past stage.before → P (past ++ [stage]) stage.after) : P stages s := by
  have whole : Run Follows start ([] ++ stages) s := run
  apply whole.since
  · intro mid none
    rw [none.of_nil]
    exact begins
  · intro past stage run follows holds
    exact keeps past stage run follows holds

end Run

end NamedData
