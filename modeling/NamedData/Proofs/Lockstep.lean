import Mathlib.Data.List.Forall2
import NamedData.Proofs.Run

/-!
Runs side by side.

Two runs of one system agree when they go through the same states and show the same, apart from what
is not looked at. If stages that are alike agree whenever they start from one state, then runs that are
alike agree throughout (`Run.agree`). And if every stage can be made with another move, so can a whole
run (`Run.replay`).
-/
namespace NamedData

variable {S M ε : Type}

/-- Two stages start from one state, lead to one state, and show the same of what is looked at. -/
structure Stage.Agrees (looks : ε → Bool) (stage other : Stage S M ε) : Prop where
  before : other.before = stage.before
  after : other.after = stage.after
  events : other.events.filter looks = stage.events.filter looks

/-- What stages that agree show over time. -/
theorem Stage.Agrees.seen {looks : ε → Bool} {stages others : List (Stage S M ε)}
    (agree : List.Forall₂ (Stage.Agrees looks) stages others) :
    (Stage.seen others).filter looks = (Stage.seen stages).filter looks := by
  induction agree with
  | nil => rfl
  | cons agrees _ ih =>
    simp only [Stage.seen, List.flatMap_cons, List.filter_append] at ih ⊢
    rw [agrees.events, ih]

namespace Run

/-- A list that is matched with one that ends with an element ends with what that is matched with. -/
theorem exists_of_forall₂_concat {α β : Type} {R : α → β → Prop} {l : List α} {a : α} {u : List β}
    (matched : List.Forall₂ R (l ++ [a]) u) :
    ∃ l' b, u = l' ++ [b] ∧ List.Forall₂ R l l' ∧ R a b := by
  rw [← List.forall₂_reverse_iff, List.reverse_append, List.reverse_singleton, List.singleton_append,
    List.forall₂_cons_left_iff] at matched
  obtain ⟨b, rest, last, others, ends⟩ := matched
  refine ⟨rest.reverse, b, ?_, ?_, last⟩
  · rw [← List.reverse_cons, ← ends, List.reverse_reverse]
  · rwa [← List.forall₂_reverse_iff, List.reverse_reverse]

variable {Follows : List (Stage S M ε) → Stage S M ε → Prop} {looks : ε → Bool}
variable {start s s' : S} {stages others : List (Stage S M ε)}

/-- Runs that are alike agree, if stages that are alike do. -/
theorem agree {Alike : Stage S M ε → Stage S M ε → Prop} (run : Run Follows start stages s)
    (other : Run Follows start others s') (alike : List.Forall₂ Alike stages others)
    (agrees : ∀ past stage earlier other, Follows past stage → Follows earlier other →
      other.before = stage.before → Alike stage other → stage.Agrees looks other) :
    s' = s ∧ List.Forall₂ (Stage.Agrees looks) stages others := by
  induction run generalizing others s' with
  | start =>
    obtain rfl := List.forall₂_nil_left_iff.mp alike
    exact ⟨other.of_nil, .nil⟩
  | step run follows ih =>
    obtain ⟨earlier, last, rfl, before, same⟩ := exists_of_forall₂_concat alike
    obtain ⟨upTo, followed, rfl⟩ := other.of_concat
    obtain ⟨starts, agreed⟩ := ih upTo before
    have agreement := agrees _ _ _ _ follows followed starts same
    exact ⟨agreement.after, List.rel_append agreed (.cons agreement .nil)⟩

/-- A run can be made with other moves, if every stage of it can. -/
theorem replay {Allows : Stage S M ε → M → Prop} {moves : List M} (run : Run Follows start stages s)
    (allows : List.Forall₂ Allows stages moves)
    (replace : ∀ past stage earlier move, Follows past stage →
      List.Forall₂ (Stage.Agrees looks) past earlier → Allows stage move →
      ∃ other, other.move = move ∧ Follows earlier other ∧ stage.Agrees looks other) :
    ∃ others, Run Follows start others s ∧ others.map (·.move) = moves ∧
      List.Forall₂ (Stage.Agrees looks) stages others := by
  induction run generalizing moves with
  | start =>
    obtain rfl := List.forall₂_nil_left_iff.mp allows
    exact ⟨[], .start, rfl, .nil⟩
  | @step past stage run follows ih =>
    obtain ⟨before, move, rfl, allowed, last⟩ := exists_of_forall₂_concat allows
    obtain ⟨earlier, upTo, rfl, agreed⟩ := ih allowed
    obtain ⟨other, rfl, followed, agrees⟩ := replace past stage earlier move follows agreed last
    rw [← agrees.before] at upTo
    rw [← agrees.after]
    exact ⟨earlier ++ [other], .step upTo followed, by simp, List.rel_append agreed (.cons agrees .nil)⟩

/-- What a run comes to does not depend on the choice of its moves among those that are allowed in their
place: there is a run with any such choice, and all that are alike agree with it. -/
structure Unaffected (Follows : List (Stage S M ε) → Stage S M ε → Prop) (looks : ε → Bool)
    (Allows : Stage S M ε → M → Prop) (Alike : Stage S M ε → Stage S M ε → Prop) (start : S)
    (stages : List (Stage S M ε)) (s : S) : Prop where
  agree : ∀ others s', Run Follows start others s' → List.Forall₂ Alike stages others →
    s' = s ∧ List.Forall₂ (Stage.Agrees looks) stages others
  replay : ∀ moves, List.Forall₂ Allows stages moves → ∃ others, Run Follows start others s ∧
    others.map (·.move) = moves ∧ List.Forall₂ (Stage.Agrees looks) stages others

end Run

end NamedData
