import Mathlib.Data.List.Basic
import NamedData.Node.Scheduler
import NamedData.Proofs.Table.DelayedCalls

/-!
Delayed calls against a plain list of what was asked for.

An agenda keeps calls in the order they were added, and sorts those that are due when they are taken. A
table keeps all its calls sorted, and finds its way in them by halving. Whatever is done to the two, they
hand back the same calls in the same order and keep the same ones (`delayed_calls_follow_the_agenda`): calls
that are sorted are determined by which of them share each deadline, and in what order (`eq_of_deadlines`).
-/
namespace NamedData

variable {α : Type}

/-! ## Looking for a place by halving -/

/-- The number of elements that pass a test, of a list in which they come before all others: the element
in the middle tells which half to go on with. -/
def bisect (test : α → Bool) (l : List α) : Nat :=
  match found : l.drop (l.length / 2) with
  | [] => 0
  | middle :: later =>
    if test middle then l.length / 2 + 1 + bisect test later
    else bisect test (l.take (l.length / 2))
termination_by l.length
decreasing_by
  all_goals
    have shorter := congrArg List.length found
    simp only [List.length_drop, List.length_cons, List.length_take] at shorter ⊢
    omega

theorem dropWhile_eq_drop (test : α → Bool) (l : List α) :
    l.dropWhile test = l.drop (l.takeWhile test).length := by
  calc l.dropWhile test = (l.takeWhile test ++ l.dropWhile test).drop (l.takeWhile test).length :=
        List.drop_left.symm
    _ = l.drop (l.takeWhile test).length := by rw [List.takeWhile_append_dropWhile]

/-- Where passing a test is inherited from what comes later, halving finds the first element that fails. -/
theorem bisect_eq {test : α → Bool} {l : List α}
    (ordered : l.Pairwise fun a b => test b = true → test a = true) :
    bisect test l = (l.takeWhile test).length := by
  fun_induction bisect test l with
  | case1 l found =>
    have empty : l = [] := by
      have length := congrArg List.length found
      rw [List.length_drop, List.length_nil] at length
      exact List.length_eq_zero_iff.mp (by omega)
    rw [empty, List.takeWhile_nil, List.length_nil]
  | case2 l middle later found passes ih =>
    have parts : l.take (l.length / 2) ++ middle :: later = l := by
      rw [← found, List.take_append_drop]
    rw [← parts, List.pairwise_append, List.pairwise_cons] at ordered
    obtain ⟨-, ⟨-, ordered⟩, before⟩ := ordered
    have early : ∀ a ∈ l.take (l.length / 2), test a = true :=
      fun a member => before a member middle List.mem_cons_self passes
    have short : (l.take (l.length / 2)).length = l.length / 2 := by
      rw [List.length_take]
      omega
    have taken : l.takeWhile test =
        l.take (l.length / 2) ++ middle :: later.takeWhile test := by
      calc l.takeWhile test = (l.take (l.length / 2) ++ middle :: later).takeWhile test := by rw [parts]
        _ = l.take (l.length / 2) ++ middle :: later.takeWhile test := by
          rw [List.takeWhile_append_of_pos early, List.takeWhile_cons_of_pos passes]
    rw [ih ordered, taken, List.length_append, List.length_cons, short]
    omega
  | case3 l middle later found fails ih =>
    have parts : l.take (l.length / 2) ++ middle :: later = l := by
      rw [← found, List.take_append_drop]
    have taken : l.takeWhile test = (l.take (l.length / 2)).takeWhile test := by
      calc l.takeWhile test = (l.take (l.length / 2) ++ middle :: later).takeWhile test := by rw [parts]
        _ = (l.take (l.length / 2)).takeWhile test := by
          rw [List.takeWhile_append, List.takeWhile_cons_of_neg fails, List.append_nil]
          split
          · next all => exact ((List.takeWhile_prefix test).eq_of_length all).symm
          · rfl
    rw [ih (ordered.sublist (List.take_sublist _ _)), taken]

/-! ## Sorting by deadlines -/

/-- Whether a call is due no later than another. -/
def DelayedCall.dueBefore (c other : DelayedCall α) : Bool := decide (c.due ≤ other.due)

theorem DelayedCall.dueBefore_trans (c other last : DelayedCall α) (first : c.dueBefore other = true)
    (second : other.dueBefore last = true) : c.dueBefore last = true := by
  simp only [dueBefore, decide_eq_true_iff, Instant.le_def] at first second ⊢
  omega

theorem DelayedCall.dueBefore_total (c other : DelayedCall α) :
    (c.dueBefore other || other.dueBefore c) = true := by
  simp only [dueBefore, Bool.or_eq_true, decide_eq_true_iff, Instant.le_def]
  omega

section sorting

variable {calls others : List (DelayedCall α)}

/-- Sorted calls are determined by the calls of each deadline. -/
theorem eq_of_deadlines (sorted : calls.Pairwise fun c other => c.due ≤ other.due)
    (ordered : others.Pairwise fun c other => c.due ≤ other.due)
    (same : ∀ due, calls.filter (fun c => decide (c.due = due)) =
      others.filter fun c => decide (c.due = due)) : calls = others := by
  induction calls generalizing others with
  | nil =>
    cases others with
    | nil => rfl
    | cons other others => simpa using same other.due
  | cons c calls ih =>
    cases others with
    | nil => simpa using same c.due
    | cons other others =>
      have first : c ∈ other :: others := by
        have member : c ∈ (c :: calls).filter fun d => decide (d.due = c.due) := by simp
        rw [same] at member
        exact (List.mem_filter.mp member).1
      have head : other ∈ c :: calls := by
        have member : other ∈ (other :: others).filter fun d => decide (d.due = other.due) := by simp
        rw [← same] at member
        exact (List.mem_filter.mp member).1
      rw [List.pairwise_cons] at sorted ordered
      -- Each of the two that come first is due no later than the other.
      have early : c.due ≤ other.due := by
        rcases List.mem_cons.mp head with rfl | later
        · exact Nat.le_refl _
        · exact sorted.1 other later
      have soon : other.due ≤ c.due := by
        rcases List.mem_cons.mp first with rfl | later
        · exact Nat.le_refl _
        · exact ordered.1 c later
      have together : c.due = other.due := congrArg Instant.mk (Nat.le_antisymm early soon)
      have equal : c = other := by
        have heads := same other.due
        rw [List.filter_cons_of_pos (by simp [together]), List.filter_cons_of_pos (by simp)] at heads
        exact (List.cons.inj heads).1
      subst equal
      congr 1
      apply ih sorted.2 ordered.2
      intro due
      have tails := same due
      by_cases shared : c.due = due
      · simpa [shared] using tails
      · simpa [shared] using tails

/-- Sorting keeps the order of calls that share a deadline. -/
theorem filter_mergeSort_due (calls : List (DelayedCall α)) (due : Instant) :
    (calls.mergeSort DelayedCall.dueBefore).filter (fun c => decide (c.due = due)) =
      calls.filter fun c => decide (c.due = due) := by
  have tied : (calls.filter fun c => decide (c.due = due)).Pairwise
      fun c other => c.dueBefore other = true := by
    apply List.pairwise_of_forall_mem_list
    intro c member other also
    have left : c.due = due := by simpa using (List.mem_filter.mp member).2
    have right : other.due = due := by simpa using (List.mem_filter.mp also).2
    simp [DelayedCall.dueBefore, left, right, Instant.le_def]
  have kept := List.sublist_mergeSort DelayedCall.dueBefore_trans DelayedCall.dueBefore_total tied
    List.filter_sublist
  have stable := kept.filter fun c => decide (c.due = due)
  rw [List.filter_filter] at stable
  simp only [Bool.and_self] at stable
  refine (stable.eq_of_length ?_).symm
  exact ((List.mergeSort_perm calls _).filter _).length_eq.symm

theorem pairwise_mergeSort_due (calls : List (DelayedCall α)) :
    (calls.mergeSort DelayedCall.dueBefore).Pairwise fun c other => c.due ≤ other.due := by
  have sorted := List.pairwise_mergeSort DelayedCall.dueBefore_trans DelayedCall.dueBefore_total calls
  exact sorted.imp of_decide_eq_true

/-- Some of the calls, selected by their deadlines, are sorted as they are among the others. -/
theorem filter_mergeSort (calls : List (DelayedCall α)) (selects : Instant → Bool) :
    (calls.mergeSort DelayedCall.dueBefore).filter (fun c => selects c.due) =
      (calls.filter fun c => selects c.due).mergeSort DelayedCall.dueBefore := by
  apply eq_of_deadlines
  · exact (pairwise_mergeSort_due calls).filter _
  · exact pairwise_mergeSort_due _
  · intro due
    rw [filter_mergeSort_due, List.filter_comm, filter_mergeSort_due, List.filter_comm]

end sorting

/-! ## The agenda -/

/-- What can be done to delayed calls. -/
inductive CallOperation (α : Type) where
  | callAt (due : Instant) (call : α)
  | takeDue (now : Instant)
  | clear

/-- Carry out operations one after the other: the calls that each hands back, and what they lead to. -/
def CallOperation.play {S : Type} (perform : S → CallOperation α → List α × S) :
    S → List (CallOperation α) → List (List α) × S
  | s, [] => ([], s)
  | s, operation :: operations =>
    let (calls, s) := perform s operation
    let (later, s) := play perform s operations
    (calls :: later, s)

/-- Calls that have been added and neither taken nor cleared since, in the order they were added. -/
structure Agenda (α : Type) where
  waiting : List (DelayedCall α) := []

/-- Carry out an operation on an agenda. Of the calls that are taken, those that are due earlier go first,
and those that share a deadline go in the order they were added. -/
def Agenda.perform (a : Agenda α) : CallOperation α → List α × Agenda α
  | .callAt due call => ([], ⟨a.waiting ++ [{ due, call }]⟩)
  | .takeDue now =>
    (((a.waiting.filter fun c => decide (c.due ≤ now)).mergeSort DelayedCall.dueBefore).map (·.call),
      ⟨a.waiting.filter fun c => decide (now < c.due)⟩)
  | .clear => ([], {})

namespace DelayedCalls

variable {t : DelayedCalls α} {a : Agenda α}

/-- Carry out an operation on a table. -/
def perform (t : DelayedCalls α) : CallOperation α → List α × DelayedCalls α
  | .callAt due call => ([], t.callAt due call)
  | .takeDue now => t.takeDue now
  | .clear => ([], Scheduler.clear t)

/-- A table keeps what an agenda keeps, sorted. -/
def Follows (t : DelayedCalls α) (a : Agenda α) : Prop :=
  t.calls = a.waiting.mergeSort DelayedCall.dueBefore

theorem Follows.sorted (follows : t.Follows a) : t.Sorted fun _ _ => True := by
  rw [Sorted, follows]
  exact (pairwise_mergeSort_due a.waiting).imp fun before => ⟨before, fun _ => trivial⟩

/-- A call that is added goes behind those that share its deadline. -/
theorem Sorted.filter_callAt {first : α → α → Prop} (sorted : t.Sorted first) (due : Instant) (call : α)
    (selected : Instant) :
    (t.callAt due call).calls.filter (fun c => decide (c.due = selected)) =
      (t.calls ++ [DelayedCall.mk due call]).filter fun c => decide (c.due = selected) := by
  have parts : t.calls.filter (fun c => decide (c.due = selected)) =
      (t.calls.takeWhile fun c => decide (c.due ≤ due)).filter (fun c => decide (c.due = selected)) ++
        (t.calls.dropWhile fun c => decide (c.due ≤ due)).filter fun c => decide (c.due = selected) := by
    rw [← List.filter_append, List.takeWhile_append_dropWhile]
  rw [DelayedCalls.callAt, List.filter_append, List.filter_cons, List.filter_append, parts]
  by_cases shared : due = selected
  · have later : (t.calls.dropWhile fun c => decide (c.due ≤ due)).filter
        (fun c => decide (c.due = selected)) = [] := by
      rw [(split_filter sorted due).2, List.filter_filter, List.filter_eq_nil_iff]
      intro c _
      simp +contextual [shared, Instant.le_def]
    simp [later, decide_eq_true shared]
  · simp [shared]

/-- **Whatever is done to a table and to an agenda, they hand back the same calls.** -/
theorem Follows.perform (follows : t.Follows a) (operation : CallOperation α) :
    (t.perform operation).1 = (a.perform operation).1 ∧
      (t.perform operation).2.Follows (a.perform operation).2 := by
  have sorted := follows.sorted
  cases operation with
  | callAt due call =>
    refine ⟨rfl, eq_of_deadlines ?_ (pairwise_mergeSort_due _) ?_⟩
    · exact (sorted.callAt fun _ _ => trivial).imp fun before => before.1
    · intro selected
      change (t.callAt due call).calls.filter _ = _
      rw [sorted.filter_callAt, filter_mergeSort_due, List.filter_append, follows, filter_mergeSort_due,
        ← List.filter_append]
      rfl
  | takeDue now =>
    have late : ∀ c : DelayedCall α, (!decide (c.due ≤ now)) = decide (now < c.due) := by
      intro c
      rw [← decide_not, decide_eq_decide, Instant.le_def, Instant.lt_def, Nat.not_le]
    simp only [DelayedCalls.perform, Agenda.perform, sorted.takeDue_eq, Follows, late]
    rw [follows, filter_mergeSort a.waiting fun due => decide (due ≤ now),
      filter_mergeSort a.waiting fun due => decide (now < due)]
    exact ⟨rfl, rfl⟩
  | clear => exact ⟨rfl, List.mergeSort_nil.symm⟩

/-- A table and an agenda to which the same is done keep in step. -/
theorem Follows.play (follows : t.Follows a) (operations : List (CallOperation α)) :
    (CallOperation.play DelayedCalls.perform t operations).1 =
        (CallOperation.play Agenda.perform a operations).1 ∧
      (CallOperation.play DelayedCalls.perform t operations).2.Follows
        (CallOperation.play Agenda.perform a operations).2 := by
  induction operations generalizing t a with
  | nil => exact ⟨rfl, follows⟩
  | cons operation operations ih =>
    obtain ⟨same, after⟩ := follows.perform operation
    obtain ⟨later, ends⟩ := ih after
    exact ⟨congrArg₂ List.cons same later, ends⟩

/-- In a sorted table the calls up to some time are found by halving. -/
theorem Sorted.cut {first : α → α → Prop} (sorted : t.Sorted first) (now : Instant) :
    t.calls.takeWhile (fun c => decide (c.due ≤ now)) =
        t.calls.take (bisect (fun c => decide (c.due ≤ now)) t.calls) ∧
      t.calls.dropWhile (fun c => decide (c.due ≤ now)) =
        t.calls.drop (bisect (fun c => decide (c.due ≤ now)) t.calls) := by
  have inherited : t.calls.Pairwise fun c other =>
      decide (other.due ≤ now) = true → decide (c.due ≤ now) = true := by
    refine List.Pairwise.imp ?_ sorted
    intro c other before soon
    exact decide_eq_true (Nat.le_trans before.1 (of_decide_eq_true soon))
  rw [bisect_eq inherited]
  exact ⟨List.prefix_iff_eq_take.mp (List.takeWhile_prefix _), dropWhile_eq_drop _ _⟩

/-- To take what is due twice is to take it once, at the later time. -/
theorem takeDue_takeDue (t : DelayedCalls α) {now later : Instant} (passes : now ≤ later) :
    (t.takeDue now).1 ++ ((t.takeDue now).2.takeDue later).1 = (t.takeDue later).1 ∧
      ((t.takeDue now).2.takeDue later).2 = (t.takeDue later).2 := by
  have early : ∀ c ∈ t.calls.takeWhile (fun c => decide (c.due ≤ now)), decide (c.due ≤ later) = true := by
    intro c member
    have soon := List.all_eq_true.mp List.all_takeWhile c member
    exact decide_eq_true (Nat.le_trans (of_decide_eq_true soon) passes)
  have parts := List.takeWhile_append_dropWhile (p := fun c => decide (c.due ≤ now)) (l := t.calls)
  constructor
  · calc (t.takeDue now).1 ++ ((t.takeDue now).2.takeDue later).1 =
          ((t.calls.takeWhile (fun c => decide (c.due ≤ now)) ++
            t.calls.dropWhile fun c => decide (c.due ≤ now)).takeWhile
              fun c => decide (c.due ≤ later)).map (·.call) := by
            rw [List.takeWhile_append_of_pos early, List.map_append]
            rfl
      _ = (t.takeDue later).1 := by rw [parts, takeDue]
  · calc ((t.takeDue now).2.takeDue later).2 =
          ⟨(t.calls.takeWhile (fun c => decide (c.due ≤ now)) ++
            t.calls.dropWhile fun c => decide (c.due ≤ now)).dropWhile
              fun c => decide (c.due ≤ later)⟩ := by
            rw [List.dropWhile_append_of_pos early]
            rfl
      _ = (t.takeDue later).2 := by rw [parts, takeDue]

/-- **A table of delayed calls does what an agenda does.** Whatever is done to a new table, every operation
hands back what it would of an agenda; and at every point the table keeps the calls that the agenda keeps,
sorted, and finds by halving where to put a call and which of them are due. To take what is due twice is to
take it once. -/
theorem delayed_calls_follow_the_agenda (operations : List (CallOperation α)) :
    let played := CallOperation.play perform ({} : DelayedCalls α) operations
    let planned := CallOperation.play Agenda.perform ({} : Agenda α) operations
    let t := played.2
    played.1 = planned.1 ∧ t.size = planned.2.waiting.length ∧
      t.calls = planned.2.waiting.mergeSort DelayedCall.dueBefore ∧
      (∀ due call, t.callAt due call =
        let place := bisect (fun c => decide (c.due ≤ due)) t.calls
        ⟨t.calls.take place ++ { due, call } :: t.calls.drop place⟩) ∧
      (∀ now, t.takeDue now =
        let place := bisect (fun c => decide (c.due ≤ now)) t.calls
        ((t.calls.take place).map (·.call), ⟨t.calls.drop place⟩)) ∧
      ∀ (table : DelayedCalls α) (now later : Instant), now ≤ later →
        (table.takeDue now).1 ++ ((table.takeDue now).2.takeDue later).1 = (table.takeDue later).1 ∧
          ((table.takeDue now).2.takeDue later).2 = (table.takeDue later).2 := by
  intro played planned t
  have begins : ({} : DelayedCalls α).Follows {} := List.mergeSort_nil.symm
  obtain ⟨same, follows⟩ := begins.play operations
  refine ⟨same, ?_, follows, ?_, ?_, fun table now later passes => takeDue_takeDue table passes⟩
  · rw [size, follows, List.length_mergeSort]
  · intro due call
    obtain ⟨before, behind⟩ := follows.sorted.cut due
    rw [DelayedCalls.callAt, before, behind]
  · intro now
    obtain ⟨due, left⟩ := follows.sorted.cut now
    rw [DelayedCalls.takeDue, due, left]

/-- Three calls, two of which share a deadline, are added and taken, and a fourth one is added behind them. -/
def threeAndOne : List (CallOperation Nat) :=
  [.callAt (.ofMillis 30) 3, .callAt (.ofMillis 10) 1, .callAt (.ofMillis 10) 2, .takeDue (.ofMillis 0),
    .takeDue (.ofMillis 30), .callAt (.ofMillis 50) 4]

/-- The agenda hands the three back in the order of their deadlines and keeps the fourth; asking for it too
early first makes no difference. -/
theorem three_calls_and_one_later :
    let t := (CallOperation.play perform ({} : DelayedCalls Nat) threeAndOne).2
    (CallOperation.play Agenda.perform ({} : Agenda Nat) threeAndOne).1 = [[], [], [], [], [1, 2, 3], []] ∧
      (CallOperation.play Agenda.perform ({} : Agenda Nat) threeAndOne).2.waiting.length = 1 ∧
      Instant.ofMillis 40 ≤ Instant.ofMillis 60 ∧
      ((t.takeDue (.ofMillis 40)).2.takeDue (.ofMillis 60)).1 = [4] := by
  obtain ⟨same, length, -, -, -, twice⟩ := delayed_calls_follow_the_agenda threeAndOne
  have passes : Instant.ofMillis 40 ≤ Instant.ofMillis 60 := by decide
  have taken := (twice (CallOperation.play perform ({} : DelayedCalls Nat) threeAndOne).2 _ _ passes).1
  exact ⟨same.symm, length.symm, passes, taken⟩

end DelayedCalls

end NamedData
