import NamedData.Table.DelayedCalls

/-!
Calls in the order of their deadlines.

Adding calls keeps them sorted, and those that share a deadline stand in the order they were added
(`DelayedCalls.Sorted`). So the calls that are due are a beginning of the table, and taking them out is
telling apart two groups of calls.
-/
namespace NamedData

variable {α : Type}

/-- One call is due earlier than another, or at the same time and it goes first. -/
def DelayedCall.Precedes (first : α → α → Prop) (c other : DelayedCall α) : Prop :=
  c.due ≤ other.due ∧ (other.due ≤ c.due → first c.call other.call)

namespace DelayedCalls

variable {first : α → α → Prop} {t : DelayedCalls α} {now due : Instant} {call : α}

/-- The calls are sorted by their deadlines, and those that share one by which goes first. -/
def Sorted (first : α → α → Prop) (t : DelayedCalls α) : Prop :=
  t.calls.Pairwise (DelayedCall.Precedes first)

/-- In a sorted list, the calls up to some time come before all others. -/
theorem split_filter {calls : List (DelayedCall α)}
    (sorted : calls.Pairwise (DelayedCall.Precedes first)) (now : Instant) :
    calls.takeWhile (fun c => decide (c.due ≤ now)) = calls.filter (fun c => decide (c.due ≤ now)) ∧
      calls.dropWhile (fun c => decide (c.due ≤ now)) =
        calls.filter fun c => !decide (c.due ≤ now) := by
  induction calls with
  | nil => exact ⟨rfl, rfl⟩
  | cons c calls ih =>
    obtain ⟨before, sorted⟩ := List.pairwise_cons.mp sorted
    obtain ⟨taken, left⟩ := ih sorted
    by_cases early : c.due ≤ now
    · simp [early, taken, left]
    · have late : ∀ other ∈ calls, ¬ other.due ≤ now := by
        intro other member soon
        exact early (Nat.le_trans (before other member).1 soon)
      have none : calls.filter (fun c => decide (c.due ≤ now)) = [] :=
        List.filter_eq_nil_iff.mpr (by simpa using late)
      have all : calls.filter (fun c => !decide (c.due ≤ now)) = calls :=
        List.filter_eq_self.mpr (by simpa using late)
      simp [early, none, all]

/-- Taking out what is due tells the calls apart by their deadlines. -/
theorem Sorted.takeDue_eq (sorted : t.Sorted first) (now : Instant) :
    t.takeDue now = ((t.calls.filter fun c => decide (c.due ≤ now)).map (·.call),
      ⟨t.calls.filter fun c => !decide (c.due ≤ now)⟩) := by
  obtain ⟨taken, left⟩ := split_filter sorted now
  rw [takeDue, taken, left]

/-- A call that none goes behind keeps the calls sorted. -/
theorem Sorted.callAt (sorted : t.Sorted first) (last : ∀ c ∈ t.calls, first c.call call) :
    (t.callAt due call).Sorted first := by
  obtain ⟨taken, left⟩ := split_filter sorted due
  have later : ∀ c ∈ t.calls.dropWhile (fun c => decide (c.due ≤ due)), due < c.due := by
    intro c member
    rw [left, List.mem_filter] at member
    simpa [Instant.le_def, Instant.lt_def] using member.2
  have earlier : ∀ c ∈ t.calls.takeWhile (fun c => decide (c.due ≤ due)), c.due ≤ due := by
    intro c member
    rw [taken, List.mem_filter] at member
    simpa using member.2
  rw [Sorted, DelayedCalls.callAt, List.pairwise_append, List.pairwise_cons]
  refine ⟨sorted.sublist (List.takeWhile_sublist _), ⟨?_, sorted.sublist (List.dropWhile_sublist _)⟩, ?_⟩
  · intro c member
    have after := later c member
    refine ⟨Nat.le_of_lt after, fun before => ?_⟩
    exact absurd after (Nat.not_lt.mpr before)
  · intro c member other behind
    have soon := earlier c member
    rcases List.mem_cons.mp behind with rfl | behind
    · exact ⟨soon, fun _ => last c ((List.takeWhile_sublist _).subset member)⟩
    · have after := later other behind
      refine ⟨Nat.le_trans soon (Nat.le_of_lt after), fun before => ?_⟩
      exact absurd (Nat.le_trans before soon) (Nat.not_le.mpr after)

theorem Sorted.of_sublist {fewer : DelayedCalls α} (sorted : t.Sorted first)
    (part : fewer.calls.Sublist t.calls) : fewer.Sorted first :=
  List.Pairwise.sublist part sorted

theorem takeDue_sublist (t : DelayedCalls α) (now : Instant) :
    (t.takeDue now).2.calls.Sublist t.calls :=
  List.dropWhile_sublist _

/-- A call that is due was kept. -/
theorem mem_takeDue (due : call ∈ (t.takeDue now).1) : ∃ c ∈ t.calls, c.call = call := by
  obtain ⟨c, taken, same⟩ := List.mem_map.mp due
  exact ⟨c, (List.takeWhile_sublist _).subset taken, same⟩

/-- Adding a call adds it once and nothing else. -/
theorem callAt_perm (t : DelayedCalls α) (due : Instant) (call : α) :
    (t.callAt due call).calls.Perm ({ due, call } :: t.calls) := by
  have moved : (t.callAt due call).calls.Perm ({ due, call } ::
      (t.calls.takeWhile (fun c => decide (c.due ≤ due)) ++
        t.calls.dropWhile fun c => decide (c.due ≤ due))) := List.perm_middle
  rwa [List.takeWhile_append_dropWhile] at moved

/-- The calls that are due and those that are left are all calls. -/
theorem countP_takeDue (t : DelayedCalls α) (now : Instant) (p : α → Bool) :
    (t.takeDue now).1.countP p + (t.takeDue now).2.calls.countP (fun c => p c.call) =
      t.calls.countP fun c => p c.call := by
  have parts := congrArg (List.countP fun c => p c.call)
    (List.takeWhile_append_dropWhile (p := fun c => decide (c.due ≤ now)) (l := t.calls))
  rw [List.countP_append] at parts
  rw [takeDue, List.countP_map]
  exact parts

/-- A call that is taken is due. -/
theorem due_of_mem_takeDue (taken : call ∈ (t.takeDue now).1) :
    ∃ c ∈ t.calls, c.call = call ∧ c.due ≤ now := by
  obtain ⟨c, member, same⟩ := List.mem_map.mp taken
  have early := List.all_eq_true.mp List.all_takeWhile c member
  exact ⟨c, (List.takeWhile_sublist _).subset member, same, of_decide_eq_true early⟩

end DelayedCalls

end NamedData
