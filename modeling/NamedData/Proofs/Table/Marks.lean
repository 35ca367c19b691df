import Mathlib.Data.List.Perm.Basic
import NamedData.Table.Pending

/-!
What issuing a handle and marking entries does to a set of marks.
-/
namespace NamedData.Marks

variable {κ : Type} {m : Marks} {handle other : Nat}

@[simp] theorem next_issue (m : Marks) : m.issue.next = m.next + 1 := Array.size_push ..

@[simp] theorem next_remove (m : Marks) (handle : Nat) : (m.remove handle).next = m.next :=
  Array.size_setIfInBounds ..

@[simp] theorem next_removeAll (m : Marks) (entries : List (PendingInterest κ)) :
    (m.removeAll entries).next = m.next := by
  induction entries generalizing m with
  | nil => rfl
  | cons entry entries ih => exact (ih (m.remove entry.handle)).trans (next_remove ..)

/-- The entry of a new handle is not marked, and the marks of the others stay. -/
@[simp] theorem isRemoved_issue (m : Marks) (handle : Nat) :
    m.issue.isRemoved handle = m.isRemoved handle := by
  simp only [isRemoved, issue, Array.getElem?_push]
  split
  · next same =>
    subst same
    simp
  · rfl

/-- Nothing is marked under a handle that has not been issued. -/
theorem isRemoved_of_le (unissued : m.next ≤ handle) : m.isRemoved handle = false := by
  simp only [isRemoved]
  rw [Array.getElem?_eq_none unissued]
  rfl

theorem isRemoved_remove_self (issued : handle < m.next) :
    (m.remove handle).isRemoved handle = true := by
  simp only [isRemoved, remove]
  rw [Array.getElem?_setIfInBounds_self_of_lt issued]
  rfl

theorem isRemoved_remove_of_ne (different : other ≠ handle) :
    (m.remove handle).isRemoved other = m.isRemoved other := by
  simp only [isRemoved, remove]
  rw [Array.getElem?_setIfInBounds_ne (Ne.symm different)]

/-- After several entries have been marked, a handle is marked if it was before or is theirs. -/
theorem isRemoved_removeAll_iff {entries : List (PendingInterest κ)} :
    (m.removeAll entries).isRemoved handle = true ↔
      m.isRemoved handle = true ∨ handle < m.next ∧ ∃ entry ∈ entries, entry.handle = handle := by
  induction entries generalizing m with
  | nil => simp [removeAll]
  | cons entry entries ih =>
    have step := ih (m := m.remove entry.handle)
    simp only [removeAll, List.foldl_cons] at step ⊢
    rw [step, next_remove]
    by_cases same : handle = entry.handle
    · subst same
      by_cases issued : entry.handle < m.next
      · simp [isRemoved_remove_self issued, issued]
      · have unmarked := isRemoved_of_le (Nat.le_of_not_lt issued)
        have still : (m.remove entry.handle).isRemoved entry.handle = false :=
          isRemoved_of_le (by simpa using issued)
        simp [unmarked, still, issued]
    · rw [isRemoved_remove_of_ne same]
      simp [Ne.symm same]

/-- The order in which entries are marked does not matter. -/
theorem removeAll_perm {entries others : List (PendingInterest κ)} (same : entries.Perm others) :
    m.removeAll entries = m.removeAll others := by
  apply same.foldl_eq'
  intro first _ second _ marks
  simp only [remove, Marks.mk.injEq]
  by_cases equal : first.handle = second.handle
  · rw [equal]
  · exact Array.setIfInBounds_comm _ _ equal

end NamedData.Marks

namespace NamedData.PendingInterest

/-- Texts around a flag are the same when the flag is. -/
private theorem append_flag_inj {front back : String} {flag other : Bool} :
    front ++ (if flag then "true" else "false") ++ back =
        front ++ (if other then "true" else "false") ++ back ↔ flag = other := by
  rw [String.append_left_inj, String.append_right_inj]
  cases flag <;> cases other <;> decide

/-- The one thing about the description of an entry that can change is whether it is marked removed. -/
theorem describe_eq_iff {κ : Type} {entry : PendingInterest κ} {m later : Marks} :
    entry.describe later = entry.describe m ↔ later.isRemoved entry.handle = m.isRemoved entry.handle :=
  append_flag_inj

end NamedData.PendingInterest
