import Mathlib.Logic.Function.Iterate
import NamedData.EntryId

/-!
Identifiers in the order they are drawn.

The counter comes round after `UInt64.size` draws. Until then every identifier has a rank, the number of
identifiers that were drawn before it, and no two have the same.
-/
namespace NamedData.EntryId

/-- The identifier that is drawn after a number of others. -/
def nth (n : Nat) : EntryId := succ^[n] first

/-- How many identifiers are drawn before this one. -/
def rank (id : EntryId) : Nat := (id.value - 1).toNat

theorem rank_injective {id other : EntryId} (same : id.rank = other.rank) : id = other := by
  have value : id.value - 1 = other.value - 1 := UInt64.toNat_inj.mp same
  have value : id.value = other.value := by
    rw [← UInt64.sub_add_cancel id.value 1, value, UInt64.sub_add_cancel]
  exact congrArg EntryId.mk value

/-- Drawing an identifier leads to the next rank, unless the counter comes round. -/
theorem rank_succ {id : EntryId} (room : id.rank + 1 < UInt64.size) : id.succ.rank = id.rank + 1 := by
  have value : id.value + 1 - 1 = id.value - 1 + 1 := by
    rw [UInt64.add_sub_cancel, UInt64.sub_add_cancel]
  have one : (1 : UInt64).toNat = 1 := rfl
  rw [rank, succ, value, UInt64.toNat_add, one]
  exact Nat.mod_eq_of_lt room

theorem nth_succ (n : Nat) : nth (n + 1) = (nth n).succ := Function.iterate_succ_apply' ..

/-- Of fewer identifiers than the counter has, each has its own rank. -/
theorem rank_nth {n : Nat} (room : n < UInt64.size) : (nth n).rank = n := by
  induction n with
  | zero => rfl
  | succ n ih =>
    have before := ih (by omega)
    rw [nth_succ, rank_succ (by omega), before]

theorem succ_ne (id : EntryId) : id.succ ≠ id := by
  intro same
  have value : id.value + 1 = id.value + 0 := by rw [UInt64.add_zero]; exact congrArg EntryId.value same
  exact absurd ((UInt64.add_right_inj _).mp value) (by decide)

/-- Drawing an identifier leads to a later one, as long as it does not lead back. -/
theorem rank_lt_succ {id : EntryId} (forward : id.rank ≤ id.succ.rank) : id.rank < id.succ.rank :=
  Nat.lt_of_le_of_ne forward fun same => succ_ne id (rank_injective same).symm

end NamedData.EntryId
