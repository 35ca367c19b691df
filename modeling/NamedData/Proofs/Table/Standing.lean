import NamedData.Proofs.Table.Agreement

/-!
One table of a host, whatever becomes of the other tables.

The entries of a table stand in the order they were added and none of them is marked
(`PendingTable.Standing`). The operations on the table keep this, and so does anything that is done to
the marks of other tables.
-/
namespace NamedData.PendingTable

variable {κ : Type} {t : PendingTable κ} {m : Marks}

/-- The entries of a table are ordered by their handles, and none of them is marked. -/
structure Standing (t : PendingTable κ) (m : Marks) : Prop where
  ordered : t.entries.Pairwise fun a b => a.handle < b.handle
  issued : ∀ entry ∈ t.entries, entry.handle < m.next
  unmarked : ∀ entry ∈ t.entries, m.isRemoved entry.handle = false

namespace Standing

theorem distinct (standing : t.Standing m) : (t.entries.map (·.handle)).Nodup := by
  rw [List.nodup_iff_pairwise_ne, List.pairwise_map]
  exact standing.ordered.imp fun before => Nat.ne_of_lt before

/-- Entries that share a handle are the same entry. -/
theorem eq_of_handle (standing : t.Standing m) {entry other : PendingInterest κ}
    (member : entry ∈ t.entries) (waits : other ∈ t.entries) (same : entry.handle = other.handle) :
    entry = other :=
  List.inj_on_of_nodup_map standing.distinct member waits same

/-- To remove an entry leaves those of other handles. -/
theorem mem_removeEntry (standing : t.Standing m) {handle : Nat} {entry : PendingInterest κ}
    (member : entry ∈ (t.removeEntry m handle).2.1.entries) :
    entry ∈ t.entries ∧ entry.handle ≠ handle := by
  rw [removeEntry_eq handle standing.distinct standing.unmarked] at member
  obtain ⟨waits, stays⟩ := List.mem_filter.mp member
  exact ⟨waits, by simpa using stays⟩

/-- Entries that stay are not marked along with those that leave. -/
theorem strike (standing : t.Standing m) (test : PendingInterest κ → Bool) :
    (t.strike m test).1.Standing (t.strike m test).2 := by
  have kept : ∀ entry ∈ (t.strike m test).1.entries, entry ∈ t.entries ∧ test entry = false := by
    intro entry member
    simpa [PendingTable.strike] using member
  constructor
  case ordered => exact standing.ordered.filter _
  case issued =>
    intro entry member
    simpa [PendingTable.strike] using standing.issued entry (kept entry member).1
  case unmarked =>
    intro entry member
    obtain ⟨waits, stays⟩ := kept entry member
    rw [← Bool.not_eq_true]
    intro marked
    rcases Marks.isRemoved_removeAll_iff.mp marked with before | ⟨-, other, struck, same⟩
    · simp [standing.unmarked entry waits] at before
    · obtain ⟨member, leaves⟩ := List.mem_filter.mp struck
      rw [standing.eq_of_handle member waits same, stays] at leaves
      cases leaves

theorem add (standing : t.Standing m) (id : EntryId) (interest : Interest) (onData : κ)
    (onTimeout : Option κ) :
    (t.add m id interest onData onTimeout).2.1.Standing
      (t.add m id interest onData onTimeout).2.2 := by
  simp only [PendingTable.add]
  constructor
  case ordered =>
    rw [List.pairwise_append]
    refine ⟨standing.ordered, List.pairwise_singleton .., ?_⟩
    intro entry member other new
    rw [List.mem_singleton.mp new]
    exact standing.issued entry member
  case issued =>
    intro entry member
    rw [Marks.next_issue]
    rcases List.mem_append.mp member with old | new
    · have before := standing.issued entry old
      omega
    · rw [List.mem_singleton.mp new]
      exact Nat.lt_succ_self m.next
  case unmarked =>
    intro entry member
    rw [Marks.isRemoved_issue]
    rcases List.mem_append.mp member with old | new
    · exact standing.unmarked entry old
    · rw [List.mem_singleton.mp new]
      exact Marks.isRemoved_of_le (Nat.le_refl _)

/-- Every operation on a table keeps it in order. -/
theorem perform (standing : t.Standing m) (operation : TableOperation κ) :
    (t.perform m operation).2.1.Standing (t.perform m operation).2.2 := by
  cases selects : operation.test? with
  | some test =>
    rw [perform_removal selects standing.distinct standing.unmarked]
    exact standing.strike test
  | none =>
    cases operation with
    | add id interest onData onTimeout => exact standing.add id interest onData onTimeout
    | extract | removeById | removeEntry | clear => cases selects

/-- Marks that stay for the entries of a table may change for all others. -/
theorem of_kept {later : Marks} (standing : t.Standing m) (issued : m.next ≤ later.next)
    (kept : ∀ entry ∈ t.entries, later.isRemoved entry.handle = m.isRemoved entry.handle) :
    t.Standing later where
  ordered := standing.ordered
  issued entry member := Nat.lt_of_lt_of_le (standing.issued entry member) issued
  unmarked entry member := (kept entry member).trans (standing.unmarked entry member)

end Standing

end NamedData.PendingTable
