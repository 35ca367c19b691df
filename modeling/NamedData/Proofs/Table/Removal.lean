import NamedData.Proofs.Table.Marks

/-!
Taking entries out of a table.

Every removal is one operation: the entries that pass some test leave the table, marked removed, and
the others keep their order. Extraction tests the interest, cancellation the identifier, and clearing
tests nothing; removing one entry tests the handle, as long as no two entries of the table share one
and none is marked (`removeEntry_eq`).
-/
namespace NamedData.PendingTable

variable {κ : Type}

/-- Take out the entries that pass a test, marking each removed. -/
def strike (t : PendingTable κ) (m : Marks) (test : PendingInterest κ → Bool) :
    PendingTable κ × Marks :=
  (⟨t.entries.filter fun e => !test e⟩, m.removeAll (t.entries.filter test))

/-- Whether the entry of a handle is in a table. -/
def holds (t : PendingTable κ) (handle : Nat) : Bool := t.entries.any fun e => e.handle == handle

theorem holds_iff {t : PendingTable κ} {handle : Nat} :
    t.holds handle = true ↔ ∃ entry ∈ t.entries, entry.handle = handle := by
  simp [holds]

/-- A sweep sorts the entries it comes upon into those that match the name and those that do not. -/
theorem foldl_visit (name : Name) (entries : List (PendingInterest κ)) (s : Sweep κ) :
    entries.foldl (Sweep.visit name) s =
      { output := s.output ++ entries.filter fun e => e.interest.matchesName name
        retained := s.retained ++ entries.filter fun e => !e.interest.matchesName name
        marks := s.marks.removeAll (entries.filter fun e => e.interest.matchesName name) } := by
  induction entries generalizing s with
  | nil => simp [Marks.removeAll]
  | cons entry entries ih =>
    rw [List.foldl_cons, ih]
    by_cases matching : entry.interest.matchesName name = true
    · simp [Sweep.visit, matching, Marks.removeAll]
    · simp [Sweep.visit, matching]

/-- What was put out before stays in front of what is put out now. -/
theorem extractMatching_output (t : PendingTable κ) (m : Marks) (name : Name)
    (output : List (PendingInterest κ)) :
    t.extractMatching m name output =
      (output ++ (t.entries.filter fun e => e.interest.matchesName name).reverse,
        t.strike m fun e => e.interest.matchesName name) := by
  have marks := Marks.removeAll_perm (m := m)
    (List.reverse_perm (t.entries.filter fun e => e.interest.matchesName name))
  simp only [extractMatching, foldl_visit, List.filter_reverse, List.nil_append, List.reverse_reverse,
    marks, strike]

theorem extractMatching_eq (t : PendingTable κ) (m : Marks) (name : Name) :
    t.extractMatching m name =
      ((t.entries.filter fun e => e.interest.matchesName name).reverse,
        t.strike m fun e => e.interest.matchesName name) :=
  extractMatching_output t m name []

theorem removeById_eq (t : PendingTable κ) (m : Marks) (id : EntryId) :
    t.removeById m id = t.strike m fun e => e.id == id := rfl

theorem clear_eq (t : PendingTable κ) (m : Marks) : t.clear m = t.strike m fun _ => true := by
  simp [clear, strike]

/-- In a list without two entries of one handle, an entry is found once by its handle. -/
theorem filter_handle {entries : List (PendingInterest κ)} {entry : PendingInterest κ}
    (distinct : (entries.map (·.handle)).Nodup) (member : entry ∈ entries) :
    entries.filter (fun e => e.handle == entry.handle) = [entry] := by
  induction entries with
  | nil => cases member
  | cons head tail ih =>
    obtain ⟨fresh, distinct⟩ := List.nodup_cons.mp distinct
    rcases List.mem_cons.mp member with rfl | member
    · have others : ∀ other ∈ tail, other.handle ≠ entry.handle := by
        intro other member same
        exact fresh (List.mem_map.mpr ⟨other, member, same⟩)
      simpa using others
    · have different : head.handle ≠ entry.handle := by
        intro same
        exact fresh (List.mem_map.mpr ⟨entry, member, same.symm⟩)
      simp [different, ih distinct member]

/-- In such a list, dropping the first entry of a handle drops all of them. -/
private theorem eraseP_handle {entries : List (PendingInterest κ)}
    (distinct : (entries.map (·.handle)).Nodup) (handle : Nat) :
    entries.eraseP (fun e => e.handle == handle) =
      entries.filter fun e => !(e.handle == handle) := by
  induction entries with
  | nil => rfl
  | cons head tail ih =>
    obtain ⟨fresh, distinct⟩ := List.nodup_cons.mp distinct
    by_cases here : head.handle = handle
    · have others : ∀ entry ∈ tail, entry.handle ≠ handle := by
        intro entry member same
        exact fresh (List.mem_map.mpr ⟨entry, member, same.trans here.symm⟩)
      rw [List.eraseP_cons_of_pos (by simpa using here),
        List.filter_cons_of_neg (by simpa using here)]
      exact (List.filter_eq_self.mpr (by simpa using others)).symm
    · rw [List.eraseP_cons_of_neg (by simpa using here), ih distinct,
        List.filter_cons_of_pos (by simpa using here)]

/-- A test that no entry passes changes nothing. -/
theorem strike_none {t : PendingTable κ} {m : Marks} {test : PendingInterest κ → Bool}
    (none : ∀ entry ∈ t.entries, test entry = false) : t.strike m test = (t, m) := by
  have kept : t.entries.filter (fun e => !test e) = t.entries :=
    List.filter_eq_self.mpr fun entry member => by rw [none entry member]; rfl
  have struck : t.entries.filter test = [] :=
    List.filter_eq_nil_iff.mpr fun entry member => by simp [none entry member]
  simp [strike, kept, struck, Marks.removeAll]

/-- Removing the entry of a handle takes it out if it is there, and tells whether it was. -/
theorem removeEntry_eq {t : PendingTable κ} {m : Marks} (handle : Nat)
    (distinct : (t.entries.map (·.handle)).Nodup)
    (unmarked : ∀ entry ∈ t.entries, m.isRemoved entry.handle = false) :
    t.removeEntry m handle = (t.holds handle, t.strike m fun e => e.handle == handle) := by
  by_cases found : ∃ entry ∈ t.entries, entry.handle = handle
  · have held : t.holds handle = true := holds_iff.mpr found
    obtain ⟨entry, member, rfl⟩ := found
    have clean := unmarked entry member
    have kept := filter_handle distinct member
    have erased := eraseP_handle distinct entry.handle
    rw [removeEntry, clean, if_neg Bool.false_ne_true]
    change (if t.holds entry.handle = true then _ else _) = _
    rw [if_pos held, held]
    simp [strike, kept, erased, Marks.removeAll]
  · have absent : ∀ entry ∈ t.entries, (entry.handle == handle) = false := by
      intro entry member
      exact beq_eq_false_iff_ne.mpr fun same => found ⟨entry, member, same⟩
    have missing : t.holds handle = false := by
      rw [← Bool.not_eq_true, holds_iff]
      exact found
    rw [strike_none absent, missing, removeEntry]
    split
    · rfl
    · rw [if_neg (by simpa [holds] using missing)]

theorem removeEntry_of_false {t : PendingTable κ} {m : Marks} {handle : Nat}
    (missed : (t.removeEntry m handle).1 = false) : t.removeEntry m handle = (false, t, m) := by
  rw [removeEntry] at missed ⊢
  split at missed
  · next marked => rw [if_pos marked]
  · next unmarked =>
    split at missed
    · cases missed
    · next absent => rw [if_neg unmarked, if_neg absent]

theorem removeEntry_of_true {t : PendingTable κ} {m : Marks} {handle : Nat}
    (removed : (t.removeEntry m handle).1 = true) :
    t.holds handle = true ∧ t.removeEntry m handle =
      (true, ⟨t.entries.eraseP fun e => e.handle == handle⟩, m.remove handle) := by
  rw [removeEntry] at removed ⊢
  split at removed
  · cases removed
  · next unmarked =>
    split at removed
    · next found => exact ⟨found, by rw [if_neg unmarked, if_pos found]⟩
    · cases removed

theorem removeEntry_sublist (t : PendingTable κ) (m : Marks) (handle : Nat) :
    (t.removeEntry m handle).2.1.entries.Sublist t.entries := by
  cases found : (t.removeEntry m handle).1 with
  | false =>
    rw [removeEntry_of_false found]
  | true =>
    rw [(removeEntry_of_true found).2]
    exact List.eraseP_sublist

end NamedData.PendingTable
