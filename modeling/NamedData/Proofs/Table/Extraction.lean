import NamedData.Proofs.Table.Agreement

/-!
Moving the entries that match a name out of a table.

A sweep comes upon the entries from the last one added to the first, and yet those that stay keep their
order, because what it retains is turned round in the end (`foldl_visit`). In every table that can come
about no two entries share a handle (`Tables.Reached.sound`), also where entries have been marked from
outside; so the entries that are moved out are marked, and all others are left as they were
(`matching_entries_are_moved_out`).
-/
namespace NamedData

namespace PendingTable

variable {κ : Type} {t left : PendingTable κ} {m marks : Marks}

/-- The entries of a table whose interest matches a name, in the order they were added. -/
def matching (t : PendingTable κ) (name : Name) : List (PendingInterest κ) :=
  t.entries.filter fun e => e.interest.matchesName name

/-- The entries of a table have handles that were issued, and no two have the same. -/
structure Sound (t : PendingTable κ) (m : Marks) : Prop where
  issued : ∀ entry ∈ t.entries, entry.handle < m.next
  distinct : (t.entries.map (·.handle)).Nodup

namespace Sound

theorem of_sublist (sound : t.Sound m) (fewer : left.entries.Sublist t.entries)
    (next : m.next ≤ marks.next) : left.Sound marks where
  issued entry member := Nat.lt_of_lt_of_le (sound.issued entry (fewer.subset member)) next
  distinct := sound.distinct.sublist (fewer.map _)

theorem add (sound : t.Sound m) (id : EntryId) (interest : Interest) (onData : κ)
    (onTimeout : Option κ) :
    (t.add m id interest onData onTimeout).2.1.Sound (t.add m id interest onData onTimeout).2.2 := by
  simp only [PendingTable.add]
  constructor
  case issued =>
    intro entry member
    rw [Marks.next_issue]
    rcases List.mem_append.mp member with old | new
    · exact Nat.lt_succ_of_lt (sound.issued entry old)
    · rw [List.mem_singleton.mp new]
      exact Nat.lt_succ_self m.next
  case distinct =>
    rw [List.map_append, List.nodup_append]
    refine ⟨sound.distinct, List.nodup_singleton _, ?_⟩
    intro handle old other new same
    obtain ⟨entry, member, rfl⟩ := List.mem_map.mp old
    exact Nat.ne_of_lt (sound.issued entry member) (same.trans (List.mem_singleton.mp new))

end Sound

/-- An operation that takes entries out leaves some of those that were there, and issues no handle. -/
theorem left_of_removal (t : PendingTable κ) (m : Marks) {operation : TableOperation κ}
    (removes : operation.test?.isSome) :
    (t.perform m operation).2.1.entries.Sublist t.entries ∧
      (t.perform m operation).2.2.next = m.next := by
  have strike : ∀ test, (t.strike m test).1.entries.Sublist t.entries ∧
      (t.strike m test).2.next = m.next :=
    fun _ => ⟨List.filter_sublist, Marks.next_removeAll ..⟩
  cases operation with
  | add => cases removes
  | extract name =>
    simp only [PendingTable.perform, extractMatching_eq]
    exact strike _
  | removeById id => exact strike _
  | removeEntry handle =>
    cases removed : (t.removeEntry m handle).1 with
    | true =>
      simp only [PendingTable.perform, (removeEntry_of_true removed).2]
      exact ⟨List.eraseP_sublist, Marks.next_remove ..⟩
    | false =>
      simp only [PendingTable.perform, removeEntry_of_false removed]
      exact ⟨.refl _, trivial⟩
  | clear =>
    simp only [PendingTable.perform, clear_eq]
    exact strike _

theorem next_le_perform (t : PendingTable κ) (m : Marks) (operation : TableOperation κ) :
    m.next ≤ (t.perform m operation).2.2.next := by
  by_cases removes : operation.test?.isSome
  · exact (left_of_removal t m removes).2.ge
  · cases operation with
    | add => exact (Nat.le_succ _).trans (Marks.next_issue m).ge
    | _ => exact absurd rfl removes

/-- Every operation keeps the handles of a table issued and distinct. -/
theorem Sound.perform (sound : t.Sound m) (operation : TableOperation κ) :
    (t.perform m operation).2.1.Sound (t.perform m operation).2.2 := by
  by_cases removes : operation.test?.isSome
  · exact sound.of_sublist (left_of_removal t m removes).1 (left_of_removal t m removes).2.ge
  · cases operation with
    | add id interest onData onTimeout => exact sound.add id interest onData onTimeout
    | _ => exact absurd rfl removes

end PendingTable

namespace Tables

variable {ι κ : Type} [DecidableEq ι] {s : Tables ι κ}

/-- The tables that can come about: operations are carried out on them, and now and then an entry is
marked from outside, wherever it is. -/
inductive Reached : Tables ι κ → Prop where
  | fresh : Reached {}
  | perform {s : Tables ι κ} (reached : Reached s) (move : ι × TableOperation κ) :
      Reached (s.stage move).after
  | mark {s : Tables ι κ} (reached : Reached s) (handle : Nat) :
      Reached ⟨s.table, s.marks.remove handle⟩

/-- In no table that can come about do two entries share a handle. -/
theorem Reached.sound (reached : s.Reached) (i : ι) : (s.table i).Sound s.marks := by
  induction reached with
  | fresh => exact ⟨by simp, List.nodup_nil⟩
  | perform _ move ih =>
    obtain ⟨j, operation⟩ := move
    by_cases here : i = j
    · subst here
      have sound := ih.perform operation
      simpa only [stage, Function.update_self] using sound
    · simp only [stage, Function.update_of_ne here]
      exact ih.of_sublist (.refl _) (PendingTable.next_le_perform ..)
  | mark _ handle ih => exact ih.of_sublist (.refl _) (Marks.next_remove ..).ge

end Tables

namespace PendingTable

variable {κ : Type} {t : PendingTable κ} {m : Marks}

/-- What it comes to when the entries that match a name are moved out of a table, given what has been put
out then, what is left of the table, and the marks. -/
structure MovedOut (t : PendingTable κ) (m : Marks) (name : Name)
    (output out : List (PendingInterest κ)) (left : PendingTable κ) (marks : Marks) : Prop where
  /-- What was put out before stays in front. Behind it stand the entries that match, the last one added
  first. -/
  put_out : out = output ++ (t.matching name).reverse
  /-- None of them is put out twice. -/
  once : ((t.matching name).reverse.map (·.handle)).Nodup
  /-- Each of them is marked. -/
  marked : ∀ entry ∈ t.matching name, marks.isRemoved entry.handle = true
  /-- The others stay, in the order they were added. -/
  stay : left.entries = t.entries.filter fun e => !e.interest.matchesName name
  /-- They are marked, or not, as they were before. -/
  unmoved : ∀ entry ∈ left.entries, marks.isRemoved entry.handle = m.isRemoved entry.handle
  /-- So is every entry of any other table. -/
  elsewhere : ∀ handle, t.holds handle = false → marks.isRemoved handle = m.isRemoved handle
  /-- To do it again puts nothing out and changes nothing, whatever has been put out by then. -/
  again : ∀ later, left.extractMatching marks name later = (later, left, marks)

/-- The marks that are set when entries are moved out are those of the entries that match. -/
theorem isRemoved_extracted_iff (sound : t.Sound m) {name : Name} {handle : Nat} :
    (t.strike m fun e => e.interest.matchesName name).2.isRemoved handle = true ↔
      m.isRemoved handle = true ∨ ∃ entry ∈ t.matching name, entry.handle = handle := by
  rw [strike, Marks.isRemoved_removeAll_iff]
  refine or_congr Iff.rfl (and_iff_right_of_imp ?_)
  rintro ⟨entry, member, rfl⟩
  exact sound.issued entry (List.mem_filter.mp member).1

/-- Once the entries that match have been moved out, none is left that does. -/
theorem extractMatching_strike (t : PendingTable κ) (m : Marks) (name : Name)
    (later : List (PendingInterest κ)) :
    (t.strike m fun e => e.interest.matchesName name).1.extractMatching
        (t.strike m fun e => e.interest.matchesName name).2 name later =
      (later, t.strike m fun e => e.interest.matchesName name) := by
  have none : ∀ entry ∈ (t.strike m fun e => e.interest.matchesName name).1.entries,
      entry.interest.matchesName name = false := by
    intro entry member
    simpa using (List.mem_filter.mp member).2
  have taken : (t.strike m fun e => e.interest.matchesName name).1.entries.filter
      (fun e => e.interest.matchesName name) = [] :=
    List.filter_eq_nil_iff.mpr fun entry member => by simp [none entry member]
  rw [extractMatching_output, taken, strike_none none, List.reverse_nil, List.append_nil]

theorem Sound.movedOut (sound : t.Sound m) (name : Name) (output : List (PendingInterest κ)) :
    MovedOut t m name output (t.extractMatching m name output).1
      (t.extractMatching m name output).2.1 (t.extractMatching m name output).2.2 := by
  -- A handle that is not among those of the entries that match keeps its mark.
  have kept : ∀ handle, (∀ entry ∈ t.matching name, entry.handle ≠ handle) →
      (t.strike m fun e => e.interest.matchesName name).2.isRemoved handle = m.isRemoved handle := by
    intro handle others
    rw [Bool.eq_iff_iff, isRemoved_extracted_iff sound]
    refine or_iff_left ?_
    rintro ⟨entry, member, same⟩
    exact others entry member same
  rw [extractMatching_output]
  constructor
  case put_out => rfl
  case once =>
    rw [List.map_reverse, List.nodup_reverse]
    exact sound.distinct.sublist (List.filter_sublist.map _)
  case marked =>
    intro entry member
    exact (isRemoved_extracted_iff sound).mpr (.inr ⟨entry, member, rfl⟩)
  case stay => rfl
  case unmoved =>
    intro entry member
    obtain ⟨waits, differs⟩ := List.mem_filter.mp member
    refine kept entry.handle fun other taken same => ?_
    obtain ⟨held, matching⟩ := List.mem_filter.mp taken
    rw [List.inj_on_of_nodup_map sound.distinct held waits same] at matching
    simp [matching] at differs
  case elsewhere =>
    intro handle absent
    refine kept handle fun entry member same => ?_
    have held := holds_iff.mpr ⟨entry, (List.mem_filter.mp member).1, same⟩
    exact Bool.false_ne_true (absent.symm.trans held)
  case again => exact extractMatching_strike t m name

end PendingTable

namespace Tables

variable {ι κ : Type} [DecidableEq ι] {s : Tables ι κ}

/-- **The entries that match a name are moved out of a table.** They come behind what has been put out
before, the last one added first, each once and marked; the others stay in their order, marked or not as
they were, and so does everything elsewhere; and there is nothing more to move. -/
theorem matching_entries_are_moved_out (reached : s.Reached) (i : ι) (name : Name)
    (output : List (PendingInterest κ)) :
    let (out, left, marks) := (s.table i).extractMatching s.marks name output
    (s.table i).MovedOut s.marks name output out left marks :=
  (reached.sound i).movedOut name output

/-- An interest in everything that begins with some components, each of one octet. -/
def interestIn (octets : Bytes) : Interest := { name := ⟨octets.map fun b => ⟨[b]⟩⟩ }

/-- Four entries, the first of which was marked from outside and the third of which has been cancelled. -/
def fourAdded : Tables Unit Unit :=
  let s := after {} [((), .add .first (interestIn [1]) () none), ((), .add .first (interestIn [2]) () none),
    ((), .add ⟨2⟩ (interestIn [1]) () none), ((), .removeById ⟨2⟩),
    ((), .add .first (interestIn [1, 2]) () none)]
  ⟨s.table, s.marks.remove 0⟩

theorem reached_fourAdded : fourAdded.Reached :=
  .mark (.perform (.perform (.perform (.perform (.perform .fresh _) _) _) _) _) 0

/-- The entry of `fourAdded` that has been cancelled. -/
def cancelledOne : PendingInterest Unit := ⟨2, ⟨2⟩, interestIn [1], (), none⟩

/-- Two of the entries match. The last one goes before the first, both behind the one that was put out
earlier, and the one that does not match stays. -/
theorem last_goes_before_first :
    let name := (interestIn [1, 2, 3]).name
    let (out, left, marks) := (fourAdded.table ()).extractMatching fourAdded.marks name [cancelledOne]
    fourAdded.Reached ∧ out.map (·.handle) = [2, 3, 0] ∧ left.entries.map (·.handle) = [1] ∧
      (∀ entry ∈ left.entries, marks.isRemoved entry.handle = fourAdded.marks.isRemoved entry.handle) ∧
      left.extractMatching marks name out = (out, left, marks) := by
  have moved := matching_entries_are_moved_out reached_fourAdded () (interestIn [1, 2, 3]).name
    [cancelledOne]
  refine ⟨reached_fourAdded, ?_, ?_, moved.unmoved, moved.again _⟩
  · rw [moved.put_out]
    rfl
  · rw [moved.stay]
    rfl

end Tables

end NamedData
