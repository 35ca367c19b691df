import NamedData.Proofs.Table.Agreement

/-!
Accounting for the entries of any number of tables: an entry that has left its table was credited to
exactly one operation.
-/
namespace NamedData

namespace TableStage

variable {ι κ : Type}

/-- The entries that were put out. -/
def extracted (stage : TableStage ι κ) : List (PendingInterest κ) :=
  match stage.events with
  | [.extracted entries] => entries
  | _ => []

/-- Whether the entry of a handle was reported removed. -/
def confirms (handle : Nat) (stage : TableStage ι κ) : Bool :=
  match stage.move.2, stage.events with
  | .removeEntry removed, [.answered true] => removed == handle
  | _, _ => false

/-- Whether the entry of a handle left the table without a word. -/
def drops (handle : Nat) (stage : TableStage ι κ) : Bool :=
  match stage.move.2 with
  | .removeById _ | .clear =>
    (stage.before.table stage.move.1).holds handle && !(stage.after.table stage.move.1).holds handle
  | _ => false

/-- How often the entry of a handle was put out. -/
def delivered (handle : Nat) (stages : List (TableStage ι κ)) : Nat :=
  (stages.flatMap extracted).countP (·.handle == handle)

/-- How often the entry of a handle was reported removed. -/
def confirmed (handle : Nat) (stages : List (TableStage ι κ)) : Nat :=
  stages.countP (confirms handle)

/-- How often the entry of a handle was dropped. -/
def dropped (handle : Nat) (stages : List (TableStage ι κ)) : Nat := stages.countP (drops handle)

/-- How often the departure of the entry of a handle was credited to some operation. -/
def credit (handle : Nat) (stages : List (TableStage ι κ)) : Nat :=
  delivered handle stages + confirmed handle stages + dropped handle stages

theorem credit_append (handle : Nat) (stages others : List (TableStage ι κ)) :
    credit handle (stages ++ others) = credit handle stages + credit handle others := by
  simp only [credit, delivered, confirmed, dropped, List.flatMap_append, List.countP_append]
  omega

theorem credit_singleton (handle : Nat) (stage : TableStage ι κ) :
    credit handle [stage] = (extracted stage).countP (·.handle == handle) +
      (if confirms handle stage then 1 else 0) + if drops handle stage then 1 else 0 := by
  simp [credit, delivered, confirmed, dropped, List.countP_singleton]

end TableStage

namespace Tables

open TableStage

variable {ι κ : Type} [DecidableEq ι] {added : List (ι × PendingInterest κ)} {s : Tables ι κ}

/-- How often the entry of a handle is in a table. -/
def standing (s : Tables ι κ) (i : ι) (handle : Nat) : Nat :=
  (s.table i).entries.countP (·.handle == handle)

/-- In a table without two entries of one handle, an entry is counted once. -/
theorem countP_handle {t : PendingTable κ} (handle : Nat)
    (distinct : (t.entries.map (·.handle)).Nodup) :
    t.entries.countP (·.handle == handle) = if t.holds handle then 1 else 0 := by
  have counted :
      t.entries.countP (·.handle == handle) = (t.entries.map (·.handle)).count handle := by
    rw [List.count, List.countP_map]
    rfl
  rw [counted, distinct.count]
  simp [PendingTable.holds]

/-- Extraction puts out the entries that match, the last one added first. -/
theorem extracted_extract (s : Tables ι κ) (i : ι) (name : Name) :
    extracted (s.stage (i, .extract name)) =
      ((s.table i).entries.filter fun e => e.interest.matchesName name).reverse := by
  simp only [extracted, stage, PendingTable.perform, PendingTable.extractMatching_eq]

/-- Extraction is credited with the entries it puts out. -/
private theorem credit_extract (s : Tables ι κ) (i : ι) (name : Name) (handle : Nat) :
    credit handle [s.stage (i, .extract name)] =
      ((s.table i).entries.filter fun e => e.interest.matchesName name).countP
        (·.handle == handle) := by
  have silent : confirms handle (s.stage (i, .extract name)) = false := rfl
  have quiet : drops handle (s.stage (i, .extract name)) = false := rfl
  simp [credit_singleton, extracted_extract, silent, quiet]

/-- Removing one entry is credited with it if it was there. -/
private theorem credit_removeEntry (agrees : Agrees added s) (i : ι) (removed handle : Nat) :
    credit handle [s.stage (i, .removeEntry removed)] =
      if (s.table i).holds removed && removed == handle then 1 else 0 := by
  have events := agrees.events_removeEntry i removed
  have silent : extracted (s.stage (i, .removeEntry removed)) = [] := by rw [extracted, events]
  have reported : confirms handle (s.stage (i, .removeEntry removed)) =
      ((s.table i).holds removed && removed == handle) := by
    rw [confirms, events]
    cases (s.table i).holds removed <;> rfl
  have quiet : drops handle (s.stage (i, .removeEntry removed)) = false := rfl
  simp [credit_singleton, silent, reported, quiet]

/-- Cancelling and clearing are credited with what leaves the table. -/
private theorem credit_drop (s : Tables ι κ) (i : ι) (handle : Nat)
    {operation : TableOperation κ} (drop : operation = .clear ∨ ∃ id, operation = .removeById id) :
    credit handle [s.stage (i, operation)] =
      if (s.table i).holds handle && !((s.stage (i, operation)).after.table i).holds handle
      then 1 else 0 := by
  have silent : extracted (s.stage (i, operation)) = [] := by
    rcases drop with rfl | ⟨id, rfl⟩ <;> rfl
  have unasked : confirms handle (s.stage (i, operation)) = false := by
    rcases drop with rfl | ⟨id, rfl⟩ <;> rfl
  have left : drops handle (s.stage (i, operation)) =
      ((s.table i).holds handle && !((s.stage (i, operation)).after.table i).holds handle) := by
    rcases drop with rfl | ⟨id, rfl⟩ <;> rfl
  rw [credit_singleton, silent, unasked, left]
  simp

/-- What a removal takes out of its table it is credited with. -/
theorem standing_removal (agrees : Agrees added s) (i : ι)
    {operation : TableOperation κ} {test : PendingInterest κ → Bool} (handle : Nat)
    (selects : operation.test? = some test) :
    standing (s.stage (i, operation)).after i handle + credit handle [s.stage (i, operation)] =
      standing s i handle := by
  have left : ((s.stage (i, operation)).after.table i).entries =
      (s.table i).entries.filter fun e => !test e := by
    rw [agrees.after_removal selects]
    change (Function.update s.table i _ i).entries = _
    rw [Function.update_self]
    rfl
  have before := countP_handle handle (agrees.distinct i)
  have drop : (operation = .clear ∨ ∃ id, operation = .removeById id) →
      standing (s.stage (i, operation)).after i handle + credit handle [s.stage (i, operation)] =
        standing s i handle := by
    intro drop
    have subset := left ▸ List.filter_sublist (l := (s.table i).entries) (p := fun e => !test e)
    have after := countP_handle handle ((agrees.distinct i).sublist (subset.map _))
    have stays : ((s.stage (i, operation)).after.table i).holds handle = true →
        (s.table i).holds handle = true := by
      simp only [PendingTable.holds_iff]
      rintro ⟨entry, member, same⟩
      exact ⟨entry, subset.subset member, same⟩
    rw [credit_drop s i handle drop, standing, standing, before, after]
    cases was : (s.table i).holds handle <;>
      cases remains : ((s.stage (i, operation)).after.table i).holds handle <;> simp_all
  cases operation with
  | add => cases selects
  | extract name =>
    cases selects
    rw [credit_extract, standing, standing, left, Nat.add_comm]
    exact (List.countP_eq_countP_filter_add ..).symm
  | removeById id => exact drop (.inr ⟨id, rfl⟩)
  | removeEntry removed =>
    cases selects
    rw [credit_removeEntry agrees, standing, standing, left, List.countP_filter]
    by_cases same : removed = handle
    · subst same
      have gone : (s.table i).entries.countP
          (fun e => (e.handle == removed) && !(e.handle == removed)) = 0 := by simp
      rw [gone, before]
      simp
    · have others : ∀ e : PendingInterest κ,
          ((e.handle == handle) && !(e.handle == removed)) = (e.handle == handle) := by
        intro e
        by_cases found : e.handle = handle <;> simp [found, Ne.symm same]
      simp only [others]
      simp [same]
  | clear => exact drop (.inl rfl)

/-- A handle that no entry of a table was given is not in it. -/
private theorem standing_eq_zero (agrees : Agrees added s) {i : ι} {handle : Nat}
    (other : ∀ p ∈ added, p.1 = i → p.2.handle ≠ handle) : standing s i handle = 0 := by
  rw [standing, List.countP_eq_zero]
  intro entry member same
  exact other (i, entry) (agrees.mem_table_iff.mp member).1 rfl (by simpa using same)

/-- An operation on one table leaves what the others hold as it is. -/
private theorem standing_of_ne (s : Tables ι κ) {i j : ι} (operation : TableOperation κ)
    (handle : Nat) (other : j ≠ i) :
    standing (s.stage (i, operation)).after j handle = standing s j handle := by
  change ((Function.update s.table i _ j).entries).countP _ = _
  rw [Function.update_of_ne other]
  rfl

/-- Every entry added so far is in its table or was credited to one operation; nothing is credited
under a handle that has not been issued. -/
private structure Credited (stages : List (TableStage ι κ)) (s : Tables ι κ) : Prop where
  once : ∀ p ∈ TableStage.added stages,
    standing s p.1 p.2.handle + credit p.2.handle stages = 1
  unissued : ∀ handle, s.marks.next ≤ handle → credit handle stages = 0

/-- A removal moves the entries it takes out from the table to its credit. -/
private theorem Credited.removal {stages : List (TableStage ι κ)}
    (agrees : Agrees (TableStage.added stages) s) (credited : Credited stages s) (i : ι)
    {operation : TableOperation κ} {test : PendingInterest κ → Bool}
    (selects : operation.test? = some test)
    (silent : added? (s.stage (i, operation)) = none) :
    Credited (stages ++ [s.stage (i, operation)]) (s.stage (i, operation)).after where
  once := by
    intro p member
    rw [TableStage.added_concat, silent, Option.toList_none, List.append_nil] at member
    have earlier := credited.once p member
    have moved := standing_removal agrees i p.2.handle selects
    rw [credit_append]
    by_cases own : p.1 = i
    · rw [own] at earlier ⊢
      omega
    · have elsewhere : standing s i p.2.handle = 0 := by
        apply standing_eq_zero agrees
        intro q listed here same
        obtain rfl := agrees.unique listed member same
        exact own here
      rw [standing_of_ne s operation _ own]
      omega
  unissued := by
    intro handle beyond
    have next : (s.stage (i, operation)).after.marks.next = s.marks.next := by
      rw [agrees.after_removal selects]
      exact Marks.next_removeAll ..
    rw [next] at beyond
    have earlier := credited.unissued handle beyond
    have moved := standing_removal agrees i handle selects
    have absent : standing s i handle = 0 := by
      apply standing_eq_zero agrees
      intro p listed _ same
      have issued := agrees.lt_next listed
      omega
    rw [credit_append]
    omega

/-- A new entry is in its table and has not been credited to anything. -/
private theorem Credited.add {stages : List (TableStage ι κ)}
    (agrees : Agrees (TableStage.added stages) s) (credited : Credited stages s) (i : ι)
    (id : EntryId) (interest : Interest) (onData : κ) (onTimeout : Option κ) :
    Credited (stages ++ [s.stage (i, .add id interest onData onTimeout)])
      (s.stage (i, .add id interest onData onTimeout)).after := by
  generalize added : s.stage (i, .add id interest onData onTimeout) = stage
  have free : ∀ handle, credit handle [stage] = 0 := by
    intro handle
    subst added
    simp [credit_singleton, extracted, confirms, drops, Tables.stage, PendingTable.perform]
  have next : stage.after.marks.next = s.marks.next + 1 := by
    subst added
    exact Marks.next_issue _
  have grows : ∀ j handle, standing stage.after j handle =
      standing s j handle + if j = i ∧ s.marks.next = handle then 1 else 0 := by
    intro j handle
    by_cases here : j = i
    · subst here added
      change (Function.update s.table j _ j).entries.countP _ = _
      rw [Function.update_self]
      simp [standing, List.countP_append, List.countP_singleton]
    · subst added
      rw [standing_of_ne s _ _ here, if_neg (by simp [here]), Nat.add_zero]
  have listed : (added? stage).toList =
      [(i, ⟨s.marks.next, id, interest, onData, onTimeout⟩)] := by
    subst added
    rfl
  constructor
  · intro p member
    rw [TableStage.added_concat, listed] at member
    rw [credit_append, free, grows, Nat.add_zero]
    rcases List.mem_append.mp member with old | new
    · have issued := agrees.lt_next old
      rw [if_neg (by omega)]
      exact credited.once p old
    · obtain rfl := List.mem_singleton.mp new
      have absent : standing s i s.marks.next = 0 := by
        apply standing_eq_zero agrees
        intro q old _ same
        have issued := agrees.lt_next old
        omega
      simp [absent, credited.unissued s.marks.next (Nat.le_refl _)]
  · intro handle beyond
    rw [next] at beyond
    rw [credit_append, free, credited.unissued handle (by omega)]

/-- After any operations every entry is in its table or was credited to one of them. -/
private theorem credited_after (moves : List (ι × TableOperation κ)) :
    Credited (({} : Tables ι κ).stages moves) (after {} moves) := by
  induction moves using List.reverseRecOn with
  | nil =>
    constructor
    · intro p member
      cases member
    · intro handle _
      rfl
  | append_singleton moves move ih =>
    have agrees := agrees_after moves
    obtain ⟨i, operation⟩ := move
    rw [stages_concat, after_concat]
    cases operation with
    | add id interest onData onTimeout => exact ih.add agrees i id interest onData onTimeout
    | extract name => exact ih.removal agrees i rfl rfl
    | removeById id => exact ih.removal agrees i rfl rfl
    | removeEntry handle => exact ih.removal agrees i rfl rfl
    | clear => exact ih.removal agrees i rfl rfl

/-- No operation takes a mark away. -/
theorem Agrees.isRemoved_stage {handle : Nat} (agrees : Agrees added s)
    (move : ι × TableOperation κ) (marked : s.marks.isRemoved handle = true) :
    (s.stage move).after.marks.isRemoved handle = true := by
  obtain ⟨i, operation⟩ := move
  cases selects : operation.test? with
  | some test =>
    rw [agrees.after_removal selects]
    exact Marks.isRemoved_removeAll_iff.mpr (.inl marked)
  | none =>
    cases operation with
    | add => exact (Marks.isRemoved_issue ..).trans marked
    | extract | removeById | removeEntry | clear => cases selects

/-- What is marked at some point of a run stays marked. -/
private theorem isRemoved_after {handle : Nat} (moves future : List (ι × TableOperation κ))
    (marked : (after ({} : Tables ι κ) moves).marks.isRemoved handle = true) :
    (after ({} : Tables ι κ) (moves ++ future)).marks.isRemoved handle = true := by
  induction future using List.reverseRecOn with
  | nil => simpa using marked
  | append_singleton future move ih =>
    rw [← List.append_assoc, after_concat]
    exact (agrees_after _).isRemoved_stage move ih

/-- What an operation puts out was in its table. -/
private theorem extracted_subset (s : Tables ι κ) (move : ι × TableOperation κ) :
    extracted (s.stage move) ⊆ (s.table move.1).entries := by
  obtain ⟨i, operation⟩ := move
  cases operation with
  | extract name =>
    rw [extracted_extract]
    intro entry taken
    exact List.mem_of_mem_filter (List.mem_reverse.mp taken)
  | add | removeById | removeEntry | clear => exact List.nil_subset _

/-- What is true of tables after some operations, the stages of which are given. -/
structure Accounted (stages : List (TableStage ι κ)) (s : Tables ι κ) : Prop where
  /-- An entry is unmarked exactly while it is in the table it was added to. -/
  unmarked_iff : ∀ i entry, (i, entry) ∈ TableStage.added stages →
    (s.marks.isRemoved entry.handle = false ↔ entry ∈ (s.table i).entries)
  /-- No other table holds it. -/
  nowhere_else : ∀ i entry, (i, entry) ∈ TableStage.added stages →
    ∀ j, (s.table j).holds entry.handle = true → j = i
  /-- No table holds an entry twice. -/
  distinct : ∀ i, ((s.table i).entries.map (·.handle)).Nodup
  /-- A table lists entries of its own, in the order they were added. -/
  ordered : ∀ i, (s.table i).entries.Sublist
    ((TableStage.added stages).filterMap fun p => if p.1 = i then some p.2 else none)
  /-- An entry is in its table, or was delivered, or was reported removed, or was dropped: one of
  these, and once. -/
  once : ∀ i entry, (i, entry) ∈ TableStage.added stages →
    (s.table i).entries.countP (·.handle == entry.handle) + delivered entry.handle stages +
      confirmed entry.handle stages + dropped entry.handle stages = 1
  /-- What is put out was in the table. -/
  genuine : ∀ stage ∈ stages, ∀ entry ∈ extracted stage,
    entry ∈ (stage.before.table stage.move.1).entries
  /-- An entry can be removed from a table exactly while it is there. -/
  removable_iff : ∀ i handle,
    ((s.table i).removeEntry s.marks handle).1 = true ↔ (s.table i).holds handle = true
  /-- No entry is reported removed twice. -/
  confirmed_le : ∀ handle, confirmed handle stages ≤ 1

/-- **Any number of tables account for every entry.** Whatever is done to them, in whatever order and
with whatever identifiers and handles, an entry is unmarked exactly while it is in its table, tables
list their entries in the order of addition, each entry leaves by one operation at most and is put
out or reported removed only by that one, and a mark is never taken away. -/
theorem every_entry_is_accounted_for (moves : List (ι × TableOperation κ)) :
    Accounted (({} : Tables ι κ).stages moves) (after {} moves) ∧
      ∀ future handle, (after ({} : Tables ι κ) moves).marks.isRemoved handle = true →
        (after ({} : Tables ι κ) (moves ++ future)).marks.isRemoved handle = true := by
  have agrees := agrees_after moves
  have credited := credited_after moves
  refine ⟨?_, fun future handle marked => isRemoved_after moves future marked⟩
  constructor
  case unmarked_iff =>
    intro i entry member
    rw [agrees.mem_table_iff]
    exact ⟨fun unmarked => ⟨member, unmarked⟩, fun held => held.2⟩
  case nowhere_else =>
    intro i entry member j held
    obtain ⟨other, found, same⟩ := PendingTable.holds_iff.mp held
    have equal := agrees.unique (agrees.mem_table_iff.mp found).1 member same
    exact congrArg Prod.fst equal
  case distinct => exact agrees.distinct
  case ordered =>
    intro i
    have own : ((TableStage.added (({} : Tables ι κ).stages moves)).filterMap
          fun p => if p.1 = i then some p.2 else none) =
        ((TableStage.added (({} : Tables ι κ).stages moves)).filter
          fun p => decide (p.1 = i)).map (·.2) := by
      rw [← List.filterMap_eq_map, List.filterMap_filter]
      simp
    rw [own, agrees.standing i]
    exact (List.monotone_filter_right _ fun p both => (Bool.and_eq_true_iff.mp both).1).map _
  case once =>
    intro i entry member
    have sum := credited.once (i, entry) member
    simp only [standing, credit] at sum
    omega
  case genuine =>
    intro stage member entry found
    obtain ⟨past, future, split⟩ := List.append_of_mem member
    have follows := (split ▸ run_stages ({} : Tables ι κ) moves).at_stage.2
    rw [follows] at found
    exact extracted_subset stage.before stage.move found
  case removable_iff =>
    intro i handle
    rw [PendingTable.removeEntry_eq handle (agrees.distinct i) (agrees.unmarked i)]
  case confirmed_le =>
    intro handle
    by_cases issued : handle < (after ({} : Tables ι κ) moves).marks.next
    · have listed := List.mem_range.mpr issued
      rw [← agrees.handles] at listed
      obtain ⟨p, member, rfl⟩ := List.mem_map.mp listed
      have sum := credited.once p member
      simp only [credit] at sum
      omega
    · have none := credited.unissued handle (Nat.le_of_not_lt issued)
      simp only [credit] at none
      omega

end Tables

end NamedData
