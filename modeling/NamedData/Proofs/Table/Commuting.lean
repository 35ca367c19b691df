import NamedData.Proofs.Table.Accounting
import NamedData.Proofs.Table.Extraction

/-!
Removals commute.

Two removals one after the other are one removal of what either of them selects (`strike_strike`), so some
removals on one table come to a single one that selects what any of them does (`Agrees.after_removals`).
What they lead to does not depend on their order. What each of them is credited with does: an entry is
credited to the first of them that selects it (`removals_commute`).
-/
namespace NamedData

namespace TableOperation

variable {κ : Type}

/-- Whether an operation takes entries out of a table: each does, but for an addition. -/
def Removes (operation : TableOperation κ) : Prop := operation.test?.isSome

/-- Whether an operation takes out an entry that it finds in the table. -/
def selects (operation : TableOperation κ) (entry : PendingInterest κ) : Bool :=
  operation.test?.any (· entry)

theorem Removes.test?_eq {operation : TableOperation κ} (removes : operation.Removes) :
    operation.test? = some operation.selects := by
  obtain ⟨test, selects⟩ := Option.isSome_iff_exists.mp removes
  rw [selects, Option.some_inj]
  funext entry
  rw [TableOperation.selects, selects, Option.any_some]

end TableOperation

theorem Marks.removeAll_append {κ : Type} (m : Marks) (entries others : List (PendingInterest κ)) :
    m.removeAll (entries ++ others) = (m.removeAll entries).removeAll others := List.foldl_append

/-- To take out what passes one test, and then what passes another, is to take out what passes either. -/
theorem PendingTable.strike_strike {κ : Type} (t : PendingTable κ) (m : Marks)
    (test other : PendingInterest κ → Bool) :
    (t.strike m test).1.strike (t.strike m test).2 other =
      t.strike m fun entry => test entry || other entry := by
  have kept : (t.entries.filter fun entry => !test entry).filter (fun entry => !other entry) =
      t.entries.filter fun entry => !(test entry || other entry) := by
    rw [List.filter_filter]
    apply List.filter_congr
    intro entry _
    rw [Bool.not_or, Bool.and_comm]
  -- The entries are marked in another order, which makes no difference to the marks.
  have struck : (t.entries.filter test ++
        (t.entries.filter fun entry => !test entry).filter other).Perm
      (t.entries.filter fun entry => test entry || other entry) := by
    have parts := List.filter_append_perm test
      (t.entries.filter fun entry => test entry || other entry)
    rw [List.filter_filter, List.filter_filter] at parts
    rw [List.filter_filter]
    convert parts using 4
    · next entry => cases test entry <;> rfl
    · next entry => cases test entry <;> simp
  simp only [strike, kept, ← Marks.removeAll_append, Marks.removeAll_perm struck]

namespace Tables

open TableStage

variable {ι κ : Type} [DecidableEq ι] {added : List (ι × PendingInterest κ)} {s : Tables ι κ}

/-- Take out the entries of one table that pass a test, marking each removed. -/
def strikeAt (s : Tables ι κ) (i : ι) (test : PendingInterest κ → Bool) : Tables ι κ :=
  ⟨Function.update s.table i ((s.table i).strike s.marks test).1, ((s.table i).strike s.marks test).2⟩

@[simp] theorem table_strikeAt (s : Tables ι κ) (i : ι) (test : PendingInterest κ → Bool) :
    (s.strikeAt i test).table i = ((s.table i).strike s.marks test).1 := Function.update_self ..

theorem strikeAt_none (s : Tables ι κ) (i : ι) : s.strikeAt i (fun _ => false) = s := by
  have none : (s.table i).strike s.marks (fun _ => false) = (s.table i, s.marks) :=
    PendingTable.strike_none fun _ _ => rfl
  rw [strikeAt, none, Function.update_eq_self]

theorem strikeAt_strikeAt (s : Tables ι κ) (i : ι) (test other : PendingInterest κ → Bool) :
    (s.strikeAt i test).strikeAt i other = s.strikeAt i fun entry => test entry || other entry := by
  rw [strikeAt, table_strikeAt]
  simp only [strikeAt, Function.update_idem, PendingTable.strike_strike]

/-- Whether some removals select an entry. -/
def selectedBy (removals : List (TableOperation κ)) (entry : PendingInterest κ) : Bool :=
  removals.any (·.selects entry)

/-- The operations on one table. -/
def on (i : ι) (operations : List (TableOperation κ)) : List (ι × TableOperation κ) :=
  operations.map (i, ·)

theorem Agrees.strikeAt (agrees : Agrees added s) (i : ι) (test : PendingInterest κ → Bool) :
    Agrees added (s.strikeAt i test) := agrees.strike i test

/-- Some removals on one table come to a single one, of what any of them selects. -/
theorem Agrees.after_removals (agrees : Agrees added s) (i : ι) {removals : List (TableOperation κ)}
    (only : ∀ operation ∈ removals, operation.Removes) :
    s.after (on i removals) = s.strikeAt i (selectedBy removals) := by
  induction removals generalizing s with
  | nil => exact (strikeAt_none s i).symm
  | cons operation removals ih =>
    rw [List.forall_mem_cons] at only
    have first := agrees.after_removal (i := i) only.1.test?_eq
    change (s.stage (i, operation)).after.after (on i removals) = _
    rw [first, ih (agrees.strike i operation.selects) only.2]
    exact strikeAt_strikeAt s i operation.selects (selectedBy removals)

/-- An entry of a table stands there once, unless it is taken out. -/
theorem Agrees.standing_strikeAt (agrees : Agrees added s) {i : ι} {entry : PendingInterest κ}
    (member : entry ∈ (s.table i).entries) (test : PendingInterest κ → Bool) :
    (s.strikeAt i test).standing i entry.handle = if test entry then 0 else 1 := by
  have found := PendingTable.filter_handle (agrees.distinct i) member
  calc (s.strikeAt i test).standing i entry.handle
    _ = (((s.table i).entries.filter fun e => !test e).filter (·.handle == entry.handle)).length := by
      rw [Tables.standing, table_strikeAt, List.countP_eq_length_filter]
      rfl
    _ = ([entry].filter fun e => !test e).length := by rw [List.filter_comm, found]
    _ = if test entry then 0 else 1 := by cases passes : test entry <;> simp [passes]

/-- Removals are credited with what they take out of the table. -/
theorem Agrees.standing_removals (agrees : Agrees added s) (i : ι)
    {removals : List (TableOperation κ)} (only : ∀ operation ∈ removals, operation.Removes)
    (handle : Nat) :
    (s.after (on i removals)).standing i handle + credit handle (s.stages (on i removals)) =
      s.standing i handle := by
  induction removals generalizing s with
  | nil => rfl
  | cons operation removals ih =>
    rw [List.forall_mem_cons] at only
    have later : Agrees added (s.stage (i, operation)).after := by
      rw [agrees.after_removal only.1.test?_eq]
      exact agrees.strike i operation.selects
    have rest := ih later only.2
    have first := standing_removal agrees i handle only.1.test?_eq
    have parts := credit_append handle [s.stage (i, operation)]
      ((s.stage (i, operation)).after.stages (on i removals))
    change ((s.stage (i, operation)).after.after (on i removals)).standing i handle +
      credit handle ([s.stage (i, operation)] ++
        (s.stage (i, operation)).after.stages (on i removals)) = _
    omega

/-- What some removals on one table come to, in the order in which they are carried out. -/
structure TakenOut (s : Tables ι κ) (i : ι) (removals : List (TableOperation κ)) : Prop where
  /-- The entries that no removal selects stay in their order. -/
  stay : ((s.after (on i removals)).table i).entries =
    (s.table i).entries.filter fun entry => !selectedBy removals entry
  /-- Those of the table that some removal selects are marked, and besides only what was before. -/
  marked_iff : ∀ handle, (s.after (on i removals)).marks.isRemoved handle = true ↔
    s.marks.isRemoved handle = true ∨
      ∃ entry ∈ (s.table i).entries, entry.handle = handle ∧ selectedBy removals entry = true
  /-- An entry is credited to the first removal that selects it. -/
  first : ∀ past operation future, removals = past ++ operation :: future →
    ∀ entry ∈ (s.table i).entries,
      credit entry.handle [(s.after (on i past)).stage (i, operation)] =
        if operation.selects entry && !selectedBy past entry then 1 else 0
  /-- An entry that is taken out is credited once in all, and one that stays is not. -/
  once : ∀ entry ∈ (s.table i).entries,
    credit entry.handle (s.stages (on i removals)) = if selectedBy removals entry then 1 else 0
  /-- Nothing is credited for a handle that is not in the table. -/
  no_more : ∀ handle, (s.table i).holds handle = false →
    credit handle (s.stages (on i removals)) = 0

theorem Agrees.takenOut (agrees : Agrees added s) (i : ι) {removals : List (TableOperation κ)}
    (only : ∀ operation ∈ removals, operation.Removes) : TakenOut s i removals := by
  have after := agrees.after_removals i only
  constructor
  case stay =>
    rw [after, table_strikeAt]
    rfl
  case marked_iff =>
    intro handle
    rw [after, Tables.strikeAt, PendingTable.strike, Marks.isRemoved_removeAll_iff]
    refine or_congr Iff.rfl ⟨?_, ?_⟩
    · rintro ⟨-, entry, struck, same⟩
      obtain ⟨member, selected⟩ := List.mem_filter.mp struck
      exact ⟨entry, member, same, selected⟩
    · rintro ⟨entry, member, rfl, selected⟩
      have issued := agrees.lt_next (agrees.mem_table_iff.mp member).1
      exact ⟨issued, entry, List.mem_filter.mpr ⟨member, selected⟩, rfl⟩
  case first =>
    rintro past operation future rfl entry member
    rw [List.forall_mem_append, List.forall_mem_cons] at only
    obtain ⟨before, removes, -⟩ := only
    have earlier := agrees.strikeAt i (selectedBy past)
    have credited := standing_removal earlier i entry.handle removes.test?_eq
    -- What it is credited with is the difference between what stands before and after it.
    have left : (((s.strikeAt i (selectedBy past)).stage (i, operation)).after).standing i entry.handle =
        if selectedBy past entry || operation.selects entry then 0 else 1 := by
      rw [← agrees.standing_strikeAt member fun entry => selectedBy past entry || operation.selects entry,
        ← strikeAt_strikeAt, earlier.after_removal removes.test?_eq]
      rfl
    rw [left, agrees.standing_strikeAt member] at credited
    rw [agrees.after_removals i before]
    cases already : selectedBy past entry <;> cases now : operation.selects entry <;>
      simpa [already, now] using credited
  case once =>
    intro entry member
    have sum := agrees.standing_removals i only entry.handle
    have whole := agrees.standing_strikeAt member fun _ => false
    rw [strikeAt_none] at whole
    rw [after, agrees.standing_strikeAt member, whole] at sum
    cases selected : selectedBy removals entry <;> simpa [selected] using sum
  case no_more =>
    intro handle absent
    have sum := agrees.standing_removals i only handle
    have none : s.standing i handle = 0 := by
      rw [Tables.standing, countP_handle handle (agrees.distinct i), absent]
      rfl
    omega

/-- **Removals commute.** Whatever has been done to some tables, the order of some removals on one of them
makes no difference to any table and to no mark. It makes one to what the removals are credited with: each
entry that is taken out is credited to the first removal that selects it, and to no other. -/
theorem removals_commute (moves : List (ι × TableOperation κ)) (i : ι)
    {removals others : List (TableOperation κ)} (only : ∀ operation ∈ removals, operation.Removes)
    (reordered : removals.Perm others) :
    let s : Tables ι κ := after {} moves
    s.after (on i removals) = s.after (on i others) ∧ TakenOut s i removals ∧ TakenOut s i others := by
  intro s
  have agrees := agrees_after moves
  have also : ∀ operation ∈ others, operation.Removes := fun operation member =>
    only operation (reordered.mem_iff.mpr member)
  have same : selectedBy removals = selectedBy others := funext fun _ => reordered.any_eq
  refine ⟨?_, agrees.takenOut i only, agrees.takenOut i also⟩
  rw [agrees.after_removals i only, agrees.after_removals i also, same]

/-- Two tables, of which the first has three entries and the second has one. -/
def threeAndOneAdded : List (Bool × TableOperation Unit) :=
  [(false, .add .first (interestIn [1]) () none), (false, .add ⟨2⟩ (interestIn [2]) () none),
    (true, .add ⟨3⟩ (interestIn [1]) () none), (false, .add ⟨4⟩ (interestIn [1, 2]) () none)]

/-- Removals on the first of them. Two select its first entry, one names an entry of the second table, and
one a handle that has not been issued. -/
def fourRemovals : List (TableOperation Unit) :=
  [.extract (interestIn [1, 3]).name, .removeEntry 0, .removeEntry 2, .removeEntry 9]

/-- In either order the first entry leaves and is credited once: to the extraction in one order, and to the
removal by its handle in the other. -/
theorem credited_to_whichever_comes_first :
    let s : Tables Bool Unit := after {} threeAndOneAdded
    let stages := s.stages (on false fourRemovals)
    let backwards := s.stages (on false fourRemovals.reverse)
    (∀ operation ∈ fourRemovals, operation.Removes) ∧ fourRemovals.Perm fourRemovals.reverse ∧
      s.after (on false fourRemovals) = s.after (on false fourRemovals.reverse) ∧
      credit 0 stages = 1 ∧ delivered 0 stages = 1 ∧
      credit 0 backwards = 1 ∧ confirmed 0 backwards = 1 := by
  have only : ∀ operation ∈ fourRemovals, operation.Removes := by
    simp [fourRemovals, TableOperation.Removes, TableOperation.test?]
  have reordered := (List.reverse_perm fourRemovals).symm
  obtain ⟨same, forwards, backwards⟩ := removals_commute threeAndOneAdded false only reordered
  have first : ⟨0, .first, interestIn [1], (), none⟩ ∈
      ((after ({} : Tables Bool Unit) threeAndOneAdded).table false).entries := .head _
  exact ⟨only, reordered, same, forwards.once _ first, rfl, backwards.once _ first, rfl⟩

end Tables

end NamedData
