import Mathlib.Data.List.Nodup
import Mathlib.Data.List.Range
import Mathlib.Tactic.Tauto
import NamedData.Proofs.Run
import NamedData.Proofs.Table.Removal

/-!
Any number of tables, and every sequence of operations on them.

After any operations the tables are determined by what was added and what is marked: each holds, in
the order they were added, its own entries that are not marked removed (`Tables.Agrees`).
-/
namespace NamedData

/-- An operation on a table. -/
inductive TableOperation (κ : Type) where
  | add (id : EntryId) (interest : Interest) (onData : κ) (onTimeout : Option κ)
  | extract (name : Name)
  | removeById (id : EntryId)
  | removeEntry (handle : Nat)
  | clear

/-- What an operation on a table answers. -/
inductive TableOutcome (κ : Type) where
  | added (entry : PendingInterest κ)
  | extracted (entries : List (PendingInterest κ))
  | answered (removed : Bool)
  | silent

/-- Carry out an operation on a table. -/
def PendingTable.perform {κ : Type} (t : PendingTable κ) (m : Marks) :
    TableOperation κ → TableOutcome κ × PendingTable κ × Marks
  | .add id interest onData onTimeout =>
    let (entry, t, m) := t.add m id interest onData onTimeout
    (.added entry, t, m)
  | .extract name =>
    let (taken, t, m) := t.extractMatching m name
    (.extracted taken, t, m)
  | .removeById id => (.silent, t.removeById m id)
  | .removeEntry handle =>
    let (removed, t, m) := t.removeEntry m handle
    (.answered removed, t, m)
  | .clear => (.silent, t.clear m)

/-- The entries that a removal selects. -/
def TableOperation.test? {κ : Type} : TableOperation κ → Option (PendingInterest κ → Bool)
  | .add .. => none
  | .extract name => some fun e => e.interest.matchesName name
  | .removeById id => some fun e => e.id == id
  | .removeEntry handle => some fun e => e.handle == handle
  | .clear => some fun _ => true

/-- As long as the entries of a table are distinct and unmarked, every removal takes out the entries
it selects. -/
theorem PendingTable.perform_removal {κ : Type} {t : PendingTable κ} {m : Marks}
    {operation : TableOperation κ} {test : PendingInterest κ → Bool}
    (selects : operation.test? = some test) (distinct : (t.entries.map (·.handle)).Nodup)
    (unmarked : ∀ entry ∈ t.entries, m.isRemoved entry.handle = false) :
    (t.perform m operation).2 = t.strike m test := by
  cases operation with
  | add => cases selects
  | extract name =>
    cases selects
    simp only [perform, extractMatching_eq]
  | removeById id =>
    cases selects
    exact removeById_eq t m id
  | removeEntry handle =>
    cases selects
    simp only [perform, removeEntry_eq handle distinct unmarked]
  | clear =>
    cases selects
    exact clear_eq t m

/-- Any number of tables that share one set of marks. -/
structure Tables (ι κ : Type) where
  table : ι → PendingTable κ := fun _ => {}
  marks : Marks := {}

/-- A stage in the life of some tables: an operation on one of them, and its answer. -/
abbrev TableStage (ι κ : Type) := Stage (Tables ι κ) (ι × TableOperation κ) (TableOutcome κ)

namespace Tables

variable {ι κ : Type} [DecidableEq ι]

/-- Carry out an operation on one of the tables. -/
def stage (s : Tables ι κ) (move : ι × TableOperation κ) : TableStage ι κ :=
  let (outcome, t, marks) := (s.table move.1).perform s.marks move.2
  { before := s, move, events := [outcome], after := ⟨Function.update s.table move.1 t, marks⟩ }

/-- Carry out several operations: every stage on the way. -/
def stages (s : Tables ι κ) : List (ι × TableOperation κ) → List (TableStage ι κ)
  | [] => []
  | move :: moves => s.stage move :: (s.stage move).after.stages moves

/-- Carry out several operations: the tables in the end. -/
def after (s : Tables ι κ) (moves : List (ι × TableOperation κ)) : Tables ι κ :=
  moves.foldl (fun s move => (s.stage move).after) s

theorem stages_concat (s : Tables ι κ) (moves : List (ι × TableOperation κ))
    (move : ι × TableOperation κ) :
    s.stages (moves ++ [move]) = s.stages moves ++ [(s.after moves).stage move] := by
  induction moves generalizing s with
  | nil => rfl
  | cons first moves ih =>
    simp only [List.cons_append, stages, ih]
    rfl

theorem after_concat (s : Tables ι κ) (moves : List (ι × TableOperation κ))
    (move : ι × TableOperation κ) :
    s.after (moves ++ [move]) = ((s.after moves).stage move).after := by
  simp [after]

/-- Carrying out operations is a run in which every stage is that of an operation. -/
theorem run_stages (s : Tables ι κ) (moves : List (ι × TableOperation κ)) :
    Run (fun _ stage => stage = stage.before.stage stage.move) s (s.stages moves)
      (s.after moves) := by
  induction moves using List.reverseRecOn with
  | nil => exact .start
  | append_singleton moves move ih =>
    rw [stages_concat, after_concat]
    exact .step ih rfl

end Tables

namespace TableStage

variable {ι κ : Type}

/-- The entry that was added, with the table it was added to. -/
def added? (stage : TableStage ι κ) : Option (ι × PendingInterest κ) :=
  match stage.events with
  | [.added entry] => some (stage.move.1, entry)
  | _ => none

/-- Every entry added so far, with its table, in order. -/
def added (stages : List (TableStage ι κ)) : List (ι × PendingInterest κ) :=
  stages.filterMap added?

theorem added_concat (stages : List (TableStage ι κ)) (stage : TableStage ι κ) :
    added (stages ++ [stage]) = added stages ++ (added? stage).toList := by
  rw [added, List.filterMap_append]
  cases found : added? stage <;> simp [added, found]

end TableStage

namespace Tables

variable {ι κ : Type} [DecidableEq ι] {added : List (ι × PendingInterest κ)} {s : Tables ι κ}

/-- What was added is numbered consecutively, and each table holds its own entries that are not
marked, in the order they were added. -/
structure Agrees (added : List (ι × PendingInterest κ)) (s : Tables ι κ) : Prop where
  handles : added.map (·.2.handle) = List.range s.marks.next
  standing : ∀ i, (s.table i).entries =
    (added.filter fun p => decide (p.1 = i) && !s.marks.isRemoved p.2.handle).map (·.2)

theorem agrees_nil : Agrees [] ({} : Tables ι κ) where
  handles := rfl
  standing _ := rfl

namespace Agrees

theorem lt_next (agrees : Agrees added s) {p : ι × PendingInterest κ} (member : p ∈ added) :
    p.2.handle < s.marks.next := by
  have listed : p.2.handle ∈ added.map (·.2.handle) := List.mem_map.mpr ⟨p, member, rfl⟩
  rw [agrees.handles] at listed
  exact List.mem_range.mp listed

/-- A handle is given to one entry only. -/
theorem unique (agrees : Agrees added s) {p q : ι × PendingInterest κ} (first : p ∈ added)
    (second : q ∈ added) (same : p.2.handle = q.2.handle) : p = q := by
  have distinct : (added.map (·.2.handle)).Nodup := by
    rw [agrees.handles]
    exact List.nodup_range
  exact List.inj_on_of_nodup_map distinct first second same

theorem mem_table_iff (agrees : Agrees added s) {i : ι} {entry : PendingInterest κ} :
    entry ∈ (s.table i).entries ↔
      (i, entry) ∈ added ∧ s.marks.isRemoved entry.handle = false := by
  rw [agrees.standing i]
  simp only [List.mem_map, List.mem_filter, Bool.and_eq_true, decide_eq_true_eq,
    Bool.not_eq_true']
  constructor
  · rintro ⟨⟨j, other⟩, ⟨member, rfl, unmarked⟩, rfl⟩
    exact ⟨member, unmarked⟩
  · rintro ⟨member, unmarked⟩
    exact ⟨(i, entry), ⟨member, rfl, unmarked⟩, rfl⟩

theorem unmarked (agrees : Agrees added s) (i : ι) :
    ∀ entry ∈ (s.table i).entries, s.marks.isRemoved entry.handle = false :=
  fun _ member => (agrees.mem_table_iff.mp member).2

theorem distinct (agrees : Agrees added s) (i : ι) :
    ((s.table i).entries.map (·.handle)).Nodup := by
  rw [agrees.standing i, List.map_map]
  have listed : (added.map (·.2.handle)).Nodup := by
    rw [agrees.handles]
    exact List.nodup_range
  exact listed.sublist (List.filter_sublist.map _)

/-- After a removal the marked entries are those that were, and those selected from the table. -/
theorem isRemoved_strike_iff (agrees : Agrees added s) (i : ι)
    (test : PendingInterest κ → Bool) {p : ι × PendingInterest κ} (member : p ∈ added) :
    ((s.table i).strike s.marks test).2.isRemoved p.2.handle = true ↔
      s.marks.isRemoved p.2.handle = true ∨ p.1 = i ∧ test p.2 = true := by
  simp only [PendingTable.strike, Marks.isRemoved_removeAll_iff, agrees.lt_next member, true_and,
    List.mem_filter]
  constructor
  · rintro (marked | ⟨entry, ⟨held, passes⟩, same⟩)
    · exact .inl marked
    · have listed := (agrees.mem_table_iff.mp held).1
      obtain rfl := agrees.unique listed member same
      exact .inr ⟨rfl, passes⟩
  · rintro (marked | ⟨rfl, passes⟩)
    · exact .inl marked
    · by_cases marked : s.marks.isRemoved p.2.handle = true
      · exact .inl marked
      · have held := agrees.mem_table_iff.mpr ⟨member, Bool.eq_false_iff.mpr marked⟩
        exact .inr ⟨p.2, ⟨held, passes⟩, rfl⟩

/-- Removals keep the tables determined by what was added and what is marked. -/
theorem strike (agrees : Agrees added s) (i : ι) (test : PendingInterest κ → Bool) :
    Agrees added
      ⟨Function.update s.table i ((s.table i).strike s.marks test).1,
        ((s.table i).strike s.marks test).2⟩ where
  handles := by
    rw [agrees.handles]
    simp [PendingTable.strike]
  standing j := by
    have filtered : (added.filter fun p => decide (p.1 = j) &&
          !((s.table i).strike s.marks test).2.isRemoved p.2.handle) =
        (added.filter fun p => decide (p.1 = j) && !s.marks.isRemoved p.2.handle).filter
          fun p => !(decide (p.1 = i) && test p.2) := by
      rw [List.filter_filter]
      apply List.filter_congr
      intro p member
      have marked := agrees.isRemoved_strike_iff i test member
      rw [Bool.eq_iff_iff]
      simp only [Bool.and_eq_true, decide_eq_true_eq, Bool.not_eq_true', ← Bool.not_eq_true,
        marked]
      tauto
    rw [filtered]
    by_cases here : j = i
    · subst here
      change ((Function.update s.table j _ j).entries) = _
      rw [Function.update_self]
      simp only [PendingTable.strike, agrees.standing j, List.filter_map, List.filter_filter]
      congr 1
      apply List.filter_congr
      intro p _
      by_cases own : p.1 = j <;> simp [own, Bool.and_comm]
    · change ((Function.update s.table i _ j).entries) = _
      rw [Function.update_of_ne here, agrees.standing j]
      congr 1
      symm
      apply List.filter_eq_self.mpr
      intro p member
      obtain ⟨own, -⟩ := Bool.and_eq_true_iff.mp (List.mem_filter.mp member).2
      simp [of_decide_eq_true own, here]

/-- A new entry takes its place behind the others. -/
theorem add (agrees : Agrees added s) (i : ι) (id : EntryId) (interest : Interest) (onData : κ)
    (onTimeout : Option κ) :
    let (entry, t, marks) := (s.table i).add s.marks id interest onData onTimeout
    Agrees (added ++ [(i, entry)]) ⟨Function.update s.table i t, marks⟩ := by
  have fresh := Marks.isRemoved_of_le (Nat.le_refl s.marks.next)
  constructor
  · simp [agrees.handles, List.range_succ]
  · intro j
    by_cases here : j = i
    · subst here
      simp [fresh, agrees.standing j]
    · simp [here, Ne.symm here, agrees.standing j]

/-- What a removal leaves. -/
theorem after_removal (agrees : Agrees added s) {i : ι} {operation : TableOperation κ}
    {test : PendingInterest κ → Bool} (selects : operation.test? = some test) :
    (s.stage (i, operation)).after =
      ⟨Function.update s.table i ((s.table i).strike s.marks test).1,
        ((s.table i).strike s.marks test).2⟩ := by
  simp only [Tables.stage,
    PendingTable.perform_removal selects (agrees.distinct i) (agrees.unmarked i)]

/-- Removing one entry tells whether it was in the table. -/
theorem events_removeEntry (agrees : Agrees added s) (i : ι) (handle : Nat) :
    (s.stage (i, .removeEntry handle)).events = [.answered ((s.table i).holds handle)] := by
  simp only [Tables.stage, PendingTable.perform,
    PendingTable.removeEntry_eq handle (agrees.distinct i) (agrees.unmarked i)]

/-- Every operation keeps the tables determined by what was added and what is marked. -/
theorem stage (agrees : Agrees added s) (move : ι × TableOperation κ) :
    Agrees (added ++ (TableStage.added? (s.stage move)).toList) (s.stage move).after := by
  obtain ⟨i, operation⟩ := move
  have removal : ∀ test, operation.test? = some test →
      TableStage.added? (s.stage (i, operation)) = none →
      Agrees (added ++ (TableStage.added? (s.stage (i, operation))).toList)
        (s.stage (i, operation)).after := by
    intro test selects silent
    rw [silent, Option.toList_none, List.append_nil, agrees.after_removal selects]
    exact agrees.strike i test
  cases operation with
  | add id interest onData onTimeout => exact agrees.add i id interest onData onTimeout
  | extract name => exact removal _ rfl rfl
  | removeById id => exact removal _ rfl rfl
  | removeEntry handle => exact removal _ rfl rfl
  | clear => exact removal _ rfl rfl

end Agrees

/-- After any operations the tables are determined by what was added and what is marked. -/
theorem agrees_after (moves : List (ι × TableOperation κ)) :
    Agrees (TableStage.added (({} : Tables ι κ).stages moves)) (after {} moves) := by
  induction moves using List.reverseRecOn with
  | nil => exact agrees_nil
  | append_singleton moves move ih =>
    rw [stages_concat, after_concat, TableStage.added_concat]
    exact ih.stage move

/-- **The description of an entry tells whether its table holds it.** Whatever is done to the tables, an
entry is described as it was at first for as long as its table holds it, and no longer. -/
theorem described_as_at_first_iff (moves : List (ι × TableOperation κ)) {i : ι} {entry : PendingInterest κ}
    (member : (i, entry) ∈ TableStage.added (({} : Tables ι κ).stages moves)) :
    entry.describe (after {} moves).marks = entry.describe {} ↔
      entry ∈ ((after {} moves).table i).entries := by
  have fresh : ({} : Marks).isRemoved entry.handle = false := rfl
  rw [PendingInterest.describe_eq_iff, fresh, (agrees_after moves).mem_table_iff]
  exact (and_iff_right member).symm

end Tables

end NamedData
