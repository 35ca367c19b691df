import Mathlib.Data.List.Nodup
import NamedData.Proofs.Node.Ledger
import NamedData.Proofs.Table.Removal

/-!
Which entries some data is delivered to, and in what order.

Data goes to the entries that still wait and match it, the most recently expressed first; so an entry
gets the first data that matches it, and that once (`filter_deliveries`).
-/
namespace NamedData

variable {κ : Type} {entries : List (PendingInterest κ)} {entry : PendingInterest κ}
variable {arrived : List Data} {data : Data}

/-- The data among some elements, in the order they arrived. -/
def WireFormat.arrivals (format : WireFormat) (elements : List Bytes) : List Data :=
  elements.filterMap fun element =>
    match format.decode element with
    | .ok (.data data) => some data
    | _ => none

/-- The data that an entry gets: the first that matches it. -/
def PendingInterest.answer? (entry : PendingInterest κ) (arrived : List Data) : Option Data :=
  arrived.find? fun data => entry.interest.matchesName data.name

/-- The entries that no data matches. -/
def unanswered (entries : List (PendingInterest κ)) (arrived : List Data) :
    List (PendingInterest κ) :=
  entries.filter fun entry => (entry.answer? arrived).isNone

/-- The calls that deliver data: one data after the other, each to the entries that match it and have
got none, the last one first. -/
def deliveries (entries : List (PendingInterest κ)) : List Data → List (Call κ)
  | [] => []
  | data :: arrived =>
    (entries.filter fun entry => entry.interest.matchesName data.name).reverse.map (.data · data) ++
      deliveries (unanswered entries [data]) arrived

/-- The calls that tell entries they have timed out, those that want to be told. -/
def timeouts (entries : List (PendingInterest κ)) : List (Call κ) :=
  entries.filterMap fun entry => entry.onTimeout.map (.timeout entry)

/-- Whether a call resolves the entry of a handle. -/
def Call.resolves (handle : Nat) (call : Call κ) : Bool :=
  call.entry?.any fun entry => entry.handle == handle

theorem WireFormat.arrivals_append (format : WireFormat) (elements others : List Bytes) :
    format.arrivals (elements ++ others) = format.arrivals elements ++ format.arrivals others :=
  List.filterMap_append

theorem mem_unanswered :
    entry ∈ unanswered entries arrived ↔ entry ∈ entries ∧ entry.answer? arrived = none := by
  simp [unanswered]

theorem mem_of_unanswered (member : entry ∈ unanswered entries arrived) : entry ∈ entries :=
  (mem_unanswered.mp member).1

theorem unanswered_nil (entries : List (PendingInterest κ)) : unanswered entries [] = entries := by
  simp [unanswered, PendingInterest.answer?]

theorem unanswered_unanswered (entries : List (PendingInterest κ)) (arrived others : List Data) :
    unanswered (unanswered entries arrived) others = unanswered entries (arrived ++ others) := by
  simp only [unanswered, List.filter_filter, PendingInterest.answer?, List.find?_append]
  congr 1
  funext entry
  cases arrived.find? fun data => entry.interest.matchesName data.name <;> simp

theorem unanswered_singleton (entries : List (PendingInterest κ)) (data : Data) :
    unanswered entries [data] =
      entries.filter fun entry => !entry.interest.matchesName data.name := by
  simp only [unanswered, PendingInterest.answer?]
  congr 1
  funext entry
  cases matched : entry.interest.matchesName data.name <;> simp [matched]

/-- Data that arrives later goes to the entries that have got none before. -/
theorem deliveries_append (entries : List (PendingInterest κ)) (arrived others : List Data) :
    deliveries entries (arrived ++ others) =
      deliveries entries arrived ++ deliveries (unanswered entries arrived) others := by
  induction arrived generalizing entries with
  | nil => simp [deliveries, unanswered_nil]
  | cons first arrived ih =>
    rw [List.cons_append, deliveries, deliveries, ih, unanswered_unanswered, List.append_assoc]
    rfl

/-- Data is delivered only to entries that wait. -/
theorem mem_deliveries {call : Call κ} (member : call ∈ deliveries entries arrived) :
    ∃ entry ∈ entries, ∃ data, call = .data entry data := by
  induction arrived generalizing entries with
  | nil => cases member
  | cons data arrived ih =>
    rcases List.mem_append.mp member with first | later
    · obtain ⟨entry, matched, rfl⟩ := List.mem_map.mp first
      exact ⟨entry, (List.mem_filter.mp (List.mem_reverse.mp matched)).1, data, rfl⟩
    · obtain ⟨entry, waits, data, rfl⟩ := ih later
      exact ⟨entry, (mem_unanswered.mp waits).1, data, rfl⟩

/-- **An entry gets the first data that matches it, once.** -/
theorem filter_deliveries (distinct : (entries.map (·.handle)).Nodup) (member : entry ∈ entries) :
    (deliveries entries arrived).filter (Call.resolves entry.handle) =
      ((entry.answer? arrived).map (.data entry)).toList := by
  induction arrived generalizing entries with
  | nil => rfl
  | cons data arrived ih =>
    have now : (((entries.filter fun entry => entry.interest.matchesName data.name).reverse.map
        (Call.data · data)).filter (Call.resolves entry.handle)) =
        if entry.interest.matchesName data.name then [.data entry data] else [] := by
      have found := PendingTable.filter_handle distinct member
      rw [List.filter_map, List.filter_reverse, List.filter_comm]
      change (((entries.filter fun other => other.handle == entry.handle).filter _).reverse.map _) = _
      rw [found]
      by_cases matched : entry.interest.matchesName data.name = true <;> simp [matched]
    rw [deliveries, List.filter_append, now]
    by_cases matched : entry.interest.matchesName data.name = true
    · have gone : (deliveries (unanswered entries [data]) arrived).filter
          (Call.resolves entry.handle) = [] := by
        rw [List.filter_eq_nil_iff]
        intro call delivered resolves
        obtain ⟨other, waits, data, rfl⟩ := mem_deliveries delivered
        obtain ⟨listed, unmatched⟩ := mem_unanswered.mp waits
        have shared : other.handle = entry.handle := by
          simpa [Call.resolves, Call.entry?] using resolves
        have same := List.inj_on_of_nodup_map distinct listed member shared
        rw [same] at unmatched
        simp [PendingInterest.answer?, matched] at unmatched
      simp [gone, matched, PendingInterest.answer?]
    · have waits : entry ∈ unanswered entries [data] := by
        simp [mem_unanswered, member, PendingInterest.answer?, matched]
      have others : ((unanswered entries [data]).map (·.handle)).Nodup :=
        distinct.sublist (List.filter_sublist.map _)
      rw [ih others waits]
      simp [matched, PendingInterest.answer?]

/-- An entry that has timed out is told so once, if it wants to be told. -/
theorem filter_timeouts (entries : List (PendingInterest κ)) (handle : Nat) :
    (timeouts entries).filter (Call.resolves handle) =
      timeouts (entries.filter fun entry => entry.handle == handle) := by
  induction entries with
  | nil => rfl
  | cons entry entries ih =>
    simp only [timeouts] at ih ⊢
    cases given : entry.onTimeout with
    | none =>
      cases same : entry.handle == handle <;> simp [given, same, ih]
    | some callback =>
      cases same : entry.handle == handle <;>
        simp [given, same, ih, Call.resolves, Call.entry?]

end NamedData
