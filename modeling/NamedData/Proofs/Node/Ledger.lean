import NamedData.Proofs.Node.Run

/-!
The ledger of a node: the entries that wait in its table, those that have been taken out and are still
to be delivered, and how many handles have been issued.

A ledger moves in one of six ways. Each call on an entry takes that entry off the ledger, so what
stands on it together with what was called only grows when an entry is made (`Ledger.Step.owed_le`).
-/
namespace NamedData

/-- The data being delivered, with the entries it is still to be delivered to. -/
def Frame.deliveries {κ : Type} : Frame κ → List (Data × PendingInterest κ)
  | .delivering data entries => entries.map (data, ·)
  | _ => []

/-- The calls of a batch that are still to be run. -/
def Frame.calls {κ : Type} : Frame κ → List (NodeCall κ)
  | .running calls => calls
  | _ => []

/-- The entry that a call resolves. -/
def Call.entry? {κ : Type} : Call κ → Option (PendingInterest κ)
  | .data entry _ | .timeout entry _ => some entry
  | _ => none

/-- The call on an entry that an event is. -/
def Event.resolution? {κ : Type} : Event κ → Option (Call κ)
  | .called call => call.entry?.map fun _ => call
  | _ => none

/-- The calls made on entries. -/
def resolutions {κ : Type} (events : List (Event κ)) : List (Call κ) :=
  events.filterMap Event.resolution?

/-- The number of calls made on the entry of a handle. -/
def invocations {κ : Type} (handle : Nat) (events : List (Event κ)) : Nat :=
  ((resolutions events).filterMap Call.entry?).countP (·.handle == handle)

/-- Where the entries of a node stand. -/
structure Ledger (κ : Type) where
  waiting : List (PendingInterest κ)
  delivering : List (Data × PendingInterest κ)
  /-- The number of handles issued. -/
  issued : Nat

/-- The ways a ledger moves, with the entry that is made and the calls that are made on entries. -/
inductive Ledger.Step {κ : Type} :
    Ledger κ → Option (PendingInterest κ) → List (Call κ) → Ledger κ → Prop where
  /-- Nothing happens to the table. Deliveries may be abandoned, and other nodes issue handles. -/
  | rest {waiting : List (PendingInterest κ)} {delivering left : List (Data × PendingInterest κ)}
      {issued later : Nat} (abandoned : left.Sublist delivering) (monotone : issued ≤ later) :
      Step ⟨waiting, delivering, issued⟩ none [] ⟨waiting, left, later⟩
  /-- A new entry takes its place behind the others. -/
  | make {waiting : List (PendingInterest κ)} {delivering left : List (Data × PendingInterest κ)}
      {issued : Nat} {entry : PendingInterest κ} (numbered : entry.handle = issued)
      (abandoned : left.Sublist delivering) :
      Step ⟨waiting, delivering, issued⟩ (some entry) [] ⟨waiting ++ [entry], left, issued + 1⟩
  /-- Entries are withdrawn. -/
  | withdraw {waiting : List (PendingInterest κ)} {delivering : List (Data × PendingInterest κ)}
      {issued : Nat} (withdrawn : PendingInterest κ → Bool) :
      Step ⟨waiting, delivering, issued⟩ none []
        ⟨waiting.filter fun entry => !withdrawn entry, delivering, issued⟩
  /-- Entries are taken out for some data. -/
  | extract {waiting : List (PendingInterest κ)} {delivering : List (Data × PendingInterest κ)}
      {issued : Nat} (data : Data) :
      Step ⟨waiting, delivering, issued⟩ none []
        ⟨waiting.filter fun entry => !entry.interest.matchesName data.name,
          (waiting.filter fun entry => entry.interest.matchesName data.name).reverse.map (data, ·) ++
            delivering, issued⟩
  /-- Data is delivered. -/
  | deliver {waiting : List (PendingInterest κ)} {delivering : List (Data × PendingInterest κ)}
      {issued : Nat} (data : Data) (entry : PendingInterest κ) :
      Step ⟨waiting, (data, entry) :: delivering, issued⟩ none [.data entry data]
        ⟨waiting, delivering, issued⟩
  /-- An entry that still waits times out. -/
  | expire {waiting : List (PendingInterest κ)} {delivering : List (Data × PendingInterest κ)}
      {issued : Nat} (entry : PendingInterest κ)
      (waits : ∃ other ∈ waiting, other.handle = entry.handle) :
      Step ⟨waiting, delivering, issued⟩ none (entry.onTimeout.map (.timeout entry)).toList
        ⟨waiting.eraseP (·.handle == entry.handle), delivering, issued⟩

/-- Log records resolve nothing. -/
theorem resolutions_logged {κ : Type} (notices : List Notice) :
    resolutions (notices.map (Event.logged (κ := κ))) = [] := by
  rw [resolutions, List.filterMap_map]
  exact List.filterMap_eq_nil_iff.mpr fun _ _ => rfl

theorem mem_resolutions {κ : Type} {events : List (Event κ)} {call : Call κ} :
    call ∈ resolutions events ↔ .called call ∈ events ∧ call.entry?.isSome = true := by
  rw [resolutions, List.mem_filterMap]
  constructor
  · rintro ⟨event, member, resolved⟩
    cases event with
    | called other =>
      obtain ⟨entry, found, rfl⟩ := Option.map_eq_some_iff.mp resolved
      exact ⟨member, by rw [found]; rfl⟩
    | logged | sent | registering | closed | armed | answered => cases resolved
  · rintro ⟨member, resolves⟩
    obtain ⟨entry, found⟩ := Option.isSome_iff_exists.mp resolves
    exact ⟨.called call, member, by rw [Event.resolution?, found]; rfl⟩

namespace Ledger

variable {κ : Type} {l after : Ledger κ} {made : Option (PendingInterest κ)} {calls : List (Call κ)}

/-- How often a handle stands on a ledger. -/
def owed (l : Ledger κ) (handle : Nat) : Nat :=
  (l.waiting ++ l.delivering.map (·.2)).countP (·.handle == handle)

/-- An entry that is withdrawn stands on the ledger once less. -/
theorem owed_withdraw_lt {entry : PendingInterest κ} {withdrawn : PendingInterest κ → Bool}
    (waits : entry ∈ l.waiting) (leaves : withdrawn entry = true) :
    owed { l with waiting := l.waiting.filter fun other => !withdrawn other } entry.handle <
      l.owed entry.handle := by
  have parts := l.waiting.countP_eq_countP_filter_add (·.handle == entry.handle) withdrawn
  have gone : 0 < (l.waiting.filter withdrawn).countP (·.handle == entry.handle) :=
    List.countP_pos_iff.mpr ⟨entry, List.mem_filter.mpr ⟨waits, leaves⟩, beq_self_eq_true _⟩
  simp only [owed, List.countP_append]
  omega

namespace Step

theorem mem_waiting {entry : PendingInterest κ} (step : Step l made calls after)
    (waits : entry ∈ after.waiting) : entry ∈ l.waiting ∨ made = some entry := by
  cases step with
  | rest | deliver => exact .inl waits
  | make =>
    rcases List.mem_append.mp waits with old | new
    · exact .inl old
    · rw [List.mem_singleton.mp new]
      exact .inr rfl
  | withdraw | extract => exact .inl (List.mem_filter.mp waits).1
  | expire => exact .inl (List.mem_of_mem_eraseP waits)

/-- Data is only ever to be delivered to entries that waited for it. -/
theorem mem_delivering {data : Data} {entry : PendingInterest κ} (step : Step l made calls after)
    (delivering : (data, entry) ∈ after.delivering) :
    (data, entry) ∈ l.delivering ∨
      entry ∈ l.waiting ∧ entry.interest.matchesName data.name = true := by
  cases step with
  | rest abandoned => exact .inl (abandoned.subset delivering)
  | make numbered abandoned => exact .inl (abandoned.subset delivering)
  | withdraw | expire => exact .inl delivering
  | extract found =>
    rcases List.mem_append.mp delivering with new | old
    · obtain ⟨other, taken, same⟩ := List.mem_map.mp new
      cases same
      exact .inr (List.mem_filter.mp (List.mem_reverse.mp taken))
    · exact .inl old
  | deliver => exact .inl (List.mem_cons_of_mem _ delivering)

/-- Data is delivered as it was to be, and an entry times out by its own callback. -/
theorem resolves {call : Call κ} (step : Step l made calls after) (called : call ∈ calls) :
    (∃ data entry, call = .data entry data ∧ (data, entry) ∈ l.delivering) ∨
      ∃ entry callback, call = .timeout entry callback ∧ entry.onTimeout = some callback := by
  cases step with
  | rest | make | withdraw | extract => cases called
  | deliver data entry =>
    rw [List.mem_singleton.mp called]
    exact .inl ⟨data, entry, rfl, List.mem_cons_self⟩
  | expire entry waits =>
    obtain ⟨callback, given, rfl⟩ := Option.map_eq_some_iff.mp (Option.mem_toList.mp called)
    exact .inr ⟨entry, callback, rfl, given⟩

/-- Handles are issued in order. -/
theorem issued_le (step : Step l made calls after) : l.issued ≤ after.issued := by
  cases step with
  | rest abandoned monotone => exact monotone
  | make => exact Nat.le_succ _
  | withdraw | extract | deliver | expire => exact Nat.le_refl _

theorem issued_of_made {entry : PendingInterest κ} (step : Step l (some entry) calls after) :
    entry.handle = l.issued ∧ after.issued = l.issued + 1 ∧
      after.waiting = l.waiting ++ [entry] := by
  cases step with
  | make numbered => exact ⟨numbered, rfl, rfl⟩

/-- What stands on the ledger, together with what is called, only grows when an entry is made. -/
theorem owed_le (step : Step l made calls after) (handle : Nat) :
    after.owed handle + (calls.filterMap Call.entry?).countP (·.handle == handle) ≤
      l.owed handle + made.toList.countP (·.handle == handle) := by
  simp only [owed, List.countP_append]
  have fewer : ∀ {some all : List (PendingInterest κ)}, some.Sublist all →
      some.countP (·.handle == handle) ≤ all.countP (·.handle == handle) :=
    fun part => part.countP_le
  cases step with
  | rest abandoned =>
    have left := fewer (abandoned.map (·.2))
    simpa using left
  | make numbered abandoned =>
    have left := fewer (abandoned.map (·.2))
    simp only [List.countP_append, List.filterMap_nil, List.countP_nil, Option.toList_some]
    omega
  | @withdraw waiting delivering issued withdrawn =>
    have kept := fewer (List.filter_sublist (l := waiting) (p := fun entry => !withdrawn entry))
    simpa using kept
  | @extract waiting delivering issued data =>
    have parts := waiting.countP_eq_countP_filter_add (·.handle == handle)
      fun entry => entry.interest.matchesName data.name
    simp only [List.map_append, List.map_map, Function.comp_def, List.map_id', List.countP_append,
      List.countP_reverse, List.filterMap_nil, List.countP_nil, Option.toList_none]
    omega
  | deliver data entry =>
    simp [Call.entry?, List.countP_cons, Nat.add_assoc]
  | @expire waiting delivering issued entry waits =>
    obtain ⟨first, member, same⟩ := waits
    obtain ⟨gone, before, behind, -, found, split, erased⟩ :=
      List.exists_of_eraseP (p := (·.handle == entry.handle)) member (by simpa using same)
    have called : (((entry.onTimeout.map (Call.timeout entry)).toList.filterMap
        Call.entry?).countP (·.handle == handle)) ≤ [gone].countP (·.handle == handle) := by
      rw [List.countP_singleton, eq_of_beq found]
      cases entry.onTimeout <;> simp [Call.entry?, List.countP_singleton]
    rw [erased, split, ← List.singleton_append]
    simp only [List.countP_append, Option.toList_none, List.countP_nil]
    omega

/-- A handle that is no longer on the ledger never comes back, and nothing is called under it. -/
theorem spent {handle : Nat} (step : Step l made calls after) (spent : l.owed handle = 0)
    (issued : handle < l.issued) :
    (calls.filterMap Call.entry?).countP (·.handle == handle) = 0 ∧ after.owed handle = 0 ∧
      handle < after.issued := by
  have grown := step.owed_le handle
  have later := step.issued_le
  cases made with
  | none =>
    simp only [Option.toList_none, List.countP_nil] at grown
    omega
  | some entry =>
    obtain ⟨numbered, -, -⟩ := step.issued_of_made
    have other : ¬ (entry.handle == handle) = true := by
      rw [beq_iff_eq]
      omega
    simp only [Option.toList_some, List.countP_singleton, if_neg other] at grown
    omega

end Step

end Ledger

end NamedData
