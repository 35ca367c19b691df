import NamedData.Proofs.Node.Delivery
import NamedData.Proofs.Node.Polled

/-!
Which entries time out, and in what order.

When every entry that waits has one timeout among the calls that a node keeps (`Engine.Timed`), that
timeout is due at the deadline of the entry. So the calls that are due time out the entries whose
deadline has come, in the order of their deadlines.
-/
namespace NamedData

/-- Whether a call is the timeout of the entry of a handle. -/
def NodeCall.times {κ : Type} (handle : Nat) : NodeCall κ → Bool
  | .timeout entry => entry.handle == handle
  | .callback _ => false

/-- The entry that a call times out, given those that wait. -/
def NodeCall.timesOut? {κ : Type} (waiting : List (PendingInterest κ)) :
    NodeCall κ → Option (PendingInterest κ)
  | .timeout entry =>
    if waiting.any fun other => other.handle == entry.handle then some entry else none
  | .callback _ => none

/-- The entries that some calls time out, in the order of the calls. -/
def expired {κ : Type} (waiting : List (PendingInterest κ)) (calls : List (NodeCall κ)) :
    List (PendingInterest κ) :=
  calls.filterMap (NodeCall.timesOut? waiting)

theorem timeouts_expired_append {κ : Type} (waiting : List (PendingInterest κ))
    (calls others : List (NodeCall κ)) :
    timeouts (expired waiting (calls ++ others)) =
      timeouts (expired waiting calls) ++ timeouts (expired waiting others) := by
  rw [expired, List.filterMap_append, timeouts, List.filterMap_append]
  rfl

namespace NodeCall

variable {κ : Type} {call : NodeCall κ} {entry : PendingInterest κ}

theorem times_iff {handle : Nat} :
    call.times handle = true ↔ ∃ entry, call = .timeout entry ∧ entry.handle = handle := by
  cases call <;> simp [times]

theorem timesOut?_eq_some {waiting : List (PendingInterest κ)} :
    call.timesOut? waiting = some entry ↔
      call = .timeout entry ∧ ∃ other ∈ waiting, other.handle = entry.handle := by
  cases call with
  | callback => simp [timesOut?]
  | timeout other =>
    simp only [timesOut?, Option.ite_none_right_eq_some, List.any_eq_true, beq_iff_eq,
      Option.some.injEq, timeout.injEq]
    constructor
    · rintro ⟨waits, rfl⟩
      exact ⟨rfl, waits⟩
    · rintro ⟨rfl, waits⟩
      exact ⟨waits, rfl⟩

end NodeCall

namespace Engine

variable {κ τ : Type} {e : Engine κ DelayedCalls τ} {entry : PendingInterest κ} {now : Instant}
variable {waiting : List (PendingInterest κ)}

/-- The calls that a node keeps are timeouts of interests, one for each that waits. -/
structure Timed (e : Engine κ DelayedCalls τ) : Prop where
  timeouts : ∀ c ∈ e.node.scheduler.calls, ∃ entry, c.call = .timeout entry
  once : ∀ entry ∈ e.node.pending.entries,
    e.node.scheduler.calls.countP (fun c => c.call.times entry.handle) = 1

/-- When the lifetime of an entry is over: when its timeout is due. -/
def deadline? (e : Engine κ DelayedCalls τ) (entry : PendingInterest κ) : Option Instant :=
  (e.node.scheduler.calls.find? fun c => c.call.times entry.handle).map (·.due)

/-- Whether the lifetime of an entry is over. -/
def overdue (e : Engine κ DelayedCalls τ) (now : Instant) (entry : PendingInterest κ) : Bool :=
  (e.deadline? entry).any fun due => decide (due ≤ now)

/-- An entry that waits has one timeout. -/
theorem Timed.timer (timed : e.Timed) (waits : entry ∈ e.node.pending.entries) :
    ∃ c ∈ e.node.scheduler.calls, c.call.times entry.handle = true ∧ e.deadline? entry = some c.due ∧
      ∀ other ∈ e.node.scheduler.calls, other.call.times entry.handle = true → other = c := by
  have once := timed.once entry waits
  rw [List.countP_eq_length_filter, List.length_eq_one_iff] at once
  obtain ⟨c, found⟩ := once
  have mem_iff : ∀ other, other ∈ e.node.scheduler.calls ∧ other.call.times entry.handle = true ↔
      other = c := by
    intro other
    have inside : other ∈ [c] ↔ _ := found ▸ List.mem_filter
    exact inside.symm.trans List.mem_singleton
  obtain ⟨kept, times⟩ := (mem_iff c).mpr rfl
  refine ⟨c, kept, times, ?_, fun other member times => (mem_iff other).mp ⟨member, times⟩⟩
  rw [deadline?, ← List.head?_filter, found]
  rfl

/-- The timeouts that are due are those of the entries whose deadline has come. -/
theorem Timed.any_due (timed : e.Timed) (steady : e.Steady) (waits : entry ∈ e.node.pending.entries)
    (now : Instant) :
    (e.node.scheduler.takeDue now).1.any (NodeCall.times entry.handle) = e.overdue now entry := by
  obtain ⟨c, kept, times, deadline, only⟩ := timed.timer waits
  rw [steady.sorted.takeDue_eq, overdue, deadline, Bool.eq_iff_iff]
  simp only [List.any_eq_true, List.mem_map, List.mem_filter, decide_eq_true_eq, Option.any_some]
  constructor
  · rintro ⟨_, ⟨other, ⟨member, due⟩, rfl⟩, same⟩
    rwa [only other member same] at due
  · intro due
    exact ⟨c.call, ⟨c, ⟨kept, due⟩, rfl⟩, times⟩

/-- A timeout that has been run stands nowhere among those that are due. -/
theorem Timed.any_ran (timed : e.Timed) {ran calls : List (NodeCall κ)} {call : NodeCall κ}
    (due : ran ++ call :: calls = (e.node.scheduler.takeDue now).1)
    (waits : entry ∈ e.node.pending.entries) (times : call.times entry.handle = true) :
    ran.any (NodeCall.times entry.handle) = false := by
  have once := timed.once entry waits
  have part : ((e.node.scheduler.takeDue now).1).Sublist (e.node.scheduler.calls.map (·.call)) :=
    (List.takeWhile_sublist _).map _
  have fewer := part.countP_le (p := NodeCall.times entry.handle)
  rw [← due, List.countP_append, List.countP_cons_of_pos times, List.countP_map] at fewer
  change _ ≤ e.node.scheduler.calls.countP (fun c => c.call.times entry.handle) at fewer
  have none : ran.countP (NodeCall.times entry.handle) = 0 := by omega
  rw [← Bool.not_eq_true, List.any_eq_true]
  rintro ⟨other, member, same⟩
  exact List.countP_eq_zero.mp none other member same

/-- The next timeout that is due times out whom it would have without those before it. -/
theorem Timed.expired_next (timed : e.Timed) {ran calls : List (NodeCall κ)} {call : NodeCall κ}
    (due : ran ++ call :: calls = (e.node.scheduler.takeDue now).1)
    (part : ∀ entry ∈ waiting, entry ∈ e.node.pending.entries) :
    expired (waiting.filter fun entry => !ran.any (NodeCall.times entry.handle)) [call] =
      expired waiting [call] := by
  cases call with
  | callback => rfl
  | timeout entry =>
    simp only [expired, List.filterMap_cons, NodeCall.timesOut?, List.any_filter]
    congr 2
    apply propext
    simp only [List.any_eq_true, Bool.and_eq_true, Bool.not_eq_true', beq_iff_eq]
    constructor
    · rintro ⟨other, waits, -, same⟩
      exact ⟨other, waits, same⟩
    · rintro ⟨other, waits, same⟩
      have times := NodeCall.times_iff.mpr ⟨entry, rfl, same.symm⟩
      exact ⟨other, waits, timed.any_ran due (part other waits) times, same⟩

/-! ## The order of timeouts -/

/-- One entry times out before another: its deadline is earlier, or the same and it was expressed
earlier. -/
def TimesOutBefore (e : Engine κ DelayedCalls τ) (entry other : PendingInterest κ) : Prop :=
  ∃ due later, e.deadline? entry = some due ∧ e.deadline? other = some later ∧
    (due < later ∨ due = later ∧ entry.handle < other.handle)

variable (own : ∀ c ∈ e.node.scheduler.calls, ∀ entry, c.call = .timeout entry →
    ∀ other ∈ e.node.pending.entries, other.handle = entry.handle → other = entry)
  (part : ∀ entry ∈ waiting, entry ∈ e.node.pending.entries)

include own part in
/-- A timeout of an entry that waits is due at the deadline of the entry. -/
theorem Timed.of_timesOut? (timed : e.Timed) {c : DelayedCall (NodeCall κ)}
    (member : c ∈ e.node.scheduler.calls) (found : c.call.timesOut? waiting = some entry) :
    entry ∈ waiting ∧ e.deadline? entry = some c.due := by
  obtain ⟨call, other, waits, same⟩ := NodeCall.timesOut?_eq_some.mp found
  obtain rfl := own c member entry call other (part other waits) same
  obtain ⟨timer, -, -, deadline, only⟩ := timed.timer (part other waits)
  have first := only c member (NodeCall.times_iff.mpr ⟨other, call, rfl⟩)
  exact ⟨waits, by rw [deadline, first]⟩

include own part in
/-- The entries that time out are those whose deadline has come. -/
theorem Timed.mem_expired_iff (timed : e.Timed) (steady : e.Steady) :
    entry ∈ expired waiting (e.node.scheduler.takeDue now).1 ↔
      entry ∈ waiting ∧ e.overdue now entry = true := by
  rw [steady.sorted.takeDue_eq, expired, List.mem_filterMap]
  constructor
  · rintro ⟨call, due, found⟩
    obtain ⟨c, taken, rfl⟩ := List.mem_map.mp due
    obtain ⟨member, soon⟩ := List.mem_filter.mp taken
    obtain ⟨waits, deadline⟩ := timed.of_timesOut? own part member found
    exact ⟨waits, by simpa [overdue, deadline] using soon⟩
  · rintro ⟨waits, lapsed⟩
    obtain ⟨c, member, times, deadline, -⟩ := timed.timer (part entry waits)
    obtain ⟨timer, call, same⟩ := NodeCall.times_iff.mp times
    obtain rfl := own c member timer call entry (part entry waits) same.symm
    have soon : c.due ≤ now := by simpa [overdue, deadline] using lapsed
    have taken : c ∈ e.node.scheduler.calls.filter fun c => decide (c.due ≤ now) :=
      List.mem_filter.mpr ⟨member, by simpa using soon⟩
    exact ⟨c.call, List.mem_map_of_mem taken,
      NodeCall.timesOut?_eq_some.mpr ⟨call, entry, waits, rfl⟩⟩

include own part in
/-- Entries time out in the order of their deadlines. -/
theorem Timed.expired_pairwise (timed : e.Timed) (steady : e.Steady) :
    (expired waiting (e.node.scheduler.takeDue now).1).Pairwise e.TimesOutBefore := by
  rw [steady.sorted.takeDue_eq, expired, List.pairwise_filterMap, List.pairwise_map]
  apply (List.Pairwise.filter _ steady.sorted).imp_of_mem
  intro c other first second precedes entry found later following
  have member := (List.mem_filter.mp first).1
  have behind := (List.mem_filter.mp second).1
  obtain ⟨-, due⟩ := timed.of_timesOut? own part member found
  obtain ⟨-, laterDue⟩ := timed.of_timesOut? own part behind following
  refine ⟨c.due, other.due, due, laterDue, ?_⟩
  rcases Nat.lt_or_eq_of_le precedes.1 with earlier | together
  · exact .inl earlier
  · refine .inr ⟨?_, ?_⟩
    · exact congrArg Instant.mk together
    · exact precedes.2 (Nat.le_of_eq together.symm) entry later
        (NodeCall.timesOut?_eq_some.mp found).1 (NodeCall.timesOut?_eq_some.mp following).1

include own part in
/-- The entries that time out, each once, are those whose deadline has come. -/
theorem Timed.expired_perm (timed : e.Timed) (steady : e.Steady)
    (distinct : (waiting.map (·.handle)).Nodup) :
    (expired waiting (e.node.scheduler.takeDue now).1).Perm (waiting.filter (e.overdue now)) := by
  have once : (expired waiting (e.node.scheduler.takeDue now).1).Nodup := by
    apply (timed.expired_pairwise own part steady).imp
    rintro entry other ⟨due, later, deadline, laterDeadline, before⟩ rfl
    cases deadline.symm.trans laterDeadline
    rcases before with before | ⟨-, before⟩
    · exact Nat.lt_irrefl _ before
    · exact Nat.lt_irrefl _ before
  apply (List.perm_ext_iff_of_nodup once (distinct.of_map.filter _)).mpr
  intro entry
  rw [timed.mem_expired_iff own part steady, List.mem_filter]

omit own part in
/-- In every run, the timeouts that a node keeps are those of the entries that were expressed. -/
theorem Run.own_timeouts [Transport τ] {start : Engine κ DelayedCalls τ}
    {stages : List (Stage κ DelayedCalls τ)} (fresh : start.Fresh) (run : start.Run stages e) :
    ∀ c ∈ e.node.scheduler.calls, ∀ entry, c.call = .timeout entry →
      ∀ other ∈ e.node.pending.entries, other.handle = entry.handle → other = entry := by
  intro c member entry call other waits same
  have known := Run.known fresh run
  have made := known.armed entry (.inl ⟨c, member, call⟩)
  exact List.inj_on_of_nodup_map (Run.accounts fresh run).distinct (known.waiting other waits) made same

end Engine

end NamedData
