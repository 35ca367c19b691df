import NamedData.Proofs.Node.Processed
import NamedData.Proofs.Node.Ticking

/-!
The timeouts of a polled node.

At every point of a run, each entry that waits has one timeout, among the calls that the node keeps or
in a batch that is being run; a timeout that is kept is due when the lifetime of its entry ends, and one
that is being run was taken no earlier than that (`Engine.Covered`).
-/
namespace NamedData

namespace Engine

variable {κ τ : Type} {start e after : Engine κ DelayedCalls τ}
variable {stages past future : List (Stage κ DelayedCalls τ)} {stage : Stage κ DelayedCalls τ}
variable {entry : PendingInterest κ} {due now : Instant}

/-- An entry was expressed in some stage, and its lifetime ends at some time. -/
def Deadline (stages : List (Stage κ DelayedCalls τ)) (entry : PendingInterest κ) (due : Instant) :
    Prop :=
  ∃ stage ∈ stages, stage.before.makes? stage.move = some entry ∧
    ∃ lifetime, entry.interest.lifetime = some lifetime ∧
      stage.before.host.now.add? lifetime = some due

theorem Deadline.of_subset (deadline : Deadline past entry due) (part : past ⊆ stages) :
    Deadline stages entry due := by
  obtain ⟨stage, member, rest⟩ := deadline
  exact ⟨stage, part member, rest⟩

theorem Deadline.mem_made (deadline : Deadline stages entry due) : entry ∈ made stages := by
  obtain ⟨stage, member, makes, -⟩ := deadline
  exact List.mem_filterMap.mpr ⟨stage, member, makes⟩

variable [Transport τ]

/-- A batch of calls was taken in some stage, and still is what that stage put in its place: the
lifetimes of the interests whose timeouts it holds were over by then. -/
def Taken (stages : List (Stage κ DelayedCalls τ)) (calls : List (NodeCall κ))
    (outer : List (Frame κ)) : Prop :=
  ∃ earlier taking later now, stages = earlier ++ taking :: later ∧ check? taking = some now ∧
    taking.before.frames = .reading :: outer ∧
    (∀ other ∈ later, outer.length < other.before.frames.length) ∧
    ∀ entry, .timeout entry ∈ calls → ∃ due, Deadline earlier entry due ∧ due ≤ now

/-- How many timeouts of an entry have yet to be run. -/
def timers (e : Engine κ DelayedCalls τ) (handle : Nat) : Nat :=
  e.node.scheduler.calls.countP (fun c => c.call.times handle) +
    (e.frames.flatMap Frame.calls).countP (NodeCall.times handle)

/-- Every entry that waits has one timeout, which is in time. -/
structure Covered (stages : List (Stage κ DelayedCalls τ)) (e : Engine κ DelayedCalls τ) : Prop where
  once : ∀ entry ∈ e.node.pending.entries, e.timers entry.handle = 1
  kept : ∀ c ∈ e.node.scheduler.calls, ∀ entry, c.call = .timeout entry →
    Deadline stages entry c.due
  taken : ∀ calls outer, (calls, outer) ∈ Frame.batches e.frames → Taken stages calls outer

/-- A batch that is still being run was taken when it was. -/
theorem Taken.concat {calls : List (NodeCall κ)} {outer : List (Frame κ)}
    (taken : Taken stages calls outer) (deeper : outer.length < stage.before.frames.length) :
    Taken (stages ++ [stage]) calls outer := by
  obtain ⟨earlier, taking, later, now, rfl, checked, reading, inside, ended⟩ := taken
  refine ⟨earlier, taking, later ++ [stage], now, by simp, checked, reading, ?_, ended⟩
  intro other member
  rcases List.mem_append.mp member with before | this
  · exact inside other before
  · rw [List.mem_singleton.mp this]
    exact deeper

/-- Steps that arm nothing and take nothing. -/
theorem Covered.keep (covered : Covered past stage.before)
    (pending : stage.after.node.pending.entries ⊆ stage.before.node.pending.entries)
    (calls : stage.after.node.scheduler.calls ⊆ stage.before.node.scheduler.calls)
    (batches : Frame.batches stage.after.frames ⊆ Frame.batches stage.before.frames)
    (timers : ∀ entry ∈ stage.after.node.pending.entries,
      stage.after.timers entry.handle = stage.before.timers entry.handle) :
    Covered (past ++ [stage]) stage.after where
  once entry waits := (timers entry waits).trans (covered.once entry (pending waits))
  kept c member entry same :=
    (covered.kept c (calls member) entry same).of_subset (List.subset_append_left ..)
  taken _ _ member :=
    (covered.taken _ _ (batches member)).concat (Frame.length_lt_of_batch (batches member))

/-- A call that is armed, unless it is the timeout of an entry that waits already. -/
theorem Covered.arm {call : NodeCall κ} (covered : Covered past stage.before)
    (scheduler : stage.after.node.scheduler = stage.before.node.scheduler.callAt due call)
    (frames : stage.after.frames = stage.before.frames)
    (deadline : ∀ entry, call = .timeout entry → Deadline (past ++ [stage]) entry due)
    (once : ∀ entry ∈ stage.after.node.pending.entries,
      stage.before.timers entry.handle + (call.times entry.handle).toNat = 1) :
    Covered (past ++ [stage]) stage.after where
  once entry waits := by
    rw [← once entry waits, timers, timers, scheduler, frames,
      (DelayedCalls.callAt_perm _ due call).countP_eq, List.countP_cons]
    cases call.times entry.handle with
    | true => simp; omega
    | false => simp
  kept := by
    intro c member entry same
    rw [scheduler] at member
    rcases List.mem_cons.mp ((DelayedCalls.callAt_perm _ due call).subset member) with rfl | old
    · exact deadline entry same
    · exact (covered.kept c old entry same).of_subset (List.subset_append_left ..)
  taken := by
    intro calls outer member
    rw [frames] at member
    exact (covered.taken calls outer member).concat (Frame.length_lt_of_batch member)

omit [Transport τ] in
/-- A timeout that has yet to be run was armed for an entry that was made. -/
theorem timers_eq_zero {handle : Nat} (known : Known start stages e)
    (fresh : ∀ entry ∈ made stages, entry.handle ≠ handle) : e.timers handle = 0 := by
  have never : ∀ call, e.Armed call → call.times handle = false := by
    intro call armed
    rw [← Bool.not_eq_true]
    intro times
    obtain ⟨entry, rfl, same⟩ := NodeCall.times_iff.mp times
    exact fresh entry (known.armed entry armed) same
  have kept : e.node.scheduler.calls.countP (fun c => c.call.times handle) = 0 := by
    rw [List.countP_eq_zero]
    intro c member
    rw [never c.call (.inl ⟨c, member, rfl⟩)]
    exact Bool.false_ne_true
  have running : (e.frames.flatMap Frame.calls).countP (NodeCall.times handle) = 0 := by
    rw [List.countP_eq_zero]
    intro call member
    rw [never call (.inr member)]
    exact Bool.false_ne_true
  rw [timers, kept, running]

/-- A new entry is covered, since its handle is none that an earlier entry has. -/
theorem Covered.make {lifetime : Duration} (covered : Covered past stage.before)
    (known : Known start past stage.before) (accounts : Accounts past stage.before)
    (makes : stage.before.makes? stage.move = some entry)
    (pending : stage.after.node.pending.entries = stage.before.node.pending.entries ++ [entry])
    (numbered : entry.handle = stage.before.host.marks.next)
    (lives : entry.interest.lifetime = some lifetime)
    (ends : stage.before.host.now.add? lifetime = some due)
    (scheduler : stage.after.node.scheduler = stage.before.node.scheduler.callAt due (.timeout entry))
    (frames : stage.after.frames = stage.before.frames) : Covered (past ++ [stage]) stage.after := by
  apply covered.arm scheduler frames
  · rintro other ⟨⟩
    exact ⟨stage, List.mem_append_right _ (List.mem_singleton_self _), makes, lifetime, lives, ends⟩
  · intro other waits
    rw [pending] at waits
    rcases List.mem_append.mp waits with old | new
    · have before := accounts.issued other (known.waiting other old)
      have different : (NodeCall.timeout entry).times other.handle = false := by
        apply beq_eq_false_iff_ne.mpr
        rw [numbered]
        exact Nat.ne_of_gt before
      rw [covered.once other old, different]
      rfl
    · rw [List.mem_singleton.mp new]
      have none : stage.before.timers entry.handle = 0 := by
        apply timers_eq_zero known
        intro earlier member
        rw [numbered]
        exact Nat.ne_of_lt (accounts.issued earlier member)
      simp [none, NodeCall.times]

/-- The calls that are due are taken, so all that are taken were over by now. -/
theorem Covered.take {outer : List (Frame κ)} (covered : Covered past stage.before)
    (checked : check? stage = some stage.before.host.now)
    (reading : stage.before.frames = .reading :: outer)
    (pending : stage.after.node.pending = stage.before.node.pending)
    (scheduler : stage.after.node.scheduler =
      (stage.before.node.scheduler.takeDue stage.before.host.now).2)
    (frames : stage.after.frames =
      .running (stage.before.node.scheduler.takeDue stage.before.host.now).1 :: outer) :
    Covered (past ++ [stage]) stage.after where
  once := by
    intro entry waits
    rw [pending] at waits
    rw [← covered.once entry waits, timers, timers, scheduler, frames, reading,
      ← DelayedCalls.countP_takeDue stage.before.node.scheduler stage.before.host.now]
    simp only [List.flatMap_cons, Frame.calls, List.countP_append, List.nil_append]
    omega
  kept := by
    intro c member entry same
    rw [scheduler] at member
    have old := (DelayedCalls.takeDue_sublist _ _).subset member
    exact (covered.kept c old entry same).of_subset (List.subset_append_left ..)
  taken := by
    intro calls inside member
    rw [frames] at member
    rcases List.mem_cons.mp member with new | old
    · obtain ⟨rfl, rfl⟩ := Prod.mk.inj new
      refine ⟨past, stage, [], stage.before.host.now, rfl, checked, reading, by simp, ?_⟩
      intro entry taken
      obtain ⟨c, member, same, soon⟩ := DelayedCalls.due_of_mem_takeDue taken
      exact ⟨c.due, covered.kept c member entry same, soon⟩
    · have before : (calls, inside) ∈ Frame.batches stage.before.frames := by
        rw [reading]
        exact old
      exact (covered.taken calls inside before).concat (Frame.length_lt_of_batch before)

/-- One of the calls that were taken is run, and its entry does not wait any more. -/
theorem Covered.run {call : NodeCall κ} {calls : List (NodeCall κ)} {outer : List (Frame κ)}
    (covered : Covered past stage.before)
    (frames : stage.before.frames = .running (call :: calls) :: outer)
    (pending : ∀ entry ∈ stage.after.node.pending.entries,
      entry ∈ stage.before.node.pending.entries ∧ call.times entry.handle = false)
    (scheduler : stage.after.node.scheduler = stage.before.node.scheduler)
    (batches : Frame.batches stage.after.frames = (calls, outer) :: Frame.batches outer)
    (left : stage.after.frames.flatMap Frame.calls = calls ++ outer.flatMap Frame.calls) :
    Covered (past ++ [stage]) stage.after where
  once := by
    intro entry waits
    obtain ⟨before, other⟩ := pending entry waits
    rw [← covered.once entry before, timers, timers, scheduler, left, frames]
    simp [Frame.calls, other]
  kept := by
    intro c member entry same
    rw [scheduler] at member
    exact (covered.kept c member entry same).of_subset (List.subset_append_left ..)
  taken := by
    intro others inside member
    rw [batches] at member
    have deeper : ∀ {calls inside}, (calls, inside) ∈ Frame.batches stage.before.frames →
        Taken (past ++ [stage]) calls inside := fun old =>
      (covered.taken _ _ old).concat (Frame.length_lt_of_batch old)
    rw [frames] at deeper
    rcases List.mem_cons.mp member with new | old
    · obtain ⟨rfl, rfl⟩ := Prod.mk.inj new
      obtain ⟨earlier, taking, later, now, split, checked, reading, inside, ended⟩ :=
        deeper List.mem_cons_self
      exact ⟨earlier, taking, later, now, split, checked, reading, inside,
        fun entry member => ended entry (List.mem_cons_of_mem _ member)⟩
    · exact deeper (List.mem_cons_of_mem _ old)

/-- Every step keeps the timeouts in order. -/
theorem Covered.step (covered : Covered past stage.before) (known : Known start past stage.before)
    (accounts : Accounts past stage.before)
    (ticks : Ticks stage.before stage.after (stage.before.makes? stage.move) (check? stage)
      stage.events) : Covered (past ++ [stage]) stage.after := by
  generalize makes : stage.before.makes? stage.move = made, checked : check? stage = check,
    stage.events = events at ticks
  cases ticks with
  | keep pending scheduler batches calls untimed =>
    apply covered.keep pending (by rw [scheduler]; exact List.Subset.refl _) batches
    intro entry waits
    rw [timers, timers, scheduler, calls]
  | make pending numbered lives ends scheduler frames untimed =>
    exact covered.make known accounts makes pending numbered lives ends scheduler frames
  | arm pending scheduler frames untimed =>
    apply covered.arm scheduler frames (by simp)
    intro entry waits
    rw [pending] at waits
    exact covered.once entry waits
  | take reading pending scheduler frames untimed =>
    exact covered.take checked reading pending scheduler frames
  | run frames pending scheduler batches left told =>
    exact covered.run frames pending scheduler batches left
  | clear pending scheduler frames untimed =>
    apply covered.keep
    · rw [pending]
      exact List.nil_subset _
    · rw [scheduler]
      exact List.nil_subset _
    · rw [frames]
      exact List.Subset.refl _
    · intro entry waits
      rw [pending] at waits
      cases waits

omit [Transport τ] in
/-- An entry is made in one stage. -/
theorem eq_of_makes? {other : Stage κ DelayedCalls τ} (distinct : (made stages).Nodup)
    (member : stage ∈ stages) (makes : stage.before.makes? stage.move = some entry)
    (behind : other ∈ stages) (again : other.before.makes? other.move = some entry) :
    stage = other := by
  have apart := List.pairwise_filterMap.mp distinct
  by_contra different
  have symmetric : Std.Symm fun stage other : Stage κ DelayedCalls τ =>
      ∀ entry, stage.before.makes? stage.move = some entry →
        ∀ later, other.before.makes? other.move = some later → entry ≠ later :=
    ⟨fun _ _ apart entry makes later again => (apart later again entry makes).symm⟩
  exact apart.forall member behind different entry makes entry again rfl

omit [Transport τ] in
/-- An interest is expressed once, so its lifetime ends once. -/
theorem Deadline.unique {other : Instant} (distinct : (made stages).Nodup)
    (deadline : Deadline stages entry due) (again : Deadline stages entry other) : due = other := by
  obtain ⟨stage, member, makes, lifetime, lives, ends⟩ := deadline
  obtain ⟨same, behind, makesToo, alike, livesToo, endsToo⟩ := again
  obtain rfl := eq_of_makes? distinct member makes behind makesToo
  cases lives.symm.trans livesToo
  exact Option.some.inj (ends.symm.trans endsToo)

/-- A stage of a run is a step of one of the kinds. -/
theorem Run.ticks (fresh : start.Fresh) (sorted : start.node.scheduler.Sorted NodeCall.Earlier)
    (run : start.Run past stage.before) (follows : start.Follows past stage)
    (polled : Polled (past ++ [stage])) :
    Ticks stage.before stage.after (stage.before.makes? stage.move) (check? stage) stage.events := by
  have kept : KeepsCalls past := (polled.of_subset (List.subset_append_left ..)).keeps
  exact Step.ticks (polled.of_subset (List.subset_append_right ..))
    (Run.steady fresh sorted run kept).standing follows.1

/-- The timeouts are in order at every point of a run. -/
theorem Run.covered (fresh : start.Fresh) (sorted : start.node.scheduler.Sorted NodeCall.Earlier)
    (run : start.Run stages e) (polled : Polled stages) : Covered stages e := by
  revert polled
  apply run.invariant
  · intro _
    constructor
    · simp [fresh.pending]
    · intro c member entry same
      exact absurd ⟨c, member, same⟩ (fresh.scheduler entry)
    · simp [fresh.frames, Frame.batches]
  · intro past stage earlier follows covered polled
    exact (covered (polled.of_subset (List.subset_append_left ..))).step (Run.known fresh earlier)
      (Run.accounts fresh earlier) (Run.ticks fresh sorted earlier follows polled)

/-- Once the calls that were due have been taken, the timeouts that are kept of interests expressed
before are due later. -/
theorem Run.later {taking : Stage κ DelayedCalls τ} (fresh : start.Fresh)
    (sorted : start.node.scheduler.Sorted NodeCall.Earlier)
    (run : start.Run (past ++ taking :: future) e) (polled : Polled (past ++ taking :: future))
    (checked : check? taking = some now) :
    ∀ c ∈ e.node.scheduler.calls, ∀ entry ∈ made past, c.call = .timeout entry → now < c.due := by
  rw [List.append_cons] at run polled
  revert polled
  apply run.since
  · intro mid upTo polled
    obtain ⟨earlier, follows, rfl⟩ := upTo.of_concat
    rw [List.append_nil] at polled
    have ticks := Run.ticks fresh sorted earlier follows polled
    have kept : KeepsCalls past := (polled.of_subset (List.subset_append_left ..)).keeps
    have steady := Run.steady fresh sorted earlier kept
    rw [checked] at ticks
    generalize taking.before.makes? taking.move = made, taking.events = events at ticks
    cases ticks with
    | take reading pending scheduler frames untimed =>
      rw [scheduler, steady.sorted.takeDue_eq]
      intro c member entry _ _
      have late := (List.mem_filter.mp member).2
      simpa [Instant.le_def, Instant.lt_def] using late
  · intro later stage earlier follows holds polled
    rw [← List.append_assoc] at polled
    have ticks := Run.ticks fresh sorted earlier follows polled
    have still := holds (polled.of_subset (List.subset_append_left ..))
    have issued := (Run.accounts fresh earlier).issued
    generalize makes : stage.before.makes? stage.move = new, check? stage = check,
      stage.events = events at ticks
    cases ticks with
    | keep pending scheduler | run frames pending scheduler =>
      rw [scheduler]
      exact still
    | take reading pending scheduler =>
      intro c member
      rw [scheduler] at member
      exact still c ((DelayedCalls.takeDue_sublist _ _).subset member)
    | clear pending scheduler =>
      rw [scheduler]
      simp
    | arm pending scheduler =>
      intro c member entry old same
      rw [scheduler] at member
      rcases List.mem_cons.mp ((DelayedCalls.callAt_perm ..).subset member) with rfl | before
      · cases same
      · exact still c before entry old same
    | @make fresh _ _ _ pending numbered lives ends scheduler =>
      intro c member entry old same
      rw [scheduler] at member
      rcases List.mem_cons.mp ((DelayedCalls.callAt_perm ..).subset member) with rfl | before
      · have before : entry ∈ made (past ++ [taking] ++ later) := by
          simp only [made, List.filterMap_append, List.mem_append] at old ⊢
          exact .inl (.inl old)
        have below : entry.handle < stage.before.host.marks.next := issued entry before
        rw [← NodeCall.timeout.inj same, numbered] at below
        exact absurd below (Nat.lt_irrefl _)
      · exact still c before entry old same

/-- The interests of a node time out when they should. -/
structure Punctual (stages : List (Stage κ DelayedCalls τ)) (e : Engine κ DelayedCalls τ) : Prop where
  /-- Between two operations, every entry that waits has one timeout among the calls the node keeps. It is
  due when the lifetime of the entry ends. -/
  covered : e.frames = [] → ∀ entry ∈ e.node.pending.entries, ∃ due, Deadline stages entry due ∧
    e.node.scheduler.calls.filter (fun c => c.call.times entry.handle) = [⟨due, .timeout entry⟩]
  /-- Nobody is told that an interest has timed out except by a batch of calls that was taken when the
  lifetime was over: what was in progress when it was taken has been ever since. -/
  notEarly : ∀ past stage future entry callback, stages = past ++ stage :: future →
    .called (.timeout entry callback) ∈ stage.events →
    ∃ earlier taking later calls outer now due, past = earlier ++ taking :: later ∧
      check? taking = some now ∧ taking.before.frames = .reading :: outer ∧
      stage.before.frames = .running (.timeout entry :: calls) :: outer ∧
      (∀ other ∈ later, outer.length < other.before.frames.length) ∧
      Deadline earlier entry due ∧ due ≤ now
  /-- Once the calls that were due have been taken and run, no entry waits that was expressed before and
  whose lifetime was over. -/
  notLate : ∀ past taking future now, stages = past ++ taking :: future → check? taking = some now →
    e.frames = [] → ∀ entry ∈ e.node.pending.entries, ∀ due, Deadline past entry due → now < due

/-- The timeout of an entry that waits between two operations. -/
theorem Covered.timer (covered : Covered stages e) (fresh : start.Fresh) (run : start.Run stages e)
    (rest : e.frames = []) (waits : entry ∈ e.node.pending.entries) :
    ∃ due, e.node.scheduler.calls.filter (fun c => c.call.times entry.handle) =
      [⟨due, .timeout entry⟩] := by
  have once := covered.once entry waits
  rw [timers, rest, List.flatMap_nil, List.countP_nil, Nat.add_zero, List.countP_eq_length_filter,
    List.length_eq_one_iff] at once
  obtain ⟨⟨due, call⟩, found⟩ := once
  obtain ⟨kept, times⟩ := List.mem_filter.mp (found ▸ List.mem_singleton_self _)
  obtain ⟨timed, same, alike⟩ := NodeCall.times_iff.mp times
  obtain rfl := Run.own_timeouts fresh run _ kept timed same entry waits alike.symm
  exact ⟨due, by rw [found, show call = _ from same]⟩

/-- Nobody is told that an interest has timed out except by a batch of calls that was taken when its
lifetime was over. -/
theorem Run.not_early {callback : κ} (fresh : start.Fresh)
    (sorted : start.node.scheduler.Sorted NodeCall.Earlier)
    (run : start.Run (past ++ stage :: future) e) (polled : Polled (past ++ stage :: future))
    (called : .called (.timeout entry callback) ∈ stage.events) :
    ∃ earlier taking later calls outer now due, past = earlier ++ taking :: later ∧
      check? taking = some now ∧ taking.before.frames = .reading :: outer ∧
      stage.before.frames = .running (.timeout entry :: calls) :: outer ∧
      (∀ other ∈ later, outer.length < other.before.frames.length) ∧
      Deadline earlier entry due ∧ due ≤ now := by
  obtain ⟨upTo, follows⟩ := run.at_stage
  have earlier : Polled (past ++ [stage]) := by
    rw [List.append_cons] at polled
    exact polled.of_subset (List.subset_append_left ..)
  have ticks := Run.ticks fresh sorted upTo follows earlier
  generalize stage.before.makes? stage.move = made, check? stage = check,
    stage.events = events at ticks called
  cases ticks with
  | keep _ _ _ _ untimed | make _ _ _ _ _ _ untimed | arm _ _ _ untimed | take _ _ _ _ untimed
  | clear _ _ _ untimed => exact absurd called (untimed entry callback)
  | @run _ calls outer _ frames pending scheduler batches left told =>
    obtain rfl := told entry callback called
    have before := Run.covered fresh sorted upTo (earlier.of_subset (List.subset_append_left ..))
    have batch : (.timeout entry :: calls, outer) ∈ Frame.batches stage.before.frames := by
      rw [frames]
      exact List.mem_cons_self
    obtain ⟨past, taking, later, now, rfl, checked, reading, inside, ended⟩ := before.taken _ _ batch
    obtain ⟨due, deadline, soon⟩ := ended entry List.mem_cons_self
    exact ⟨past, taking, later, _, _, now, due, rfl, checked, reading, frames, inside, deadline, soon⟩

/-- No interest waits that was expressed before the calls that were due were taken, and whose lifetime was
over by then. -/
theorem Run.not_late {taking : Stage κ DelayedCalls τ} (fresh : start.Fresh)
    (sorted : start.node.scheduler.Sorted NodeCall.Earlier)
    (run : start.Run (past ++ taking :: future) e) (polled : Polled (past ++ taking :: future))
    (checked : check? taking = some now) (rest : e.frames = [])
    (waits : entry ∈ e.node.pending.entries) (deadline : Deadline past entry due) : now < due := by
  have covered := Run.covered fresh sorted run polled
  obtain ⟨kept, timer⟩ := covered.timer fresh run rest waits
  have member := (List.mem_filter.mp (timer ▸ List.mem_singleton_self _)).1
  have distinct := (Run.accounts fresh run).distinct.of_map
  have same : kept = due := (covered.kept _ member entry rfl).unique distinct
    (deadline.of_subset (List.subset_append_left ..))
  rw [← same]
  exact Run.later fresh sorted run polled checked _ member entry deadline.mem_made rfl

/-- **Interests time out when they should.** Take any run of a node that is polled, whoever may act in
it: operations, the callbacks that are handed the node, and the world around. As long as the clock can
show the deadlines and no one but the node runs the calls it keeps, every entry that waits has its
timeout, none goes off early, and none is forgotten. -/
theorem interests_time_out_in_time (fresh : start.Fresh)
    (sorted : start.node.scheduler.Sorted NodeCall.Earlier) (run : start.Run stages e)
    (polled : Polled stages) : Punctual stages e := by
  have covered := Run.covered fresh sorted run polled
  constructor
  case covered =>
    intro rest entry waits
    obtain ⟨due, timer⟩ := covered.timer fresh run rest waits
    have kept := (List.mem_filter.mp (timer ▸ List.mem_singleton_self _)).1
    exact ⟨due, covered.kept _ kept entry rfl, timer⟩
  case notEarly =>
    rintro past stage future entry callback rfl called
    exact Run.not_early fresh sorted run polled called
  case notLate =>
    rintro past taking future now rfl checked rest entry waits due deadline
    exact Run.not_late fresh sorted run polled checked rest waits deadline

/-- A run of a polled node goes on with what the node can do. -/
theorem Run.extend {move : Move κ} {events : List (Event κ)}
    (run : start.Run stages e ∧ Polled stages) (acted : e.act? move = some (after, events))
    (own : ∀ call, move ≠ .perform (.run call))
    (shown : (e.delay? move).all (fun delay => (e.host.now.add? delay).isSome) = true) :
    start.Run (stages ++ [⟨e, move, events, after⟩]) after ∧
      Polled (stages ++ [⟨e, move, events, after⟩]) := by
  have follows : start.Follows stages ⟨e, move, events, after⟩ :=
    ⟨.act acted, fun call same => absurd same (own call)⟩
  refine ⟨.step run.1 follows, List.forall_mem_append.mpr ⟨run.2.keeps, ?_⟩,
    List.forall_mem_append.mpr ⟨run.2.own, ?_⟩, List.forall_mem_append.mpr ⟨run.2.shown, ?_⟩⟩
  · rw [List.forall_mem_singleton]
    intro drifts
    cases drifts
    cases acted
  · rw [List.forall_mem_singleton]
    exact own
  · rw [List.forall_mem_singleton]
    intro delay arms
    rwa [show e.delay? move = some delay from arms] at shown

/-- Of two interests the first is over at once. It times out when events are processed, and the other
waits for its timeout. -/
theorem one_of_two_times_out :
    ∃ (stages : List (Stage Unit DelayedCalls Sink)) (e : Engine Unit DelayedCalls Sink),
      untouched.Fresh ∧ untouched.Run stages e ∧ Polled stages ∧ Punctual stages e ∧
      e.frames = [] ∧ checks stages = [⟨0⟩] ∧
      called (NamedData.Stage.seen stages) = [.timeout (briefEntry 0 ⟨[]⟩) ()] ∧
      e.node.pending.entries.length = 1 := by
  have fresh : untouched.Fresh := by
    refine ⟨rfl, rfl, rfl, rfl, ?_⟩
    rintro entry ⟨delayed, member, -⟩
    cases member
  have begins : untouched.Run [] untouched := .start
  have brief := Run.extend ⟨begins, .nil⟩
    (show untouched.act? (.perform (expressBriefly ⟨[]⟩)) = _ from rfl) (by simp [expressBriefly]) rfl
  have patient := Run.extend brief (show act? _ (.perform (.request (.express .first
    { name := ⟨[]⟩ } () none))) = _ from rfl) nofun rfl
  have asked := Run.extend patient (show act? _ (.perform .processEvents) = _ from rfl) nofun rfl
  have taken := Run.extend asked (show act? _ .advance = _ from rfl) nofun rfl
  have told := Run.extend taken (show act? _ .advance = _ from rfl) nofun rfl
  have returned := Run.extend told (show act? _ (.resume (.ok ())) = _ from rfl) nofun rfl
  obtain ⟨run, polled⟩ := Run.extend returned (show act? _ .advance = _ from rfl) nofun rfl
  exact ⟨_, _, fresh, run, polled, interests_time_out_in_time fresh .nil run polled, rfl, rfl, rfl, rfl⟩

end Engine

end NamedData
