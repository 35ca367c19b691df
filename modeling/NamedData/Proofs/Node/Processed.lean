import NamedData.Proofs.Node.Completion

/-!
What a node has done once it has processed events.

Everything that waits on the transport is read first, and data is delivered as it comes; only then
do entries time out. So an entry that some data matches never times out, however late the data is
read (`Engine.data_goes_before_timeouts`).
-/
namespace NamedData.Engine

variable {κ τ : Type} [Transport τ] {start e s after : Engine κ DelayedCalls τ}
variable {past during : List (Stage κ DelayedCalls τ)} {events : List (Event κ)}
variable {arrived : List Data} {now : Instant} {calls : List (Call κ)} {times : List Instant}

/-- The calls that an entry gets when some data is read before the node looks at the deadlines. -/
def fate (e : Engine κ DelayedCalls τ) (arrived : List Data) (now : Instant)
    (entry : PendingInterest κ) : List (Call κ) :=
  match entry.answer? arrived with
  | some data => [.data entry data]
  | none => if e.overdue now entry then timeouts [entry] else []

/-- The stage in which a node is asked to process events. -/
def asked (e : Engine κ DelayedCalls τ) : Stage κ DelayedCalls τ :=
  ⟨e, .perform .processEvents, [], e.push .reading⟩

/-- Some stages of a run take a node from being asked to process events to having done so. -/
structure Processing (start : Engine κ DelayedCalls τ) (past : List (Stage κ DelayedCalls τ))
    (e : Engine κ DelayedCalls τ) (during : List (Stage κ DelayedCalls τ))
    (after : Engine κ DelayedCalls τ) : Prop where
  run : start.Run (past ++ e.asked :: during) after
  keeps : KeepsCalls during
  busy : ∀ stage ∈ during, e.frames.length < stage.before.frames.length
  finished : after.frames = e.frames

/-- A node has delivered the data that arrived, then told the entries whose lifetime was over by
some time, and has done nothing else. -/
structure Processed (e : Engine κ DelayedCalls τ) (arrived : List Data) (now : Instant)
    (events : List (Event κ)) (after : Engine κ DelayedCalls τ) : Prop where
  calls : ∃ late, called events = deliveries e.node.pending.entries arrived ++ timeouts late ∧
    late.Pairwise e.TimesOutBefore ∧
    late.Perm ((unanswered e.node.pending.entries arrived).filter (e.overdue now))
  each : ∀ entry ∈ e.node.pending.entries,
    (called events).filter (Call.resolves entry.handle) = e.fate arrived now entry
  only : ∀ event ∈ events, event.told = true
  node : after.node = { e.node with
    pending := ⟨(unanswered e.node.pending.entries arrived).filter fun entry =>
      !e.overdue now entry⟩
    scheduler := ⟨e.node.scheduler.calls.filter fun c => !decide (c.due ≤ now)⟩ }

/-- How far a node has come at any point while it processes events. -/
theorem Run.phase (fresh : start.Fresh) (sorted : start.node.scheduler.Sorted NodeCall.Earlier)
    (kept : KeepsCalls past) (timed : e.Timed)
    (run : start.Run (past ++ e.asked :: during) s)
    (keeps : KeepsCalls during)
    (busy : ∀ stage ∈ during, e.frames.length < stage.before.frames.length)
    (harmless : ∀ element ∈ read during, e.Harmless element) :
    Phase e (e.node.format.arrivals (read during)) (called (Stage.seen during)) (checks during) s ∧
      ∀ event ∈ Stage.seen during, event.told = true := by
  revert keeps busy harmless
  rw [List.append_cons] at run
  apply run.since
  · intro mid begun _ _ _
    rw [begun.of_concat.2.2]
    exact ⟨.draining .reading (answered_nil e).symm rfl rfl, by simp [Stage.seen]⟩
  · intro during stage earlier follows reached keeps busy harmless
    have member := List.mem_append_right during (List.mem_singleton_self stage)
    rw [read_concat] at harmless
    obtain ⟨phase, told⟩ := reached
      (fun other before => keeps other (List.mem_append_left _ before))
      (fun other before => busy other (List.mem_append_left _ before))
      (fun element before => harmless element (List.mem_append_left _ before))
    -- The table is in order at every point of the run, not only when the node was asked.
    have steady : stage.before.Steady := by
      apply Run.steady fresh sorted earlier
      intro other before
      rcases List.mem_append.mp before with before | later
      · rcases List.mem_append.mp before with before | begin
        · exact kept other before
        · rw [List.mem_singleton.mp begin]
          intro drifts
          cases drifts
      · exact keeps other (List.mem_append_left _ later)
    obtain ⟨further, quiet⟩ := phase.step timed steady.standing follows.1
      (busy stage member) (keeps stage member)
      (fun element read => harmless element (List.mem_append_right _ (Option.mem_toList.mpr read)))
    rw [read_concat, checks_concat, Stage.seen_concat, called_append, WireFormat.arrivals_append]
    refine ⟨further, ?_⟩
    intro event seen
    rcases List.mem_append.mp seen with before | now
    · exact told event before
    · exact quiet event now

omit [Transport τ] in
/-- What becomes of an entry: it gets the first data that matches it, or times out if its lifetime
is over, or else nothing happens to it. -/
theorem filter_resolves {entry : PendingInterest κ} {late : List (PendingInterest κ)}
    (distinct : (e.node.pending.entries.map (·.handle)).Nodup)
    (waits : entry ∈ e.node.pending.entries)
    (due : late.Perm ((unanswered e.node.pending.entries arrived).filter (e.overdue now))) :
    (deliveries e.node.pending.entries arrived ++ timeouts late).filter
      (Call.resolves entry.handle) = e.fate arrived now entry := by
  have found : (late.filter fun other => other.handle == entry.handle).Perm
      (([entry].filter fun other => (other.answer? arrived).isNone).filter (e.overdue now)) := by
    rw [← PendingTable.filter_handle distinct waits,
      List.filter_comm (fun other => Option.isNone _), List.filter_comm (e.overdue now)]
    exact due.filter _
  rw [List.filter_append, filter_deliveries distinct waits, filter_timeouts, fate]
  cases answered : entry.answer? arrived with
  | some data =>
    have none : late.filter (fun other => other.handle == entry.handle) = [] := by
      simpa [answered] using found
    simp [none, timeouts]
  | none =>
    cases lapsed : e.overdue now entry with
    | false =>
      have none : late.filter (fun other => other.handle == entry.handle) = [] := by
        simpa [answered, lapsed] using found
      simp [none, timeouts]
    | true =>
      have told : late.filter (fun other => other.handle == entry.handle) = [entry] := by
        simpa [answered, lapsed] using found
      simp [told]

/-- A node that is done with processing events has resolved what there was to resolve. -/
theorem Processing.processed (fresh : start.Fresh)
    (sorted : start.node.scheduler.Sorted NodeCall.Earlier) (kept : KeepsCalls past)
    (timed : e.Timed) (processing : start.Processing past e during after)
    (harmless : ∀ element ∈ read during, e.Harmless element) :
    ∃ now, checks during = [now] ∧
      e.Processed (e.node.format.arrivals (read during)) now (Stage.seen during) after := by
  obtain ⟨run, keeps, busy, finished⟩ := processing
  have before : start.Run past e := run.at_stage.1
  have steady := Run.steady fresh sorted before kept
  have own := Run.own_timeouts fresh before
  obtain ⟨phase, only⟩ := Run.phase fresh sorted kept timed run keeps busy harmless
  obtain ⟨now, checked, told, node⟩ := phase.complete finished
  generalize e.node.format.arrivals (read during) = arrived at told node ⊢
  have part : ∀ entry ∈ unanswered e.node.pending.entries arrived, entry ∈ e.node.pending.entries :=
    fun _ => mem_of_unanswered
  have distinct : ((unanswered e.node.pending.entries arrived).map (·.handle)).Nodup :=
    steady.standing.distinct.sublist (List.filter_sublist.map _)
  have due : List.Perm _ (List.filter (e.overdue now) _) :=
    timed.expired_perm own part steady distinct
  refine ⟨now, checked, ⟨_, told, timed.expired_pairwise own part steady, due⟩, ?_, only, ?_⟩
  · intro entry waits
    rw [told]
    exact filter_resolves steady.standing.distinct waits due
  · have left : (unanswered e.node.pending.entries arrived).filter (fun entry =>
          !(e.node.scheduler.takeDue now).1.any (NodeCall.times entry.handle)) =
        (unanswered e.node.pending.entries arrived).filter fun entry => !e.overdue now entry := by
      apply List.filter_congr
      intro entry member
      rw [timed.any_due steady (part entry member)]
    rw [node, lapsed, left, steady.sorted.takeDue_eq]

/-- A node when the clock shows some time. -/
def atTime (e : Engine κ DelayedCalls τ) (now : Instant) : Engine κ DelayedCalls τ :=
  { e with host := { e.host with now } }

/-- A node that is asked to process events comes to be done, whatever its transport hands out,
whatever the clock shows then, and whatever the callbacks return. -/
theorem exists_processing (run : start.Run past e) (accepts : e.accepts = true) (timed : e.Timed)
    {elements : List Bytes} (yields : Transport.Yields e.transport elements)
    (harmless : ∀ element ∈ elements, e.Harmless element) (now : Instant)
    (answer : Call κ → CallbackResult) :
    ∃ during after, start.Processing past e during after ∧ read during = elements ∧
      checks during = [now] ∧ ∀ stage ∈ during, ∀ call, stage.before.current? = some call →
        stage.move = .resume (answer call) := by
  obtain ⟨stages, after, goes, finished, unread, checked⟩ :=
    goes_reading (s := (e.push .reading).atTime now) answer yields rfl rfl harmless timed.timeouts
  have asks : start.Follows past e.asked := ⟨.act (if_pos accepts), fun call same => by cases same⟩
  have waits : start.Follows (past ++ [e.asked])
      ⟨e.push .reading, .drift, [], (e.push .reading).atTime now⟩ :=
    ⟨.drift ⟨rfl, rfl, fun _ held => held, ⟨Nat.le_refl _, fun _ _ => rfl⟩⟩, by simp⟩
  refine ⟨⟨e.push .reading, .drift, [], (e.push .reading).atTime now⟩ :: stages, after,
    ⟨?_, ?_, ?_, finished⟩, unread, checked, ?_⟩
  · simpa using goes.run (.step (.step run asks) waits)
  · intro stage member drifts
    rcases List.mem_cons.mp member with rfl | later
    · rfl
    · exact absurd drifts (goes.mem later).2.1
  · intro stage member
    rcases List.mem_cons.mp member with rfl | later
    · exact Nat.lt_succ_self _
    · exact (goes.mem later).1
  · intro stage member call inside
    rcases List.mem_cons.mp member with rfl | later
    · cases inside
    · exact (goes.mem later).2.2 call inside

/-- A node that has nothing to do, at the end of a link on which one element waits. -/
def linked : Engine Unit DelayedCalls LinkEnd where
  node := untouched.node
  transport := { link := { rightLane := { queue := [[]] } } }
  host := untouched.host

/-- The operation that expresses an interest whose lifetime is over at once. -/
def expressBriefly (name : Name) : Operation Unit :=
  .request (.express .first { name, lifetime := some .zero } () (some ()))

/-- The entry of such an interest. -/
def briefEntry (handle : Nat) (name : Name) : PendingInterest Unit :=
  ⟨handle, .first, { name, lifetime := some .zero, nonce := some 0 }, (), some ()⟩

/-- The node has expressed two such interests, and the data that waits matches only the first. -/
def overtaken : Engine Unit DelayedCalls LinkEnd :=
  ((linked.perform (expressBriefly ⟨[]⟩)).1.perform (expressBriefly ⟨[⟨[1]⟩]⟩)).1

end NamedData.Engine
