import NamedData.Proofs.Node.Expiry
import NamedData.Proofs.Node.Moves

/-!
Processing events from beginning to end.

A node that processes events first reads all that has arrived, delivering data as it comes, and then
runs the calls that are due. `Engine.Phase` says how far it has come; every step of the node and of
the world around it takes it further (`Engine.Phase.step`).
-/
namespace NamedData

namespace Engine

variable {κ τ : Type}

/-- What is in progress while a node reads what has arrived, and the deliveries that are left of
what it has read. -/
inductive Draining (outer : List (Frame κ)) : List (Frame κ) → List (Call κ) → Prop
  | reading : Draining outer (.reading :: outer) []
  | offering (interest : Interest) : Draining outer (.offering interest [] :: .reading :: outer) []
  | delivering (data : Data) (entries : List (PendingInterest κ)) :
      Draining outer (.delivering data entries :: .reading :: outer) (entries.map (.data · data))
  | inside (entry : PendingInterest κ) (data : Data) (entries : List (PendingInterest κ)) :
      Draining outer (.inside (.data entry data) :: .delivering data entries :: .reading :: outer)
        (entries.map (.data · data))

/-- What is in progress while a node runs the calls that are due, and those that are left. -/
inductive Expiring (outer : List (Frame κ)) : List (Frame κ) → List (NodeCall κ) → Prop
  | running (calls : List (NodeCall κ)) : Expiring outer (.running calls :: outer) calls
  | inside (entry : PendingInterest κ) (callback : κ) (calls : List (NodeCall κ)) :
      Expiring outer (.inside (.timeout entry callback) :: .running calls :: outer) calls
  | done : Expiring outer outer []

variable {e s after : Engine κ DelayedCalls τ} {arrived : List Data} {calls : List (Call κ)}
variable {times : List Instant} {move : Move κ} {events : List (Event κ)}

/-- A node that has taken data to the entries that match it. -/
def answered (e : Engine κ DelayedCalls τ) (arrived : List Data) : Node κ DelayedCalls :=
  { e.node with pending := ⟨unanswered e.node.pending.entries arrived⟩ }

/-- A node that has then taken the calls that are due, and has run some of them. -/
def lapsed (e : Engine κ DelayedCalls τ) (arrived : List Data) (now : Instant)
    (ran : List (NodeCall κ)) : Node κ DelayedCalls :=
  { e.node with
    pending := ⟨(unanswered e.node.pending.entries arrived).filter
      fun entry => !ran.any (NodeCall.times entry.handle)⟩
    scheduler := (e.node.scheduler.takeDue now).2 }

/-- How far a node has come that was asked to process events: it reads what has arrived, or it runs
the calls that were due when it had read everything. -/
inductive Phase (e : Engine κ DelayedCalls τ) (arrived : List Data) (calls : List (Call κ))
    (times : List Instant) (s : Engine κ DelayedCalls τ) : Prop
  | draining {left : List (Call κ)} (frames : Draining e.frames s.frames left)
      (node : s.node = e.answered arrived)
      (delivered : calls ++ left = deliveries e.node.pending.entries arrived)
      (unchecked : times = [])
  | expiring {now : Instant} {ran left : List (NodeCall κ)}
      (frames : Expiring e.frames s.frames left)
      (due : ran ++ left = (e.node.scheduler.takeDue now).1)
      (node : s.node = e.lapsed arrived now ran)
      (told : calls = deliveries e.node.pending.entries arrived ++
        timeouts (expired (unanswered e.node.pending.entries arrived) ran))
      (checked : times = [now])

/-- An element that no filter selects: if it is an interest, it is offered to no one. -/
def Harmless (e : Engine κ DelayedCalls τ) (element : Bytes) : Prop :=
  ∀ interest, e.node.format.decode element = .ok (.interest interest) →
    e.node.filters.matching interest.name = []

theorem answered_nil (e : Engine κ DelayedCalls τ) : e.answered [] = e.node := by
  rw [answered, unanswered_nil]

theorem answered_answered {others : List Data} (node : s.node = e.answered arrived) :
    s.answered others = e.answered (arrived ++ others) := by
  simp only [answered, node, unanswered_unanswered]

variable [Transport τ]

/-- A stage in which the transport was not asked leaves what was read as it was. -/
theorem Phase.unread {stage : Stage κ DelayedCalls τ} (unasked : arrival? stage = none)
    (phase : Phase e arrived (calls ++ called stage.events) times stage.after) :
    Phase e (arrived ++ e.node.format.arrivals (element? stage).toList)
      (calls ++ called stage.events) (times ++ (check? stage).toList) stage.after := by
  simpa only [element?, check?, unasked, WireFormat.arrivals, Option.toList_none,
    List.filterMap_nil, List.append_nil] using phase

omit [Transport τ] in
/-- What has been read is dispatched: data is taken to the entries that match it, and everything
else is without effect. -/
theorem dispatch_harmless {outer : List (Frame κ)} (frames : s.frames = .reading :: outer)
    {element : Bytes} (harmless : s.Harmless element) :
    Draining outer (s.dispatch element).1.frames
        (deliveries s.node.pending.entries (s.node.format.arrivals [element])) ∧
      (s.dispatch element).1.node = s.answered (s.node.format.arrivals [element]) ∧
      called (s.dispatch element).2 = [] ∧
      ∀ event ∈ (s.dispatch element).2, event.told = true := by
  obtain ⟨node, transport, host, under⟩ := s
  cases frames
  simp only [dispatch, PendingTable.extractMatching_eq, answered, WireFormat.arrivals,
    List.filterMap_cons, List.filterMap_nil]
  cases decoded : node.format.decode element with
  | error error =>
    simp only [unanswered_nil, deliveries]
    exact ⟨.reading, trivial, rfl, by simp [Event.told]⟩
  | ok packet =>
    cases packet with
    | interest interest =>
      simp only [harmless interest decoded, unanswered_nil, deliveries]
      exact ⟨.offering interest, rfl, rfl, by simp⟩
    | data data =>
      simp only [deliveries, List.append_nil, unanswered_singleton]
      exact ⟨.delivering data _, rfl, rfl, by simp⟩

/-- A node that asks its transport for more dispatches what it gets, or else takes the calls that are
due. -/
theorem Phase.of_reading (frames : s.frames = .reading :: e.frames)
    (node : s.node = e.answered arrived)
    (delivered : calls = deliveries e.node.pending.entries arrived)
    (advanced : s.advance = some (after, events))
    (harmless : ∀ element ∈ element? ⟨s, .advance, events, after⟩, e.Harmless element) :
    Phase e (arrived ++ e.node.format.arrivals (element? ⟨s, .advance, events, after⟩).toList)
        (calls ++ called events) (check? ⟨s, .advance, events, after⟩).toList after ∧
      ∀ event ∈ events, event.told = true := by
  obtain ⟨before, transport, host, under⟩ := s
  cases frames
  change before = _ at node
  rcases received : Transport.receive transport with ⟨arrival, transport'⟩
  simp only [advance, received] at advanced
  simp only [element?, check?, arrival?, received] at harmless ⊢
  -- Whether there is nothing more or the transport fails makes a difference to the log only.
  have taken : Phase e (arrived ++ []) (calls ++ []) [host.now]
      ⟨{ before with scheduler := (before.scheduler.takeDue host.now).2 }, transport', host,
        .running (before.scheduler.takeDue host.now).1 :: e.frames⟩ := by
    subst node
    have due : [] ++ (e.node.scheduler.takeDue host.now).1 =
      (e.node.scheduler.takeDue host.now).1 := rfl
    refine .expiring (.running _) due ?_ ?_ rfl
    · simp [answered, lapsed]
    · simp [delivered, expired, timeouts]
  rcases arrival with cause | _ | element
  · cases advanced
    exact ⟨taken, by simp [Event.told]⟩
  · cases advanced
    exact ⟨taken, by simp⟩
  · have offers : Harmless ⟨before, transport', host, .reading :: e.frames⟩ element := by
      rw [node]
      exact harmless element rfl
    obtain ⟨draining, resolved, silent, told⟩ := dispatch_harmless rfl offers
    rw [show dispatch _ element = (after, events) from Option.some.inj advanced]
      at draining resolved silent told
    change Phase e (arrived ++ e.node.format.arrivals [element]) (calls ++ called events) []
      after ∧ _
    rw [silent, List.append_nil]
    subst node
    refine ⟨.draining draining ?_ ?_ rfl, told⟩
    · exact resolved.trans (answered_answered rfl)
    · rw [deliveries_append, delivered]
      rfl

/-- While a node reads what has arrived, its next step delivers data, reads on, or takes the calls
that are due. -/
theorem Draining.act {left : List (Call κ)} (draining : Draining e.frames s.frames left)
    (node : s.node = e.answered arrived)
    (delivered : calls ++ left = deliveries e.node.pending.entries arrived)
    (acted : s.act? move = some (after, events))
    (harmless : ∀ element ∈ element? ⟨s, move, events, after⟩, e.Harmless element) :
    Phase e (arrived ++ e.node.format.arrivals (element? ⟨s, move, events, after⟩).toList)
        (calls ++ called events) ([] ++ (check? ⟨s, move, events, after⟩).toList) after ∧
      ∀ event ∈ events, event.told = true := by
  obtain ⟨before, transport, host, frames⟩ := s
  cases draining with
  | reading =>
    obtain ⟨rfl, advanced⟩ := act?_of_work rfl (by simp) acted
    rw [List.append_nil] at delivered
    exact Phase.of_reading rfl node delivered advanced harmless
  | offering interest =>
    obtain ⟨rfl, advanced⟩ := act?_of_work rfl (by simp) acted
    cases advanced
    rw [← List.append_nil calls] at delivered
    exact ⟨.unread rfl (.draining .reading node delivered rfl), by simp⟩
  | delivering data entries =>
    obtain ⟨rfl, advanced⟩ := act?_of_work rfl (by simp) acted
    cases entries with
    | nil =>
      cases advanced
      rw [← List.append_nil calls] at delivered
      exact ⟨.unread rfl (.draining .reading node delivered rfl), by simp⟩
    | cons entry entries =>
      cases advanced
      rw [List.map_cons, List.append_cons] at delivered
      exact ⟨.unread rfl (.draining (.inside entry data entries) node delivered rfl),
        by simp [Event.told]⟩
  | inside entry data entries =>
    obtain ⟨⟨result, rfl⟩, rfl, silent, told⟩ := act?_of_inside rfl rfl acted
    refine ⟨.unread rfl (.draining (.delivering data entries) node ?_ rfl), told⟩
    rw [silent, List.append_nil, delivered]

omit [Transport τ] in
/-- Running the timeout of an entry takes the entry out if it waits, and calls its callback for
timeouts, which is the innermost work then. -/
theorem run_timeout (standing : s.node.pending.Standing s.host.marks) (entry : PendingInterest κ) :
    (s.run (.timeout entry)).1.node = { s.node with pending :=
        ⟨s.node.pending.entries.filter fun other => !(other.handle == entry.handle)⟩ } ∧
      ((s.run (.timeout entry)).2 = [] ∧ (s.run (.timeout entry)).1.frames = s.frames ∧
          timeouts (expired s.node.pending.entries [.timeout entry]) = [] ∨
        ∃ callback, (s.run (.timeout entry)).2 = [.called (.timeout entry callback)] ∧
          (s.run (.timeout entry)).1.frames = .inside (.timeout entry callback) :: s.frames ∧
          timeouts (expired s.node.pending.entries [.timeout entry]) =
            [.timeout entry callback]) := by
  have removed := PendingTable.removeEntry_eq entry.handle standing.distinct standing.unmarked
  simp only [run, removed, expired, List.filterMap_cons, List.filterMap_nil, NodeCall.timesOut?,
    ← PendingTable.holds.eq_def]
  cases held : s.node.pending.holds entry.handle with
  | false => exact ⟨rfl, .inl ⟨rfl, rfl, rfl⟩⟩
  | true =>
    cases given : entry.onTimeout with
    | none => exact ⟨rfl, .inl ⟨rfl, rfl, by simp [timeouts, given]⟩⟩
    | some callback => exact ⟨rfl, .inr ⟨callback, rfl, rfl, by simp [timeouts, given]⟩⟩

omit [Transport τ] in
/-- The next of the timeouts that are due takes out its entry, if that still waits. -/
theorem Phase.of_run {now : Instant} {ran left : List (NodeCall κ)} {entry : PendingInterest κ}
    (timed : e.Timed) (standing : s.node.pending.Standing s.host.marks)
    (frames : s.frames = .running left :: e.frames)
    (due : ran ++ .timeout entry :: left = (e.node.scheduler.takeDue now).1)
    (node : s.node = e.lapsed arrived now ran)
    (told : calls = deliveries e.node.pending.entries arrived ++
      timeouts (expired (unanswered e.node.pending.entries arrived) ran)) :
    Phase e arrived (calls ++ called (s.run (.timeout entry)).2) [now]
        (s.run (.timeout entry)).1 ∧
      ∀ event ∈ (s.run (.timeout entry)).2, event.told = true := by
  -- None of the timeouts before this one was of the same entry, so it finds the entry as they did.
  have next : expired (e.lapsed arrived now ran).pending.entries [.timeout entry] =
      expired (unanswered e.node.pending.entries arrived) [.timeout entry] :=
    timed.expired_next due fun _ => mem_of_unanswered
  obtain ⟨resolved, outcome⟩ := run_timeout standing entry
  have lapses : (s.run (.timeout entry)).1.node = e.lapsed arrived now (ran ++ [.timeout entry]) := by
    rw [resolved, node]
    simp only [lapsed, List.filter_filter, List.any_append, List.any_cons, List.any_nil,
      Bool.or_false, Bool.not_or, NodeCall.times, BEq.comm (a := entry.handle), Bool.and_comm]
  rw [List.append_cons] at due
  rw [node, next, frames] at outcome
  rcases outcome with ⟨silent, under, quiet⟩ | ⟨callback, called, under, late⟩
  · rw [silent]
    refine ⟨.expiring (under ▸ .running left) due lapses ?_ rfl, by simp⟩
    rw [timeouts_expired_append, quiet, told, called_nil, List.append_assoc]
  · rw [called]
    refine ⟨.expiring (under ▸ .inside entry callback left) due lapses ?_ rfl, by simp [Event.told]⟩
    rw [timeouts_expired_append, late, told, List.append_assoc]
    rfl

/-- While a node runs the calls that are due, its next step runs one of them, or is its last. -/
theorem Expiring.act {now : Instant} {ran left : List (NodeCall κ)}
    (expiring : Expiring e.frames s.frames left) (timed : e.Timed)
    (standing : s.node.pending.Standing s.host.marks)
    (busy : e.frames.length < s.frames.length)
    (due : ran ++ left = (e.node.scheduler.takeDue now).1)
    (node : s.node = e.lapsed arrived now ran)
    (told : calls = deliveries e.node.pending.entries arrived ++
      timeouts (expired (unanswered e.node.pending.entries arrived) ran))
    (acted : s.act? move = some (after, events)) :
    Phase e (arrived ++ e.node.format.arrivals (element? ⟨s, move, events, after⟩).toList)
        (calls ++ called events) ([now] ++ (check? ⟨s, move, events, after⟩).toList) after ∧
      ∀ event ∈ events, event.told = true := by
  obtain ⟨before, transport, host, frames⟩ := s
  cases expiring with
  | done => exact absurd busy (Nat.lt_irrefl _)
  | inside entry callback =>
    obtain ⟨⟨result, rfl⟩, rfl, silent, quiet⟩ := act?_of_inside rfl rfl acted
    refine ⟨.unread rfl (.expiring (.running left) due node ?_ rfl), quiet⟩
    rw [silent, List.append_nil, told]
  | running =>
    obtain ⟨rfl, advanced⟩ := act?_of_work rfl (by simp) acted
    cases left with
    | nil =>
      cases advanced
      rw [← List.append_nil calls] at told
      exact ⟨.unread rfl (.expiring .done due node told rfl), by simp⟩
    | cons call left =>
      have taken : call ∈ (e.node.scheduler.takeDue now).1 := by simp [← due]
      obtain ⟨c, kept, rfl⟩ := DelayedCalls.mem_takeDue taken
      obtain ⟨entry, timeout⟩ := timed.timeouts c kept
      rw [timeout] at due advanced
      obtain ⟨phase, quiet⟩ := Phase.of_run (s := ⟨before, transport, host, .running left :: e.frames⟩)
        timed standing rfl due node told
      rw [show run _ (.timeout entry) = (after, events) from Option.some.inj advanced] at phase quiet
      exact ⟨.unread rfl phase, quiet⟩

omit [Transport τ] in
/-- How far a node has come is read off its work in progress and its tables. -/
theorem Phase.congr (phase : Phase e arrived calls times s) (frames : after.frames = s.frames)
    (node : after.node = s.node) : Phase e arrived calls times after := by
  cases phase with
  | draining under resolved delivered unchecked =>
    exact .draining (frames ▸ under) (node.trans resolved) delivered unchecked
  | expiring under due resolved told checked =>
    exact .expiring (frames ▸ under) due (node.trans resolved) told checked

/-- Every step of a node that processes events, and of the world around it, takes the node further,
and all that is seen of it are calls and log records. -/
theorem Phase.step {stage : Stage κ DelayedCalls τ}
    (phase : Phase e arrived calls times stage.before) (timed : e.Timed)
    (standing : stage.before.node.pending.Standing stage.before.host.marks)
    (step : stage.before.Step stage.move stage.events stage.after)
    (busy : e.frames.length < stage.before.frames.length)
    (keeps : stage.move = .drift → stage.after.node.scheduler = stage.before.node.scheduler)
    (harmless : ∀ element ∈ element? stage, e.Harmless element) :
    Phase e (arrived ++ e.node.format.arrivals (element? stage).toList)
        (calls ++ called stage.events) (times ++ (check? stage).toList) stage.after ∧
      ∀ event ∈ stage.events, event.told = true := by
  obtain ⟨before, move, events, after⟩ := stage
  cases step with
  | drift drifts =>
    have node := drifts.node
    rw [keeps rfl] at node
    rw [← List.append_nil calls] at phase
    exact ⟨.unread rfl (phase.congr drifts.frames node), by simp⟩
  | act acted =>
    cases phase with
    | draining under node delivered unchecked =>
      subst unchecked
      exact under.act node delivered acted harmless
    | expiring under due node told checked =>
      subst checked
      exact under.act timed standing busy due node told acted

omit [Transport τ] in
/-- When nothing of what it has begun is left, a node has run all calls that were due. -/
theorem Phase.complete (phase : Phase e arrived calls times s) (finished : s.frames = e.frames) :
    ∃ now, times = [now] ∧
      calls = deliveries e.node.pending.entries arrived ++ timeouts
        (expired (unanswered e.node.pending.entries arrived) (e.node.scheduler.takeDue now).1) ∧
      s.node = e.lapsed arrived now (e.node.scheduler.takeDue now).1 := by
  cases phase with
  | draining under =>
    rw [finished] at under
    generalize e.frames = outer at under
    cases under
  | @expiring now ran left under due node told checked =>
    rw [finished] at under
    generalize e.frames = outer at under
    cases under
    rw [List.append_nil] at due
    exact ⟨now, checked, due ▸ told, due ▸ node⟩

end Engine

end NamedData
