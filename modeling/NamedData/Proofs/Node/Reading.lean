import NamedData.Proofs.Node.Processed

/-!
What a node reads while it processes events.

Only the node itself receives from its transport, and it does so only at the points where it asks for
more. So if nobody else uses the transport meanwhile, the node reads what the transport handed out at
the time it was asked, all of it and in order (`Engine.Processing.read_eq`).
-/
namespace NamedData.Engine

/-- No one but the node uses its transport. -/
def KeepsTransport {κ τ : Type} {σ : Type → Type} (stages : List (Stage κ σ τ)) : Prop :=
  ∀ stage ∈ stages, stage.move = .drift → stage.after.transport = stage.before.transport

variable {κ τ : Type} [Transport τ] {start e s after : Engine κ DelayedCalls τ}
variable {past during : List (Stage κ DelayedCalls τ)} {stage : Stage κ DelayedCalls τ}
variable {arrived : List Data} {calls : List (Call κ)} {times : List Instant}
variable {move : Move κ} {events : List (Event κ)} {elements : List Bytes}

/-- A node whose transport hands out nothing looks at the clock. -/
theorem check?_of_stop {arrival : Except TransportError (Option Bytes)}
    (asked : arrival? stage = some arrival) (stops : ∀ element, arrival ≠ .ok (some element)) :
    element? stage = none ∧ check? stage = some stage.before.host.now := by
  rcases arrival with cause | _ | element
  · simp [element?, check?, asked]
  · simp [element?, check?, asked]
  · exact absurd rfl (stops element)

omit [Transport τ] in
/-- Running a call does not touch the transport. -/
theorem run_transport (e : Engine κ DelayedCalls τ) (call : NodeCall κ) :
    (e.run call).1.transport = e.transport := by
  cases call with
  | callback callback => rfl
  | timeout entry =>
    simp only [run]
    split <;> rfl

/-- A node that asks its transport for more leaves it as it is after that. -/
theorem transport_of_reading {outer : List (Frame κ)} (frames : s.frames = .reading :: outer)
    (advanced : s.advance = some (after, events)) :
    after.transport = (Transport.receive s.transport).2 := by
  obtain ⟨node, transport, host, under⟩ := s
  cases frames
  rcases received : Transport.receive transport with ⟨arrival, transport'⟩
  simp only [advance, received] at advanced
  rcases arrival with cause | _ | element
  · cases advanced
    rfl
  · cases advanced
    rfl
  · have carried := (dispatch_world ⟨node, transport', host, .reading :: outer⟩ element).1
    rwa [show dispatch _ element = (after, events) from Option.some.inj advanced] at carried

/-- While a node processes events, it does not touch its transport except to ask it for more. -/
theorem Phase.transport (phase : Phase e arrived calls times s)
    (busy : e.frames.length < s.frames.length) (acted : s.act? move = some (after, events))
    (unasked : arrival? ⟨s, move, events, after⟩ = none) : after.transport = s.transport := by
  have returns {call : Call κ} {outer : List (Frame κ)} (frames : s.frames = .inside call :: outer)
      (closed : call.handsNode = false) : after.transport = s.transport := by
    rw [(act?_of_inside frames closed acted).2.1]
  obtain ⟨node, transport, host, frames⟩ := s
  cases phase with
  | draining under =>
    cases under with
    | inside => exact returns rfl rfl
    | reading =>
      obtain ⟨rfl, -⟩ := act?_of_work rfl (by simp) acted
      cases unasked
    | offering interest =>
      obtain ⟨rfl, advanced⟩ := act?_of_work rfl (by simp) acted
      cases advanced
      rfl
    | delivering data entries =>
      obtain ⟨rfl, advanced⟩ := act?_of_work rfl (by simp) acted
      cases entries <;> cases advanced <;> rfl
  | @expiring _ _ left under =>
    cases under with
    | inside => exact returns rfl rfl
    | done => exact absurd busy (Nat.lt_irrefl _)
    | running =>
      obtain ⟨rfl, advanced⟩ := act?_of_work rfl (by simp) acted
      cases left with
      | nil =>
        cases advanced
        rfl
      | cons call left =>
        have carried := run_transport ⟨node, transport, host, .running left :: e.frames⟩ call
        rwa [show run _ call = (after, events) from Option.some.inj advanced] at carried

omit [Transport τ] in
/-- A node that asks its transport for more has not looked at the clock yet. -/
theorem Phase.unchecked {outer : List (Frame κ)} (phase : Phase e arrived calls times s)
    (busy : e.frames.length < s.frames.length) (reading : s.frames = .reading :: outer) :
    times = [] := by
  obtain ⟨node, transport, host, frames⟩ := s
  cases reading
  cases phase with
  | draining under node delivered unchecked => exact unchecked
  | expiring under =>
    generalize frames : Frame.reading :: outer = inner at under busy
    cases under with
    | running | inside => cases frames
    | done => exact absurd busy (Nat.lt_irrefl _)

/-- What remains to be read: what the transport hands out, or nothing once the node has looked at the
clock. -/
def Remains (s : Engine κ DelayedCalls τ) (times : List Instant) (rest : List Bytes) : Prop :=
  times = [] ∧ Transport.Yields s.transport rest ∨ times ≠ [] ∧ rest = []

/-- A step reads the next element of what remains, or none. -/
theorem Remains.step {rest : List Bytes} (remains : Remains stage.before times rest)
    (phase : Phase e arrived calls times stage.before)
    (step : stage.before.Step stage.move stage.events stage.after)
    (busy : e.frames.length < stage.before.frames.length)
    (keeps : stage.move = .drift → stage.after.transport = stage.before.transport) :
    ∃ more, rest = (element? stage).toList ++ more ∧
      Remains stage.after (times ++ (check? stage).toList) more := by
  obtain ⟨before, move, events, after⟩ := stage
  cases asked : arrival? ⟨before, move, events, after⟩ with
  | none =>
    have still : after.transport = before.transport := by
      cases step with
      | act acted => exact phase.transport busy acted asked
      | drift => exact keeps rfl
    refine ⟨rest, by simp [element?, asked], ?_⟩
    simpa only [Remains, check?, asked, Option.toList_none, List.append_nil, still] using remains
  | some arrival =>
    obtain ⟨rfl, ⟨outer, reading⟩, rfl⟩ := arrival?_eq_some asked
    cases phase.unchecked busy reading
    have carried : after.transport = (Transport.receive before.transport).2 := by
      cases step with
      | act acted => exact transport_of_reading reading acted
    rcases remains with ⟨-, yields⟩ | ⟨checked, -⟩
    case inr => exact absurd rfl checked
    change Transport.Yields before.transport rest at yields
    generalize before.transport = transport at asked yields carried
    cases yields with
    | nothing stops =>
      obtain ⟨unread, checked⟩ := check?_of_stop asked stops
      exact ⟨[], by simp [unread], .inr ⟨by simp [checked], rfl⟩⟩
    | @element _ later element elements received yields =>
      rw [received] at asked carried
      refine ⟨elements, by simp [element?, asked], .inl ⟨by simp [check?, asked], ?_⟩⟩
      rw [show after.transport = later from carried]
      exact yields

/-- At every point, what was read and what remains is what the transport handed out at first. -/
theorem Run.remains (fresh : start.Fresh) (sorted : start.node.scheduler.Sorted NodeCall.Earlier)
    (kept : KeepsCalls past) (timed : e.Timed) (run : start.Run (past ++ e.asked :: during) s)
    (keeps : KeepsCalls during)
    (busy : ∀ stage ∈ during, e.frames.length < stage.before.frames.length)
    (alone : KeepsTransport during) (harmless : ∀ element, e.Harmless element)
    (yields : Transport.Yields e.transport elements) :
    ∃ rest, elements = read during ++ rest ∧ Remains s (checks during) rest := by
  revert keeps busy alone
  rw [List.append_cons] at run
  apply run.since
  · intro mid begun _ _ _
    rw [begun.of_concat.2.2]
    exact ⟨elements, rfl, .inl ⟨rfl, yields⟩⟩
  · intro during stage earlier follows reached keeps busy alone
    have member := List.mem_append_right during (List.mem_singleton_self stage)
    have before : during ⊆ during ++ [stage] := List.subset_append_left ..
    have keepsBefore : KeepsCalls during := fun other past => keeps other (before past)
    have busyBefore := fun other past => busy other (before past)
    obtain ⟨rest, all, remains⟩ :=
      reached keepsBefore busyBefore fun other past => alone other (before past)
    rw [← List.append_cons] at earlier
    obtain ⟨phase, -⟩ := Run.phase fresh sorted kept timed earlier keepsBefore busyBefore
      fun element _ => harmless element
    obtain ⟨more, next, remains⟩ :=
      remains.step phase follows.1 (busy stage member) (alone stage member)
    refine ⟨more, ?_, ?_⟩
    · rw [all, next, read_concat, List.append_assoc]
    · rw [checks_concat]
      exact remains

/-- **A node reads what its transport handed out when it was asked to process events,** all of it and
in order, as long as nobody else uses the transport. -/
theorem Processing.read_eq (fresh : start.Fresh)
    (sorted : start.node.scheduler.Sorted NodeCall.Earlier) (kept : KeepsCalls past) (timed : e.Timed)
    (processing : start.Processing past e during after) (alone : KeepsTransport during)
    (harmless : ∀ element, e.Harmless element) (yields : Transport.Yields e.transport elements) :
    read during = elements := by
  obtain ⟨now, checked, -⟩ := processing.processed fresh sorted kept timed fun element _ =>
    harmless element
  obtain ⟨rest, all, remains⟩ := Run.remains fresh sorted kept timed processing.run processing.keeps
    processing.busy alone harmless yields
  rcases remains with ⟨unchecked, -⟩ | ⟨-, rfl⟩
  · rw [checked] at unchecked
    cases unchecked
  · rw [all, List.append_nil]

end NamedData.Engine
