import NamedData.Proofs.Node.Processing

/-!
A node that processes events comes to an end.

Left alone, a node does its work bit by bit, and every callback it calls returns (`Engine.Goes`). As
long as the transport hands out finitely many elements, this takes it from the first element to the
last of the calls that are due.
-/
namespace NamedData

/-- A transport hands out some elements, one by one, and then has none or fails. -/
inductive Transport.Yields {τ : Type} [Transport τ] : τ → List Bytes → Prop
  | nothing {transport : τ}
      (stops : ∀ element, (Transport.receive transport).1 ≠ .ok (some element)) :
      Yields transport []
  | element {transport after : τ} {element : Bytes} {elements : List Bytes}
      (received : Transport.receive transport = (.ok (some element), after))
      (rest : Yields after elements) : Yields transport (element :: elements)

namespace Engine

section alone

variable {κ τ : Type} {σ : Type → Type} [Scheduler σ] [Transport τ]
variable {answer : Call κ → CallbackResult} {outer : List (Frame κ)} {s mid after : Engine κ σ τ}
variable {stages others : List (Stage κ σ τ)}

/-- A node goes on alone with what it has begun on top of other work: it does the next bit of it, and
a callback that it has called returns its answer. -/
inductive Goes (answer : Call κ → CallbackResult) (outer : List (Frame κ)) :
    Engine κ σ τ → List (Stage κ σ τ) → Engine κ σ τ → Prop
  | stop (s : Engine κ σ τ) : Goes answer outer s [] s
  | advance {s mid after : Engine κ σ τ} {events : List (Event κ)} {stages : List (Stage κ σ τ)}
      (busy : outer.length < s.frames.length) (advanced : s.advance = some (mid, events))
      (rest : Goes answer outer mid stages after) :
      Goes answer outer s (⟨s, .advance, events, mid⟩ :: stages) after
  | resume {s after : Engine κ σ τ} {call : Call κ} {stages : List (Stage κ σ τ)}
      (busy : outer.length < s.frames.length) (inside : s.current? = some call)
      (rest : Goes answer outer (s.resume (answer call)).1 stages after) :
      Goes answer outer s (⟨s, .resume (answer call), (s.resume (answer call)).2,
        (s.resume (answer call)).1⟩ :: stages) after

namespace Goes

theorem trans (goes : Goes answer outer s stages mid)
    (further : Goes answer outer mid others after) : Goes answer outer s (stages ++ others) after := by
  induction goes with
  | stop => exact further
  | advance busy advanced _ ih => exact .advance busy advanced (ih further)
  | resume busy inside _ ih => exact .resume busy inside (ih further)

/-- What a node does alone continues a run. -/
theorem run [Scheduler.Faithful σ] {start : Engine κ σ τ} {past : List (Stage κ σ τ)}
    (goes : Goes answer outer s stages after) (run : start.Run past s) :
    start.Run (past ++ stages) after := by
  induction goes generalizing past with
  | stop => simpa using run
  | @advance s mid _ events _ busy advanced _ ih =>
    have step : start.Follows past ⟨s, .advance, events, mid⟩ := ⟨.act advanced, by simp⟩
    simpa using ih (.step run step)
  | @resume s _ call _ busy inside _ ih =>
    have step : start.Follows past ⟨s, .resume (answer call), (s.resume (answer call)).2,
        (s.resume (answer call)).1⟩ :=
      ⟨.act (by simp [act?, inside]), by simp⟩
    simpa using ih (.step run step)

/-- A node alone does not get below where it began, and its callbacks return what they answer. -/
theorem mem {stage : Stage κ σ τ} (goes : Goes answer outer s stages after)
    (member : stage ∈ stages) : outer.length < stage.before.frames.length ∧ stage.move ≠ .drift ∧
      ∀ call, stage.before.current? = some call → stage.move = .resume (answer call) := by
  induction goes with
  | stop => cases member
  | @advance s _ _ _ _ busy advanced _ ih =>
    rcases List.mem_cons.mp member with rfl | later
    · refine ⟨busy, by simp, ?_⟩
      intro call inside
      simp only [current?] at inside
      split at inside
      · next under => simp [Engine.advance, under] at advanced
      · cases inside
    · exact ih later
  | resume busy inside _ ih =>
    rcases List.mem_cons.mp member with rfl | later
    · refine ⟨busy, by simp, ?_⟩
      intro call same
      rw [Option.some.inj (inside.symm.trans same)]
    · exact ih later

end Goes

end alone

variable {κ τ : Type} [Transport τ] (answer : Call κ → CallbackResult)
variable {outer : List (Frame κ)} {s : Engine κ DelayedCalls τ}

/-- Data is delivered to one entry after the other. -/
theorem goes_delivering (node : Node κ DelayedCalls) (transport : τ) (host : Host) (data : Data)
    (entries : List (PendingInterest κ)) :
    ∃ stages, Goes answer outer
        ⟨node, transport, host, .delivering data entries :: .reading :: outer⟩ stages
        ⟨node, transport, host, .reading :: outer⟩ ∧
      read stages = [] ∧ checks stages = [] := by
  induction entries with
  | nil => exact ⟨_, .advance (by simp +arith) rfl (.stop _), rfl, rfl⟩
  | cons entry entries ih =>
    obtain ⟨stages, goes, unread, unchecked⟩ := ih
    exact ⟨_, .advance (by simp +arith) rfl (.resume (by simp +arith [push]) rfl goes), unread,
      unchecked⟩

/-- What is left of delivering what was read is done, and the node is back at reading. -/
theorem Draining.goes {left : List (Call κ)} (draining : Draining outer s.frames left) :
    ∃ stages, Goes answer outer s stages { s with frames := .reading :: outer } ∧
      read stages = [] ∧ checks stages = [] := by
  obtain ⟨node, transport, host, frames⟩ := s
  cases draining with
  | reading => exact ⟨[], .stop _, rfl, rfl⟩
  | offering interest => exact ⟨_, .advance (by simp +arith) rfl (.stop _), rfl, rfl⟩
  | delivering data entries => exact goes_delivering answer node transport host data entries
  | inside entry data entries =>
    obtain ⟨stages, goes, unread, unchecked⟩ :=
      goes_delivering answer node transport host data entries
    exact ⟨_, .resume (by simp +arith) rfl goes, unread, unchecked⟩

omit [Transport τ] in
/-- Running a timeout calls back at most once. -/
theorem run_frames (s : Engine κ DelayedCalls τ) (entry : PendingInterest κ) :
    (s.run (.timeout entry)).1.frames = s.frames ∨ ∃ callback,
      (s.run (.timeout entry)).1.frames = .inside (.timeout entry callback) :: s.frames := by
  simp only [run]
  split
  · exact .inr ⟨_, rfl⟩
  · exact .inl rfl

/-- All timeouts that are due are run. -/
theorem goes_running {due : List (NodeCall κ)} (frames : s.frames = .running due :: outer)
    (timeouts : ∀ call ∈ due, ∃ entry, call = .timeout entry) :
    ∃ stages after, Goes answer outer s stages after ∧ after.frames = outer ∧
      read stages = [] ∧ checks stages = [] := by
  induction due generalizing s with
  | nil =>
    obtain ⟨node, transport, host, under⟩ := s
    cases frames
    exact ⟨_, _, .advance (by simp) rfl (.stop _), rfl, rfl, rfl⟩
  | cons call due ih =>
    obtain ⟨node, transport, host, under⟩ := s
    cases frames
    obtain ⟨entry, rfl⟩ := timeouts call List.mem_cons_self
    have later := fun call member => timeouts call (List.mem_cons_of_mem _ member)
    have under := run_frames ⟨node, transport, host, .running due :: outer⟩ entry
    rcases ran : run ⟨node, transport, host, .running due :: outer⟩ (.timeout entry)
      with ⟨⟨node', transport', host', frames'⟩, events⟩
    rw [ran] at under
    rcases under with frames | ⟨callback, frames⟩
    · obtain ⟨stages, after, goes, finished, unread, unchecked⟩ := ih frames later
      exact ⟨_, after, .advance (by simp) (congrArg some ran) goes, finished, unread, unchecked⟩
    · cases frames
      obtain ⟨stages, after, goes, finished, unread, unchecked⟩ :=
        ih (s := ⟨node', transport', host', .running due :: outer⟩) rfl later
      exact ⟨_, after, .advance (by simp) (congrArg some ran) (.resume (by simp +arith) rfl goes),
        finished, unread, unchecked⟩

omit [Transport τ] in
/-- Dispatching an element does not touch the transport or the clock. -/
theorem dispatch_world (s : Engine κ DelayedCalls τ) (element : Bytes) :
    (s.dispatch element).1.transport = s.transport ∧
      (s.dispatch element).1.host.now = s.host.now := by
  simp only [dispatch]
  split <;> exact ⟨rfl, rfl⟩

/-- When nothing more has arrived, a node takes the calls that are due by now and runs them. -/
theorem goes_taking (frames : s.frames = .reading :: outer)
    (stops : ∀ element, (Transport.receive s.transport).1 ≠ .ok (some element))
    (timeouts : ∀ c ∈ s.node.scheduler.calls, ∃ entry, c.call = .timeout entry) :
    ∃ stages after, Goes answer outer s stages after ∧ after.frames = outer ∧
      read stages = [] ∧ checks stages = [s.host.now] := by
  obtain ⟨node, transport, host, under⟩ := s
  cases frames
  have due : ∀ call ∈ (node.scheduler.takeDue host.now).1, ∃ entry, call = .timeout entry := by
    intro call due
    obtain ⟨c, kept, rfl⟩ := DelayedCalls.mem_takeDue due
    exact timeouts c kept
  rcases received : Transport.receive transport with ⟨arrival, transport'⟩
  obtain ⟨stages, after, goes, finished, unread, unchecked⟩ :=
    goes_running (s := ⟨{ node with scheduler := (node.scheduler.takeDue host.now).2 }, transport',
      host, .running (node.scheduler.takeDue host.now).1 :: outer⟩) answer rfl due
  rcases arrival with cause | _ | element
  case ok.some => exact absurd (by rw [received]) (stops element)
  all_goals
    refine ⟨_, after, .advance (by simp) (by simp only [advance, received]; rfl) goes, finished,
      ?_, ?_⟩
    · simpa [read, element?, arrival?, received] using unread
    · simpa [checks, check?, arrival?, received] using unchecked

/-- A node reads all that its transport hands out, and then takes the calls that are due by now and
runs them. -/
theorem goes_reading {transport : τ} {elements : List Bytes}
    (yields : Transport.Yields transport elements) (carries : s.transport = transport)
    (frames : s.frames = .reading :: outer) (harmless : ∀ element ∈ elements, s.Harmless element)
    (timeouts : ∀ c ∈ s.node.scheduler.calls, ∃ entry, c.call = .timeout entry) :
    ∃ stages after, Goes answer outer s stages after ∧ after.frames = outer ∧
      read stages = elements ∧ checks stages = [s.host.now] := by
  induction yields generalizing s with
  | nothing stops => exact goes_taking answer frames (carries ▸ stops) timeouts
  | @element transport later element elements received rest ih =>
    obtain ⟨draining, node, -⟩ := dispatch_harmless (s := { s with transport := later }) frames
      (harmless element List.mem_cons_self)
    obtain ⟨carried, clock⟩ := dispatch_world { s with transport := later } element
    rcases dispatched : dispatch { s with transport := later } element with ⟨next, events⟩
    rw [dispatched] at draining node carried clock
    change next.node = _ at node
    have advanced : s.advance = some (next, events) := by
      rw [advance, frames]
      simp only [carries, received, ← frames]
      exact congrArg some dispatched
    -- One step reads the element and some deliver it; then the node is back where it was.
    have arrived : arrival? ⟨s, .advance, events, next⟩ = some (.ok (some element)) := by
      simp [arrival?, frames, carries, received]
    obtain ⟨stages, goes, unread, unchecked⟩ := draining.goes answer
    obtain ⟨others, after, further, finished, remaining, checked⟩ :=
      ih (s := { next with frames := .reading :: outer }) carried rfl
        (fun other member => by
          simpa [Harmless, node, answered] using harmless other (List.mem_cons_of_mem _ member))
        (by simpa [node, answered] using timeouts)
    refine ⟨_, after, .advance (by simp [frames]) advanced (goes.trans further), finished, ?_, ?_⟩
    · simp only [read] at unread remaining ⊢
      simp [element?, arrived, unread, remaining]
    · simp only [checks] at unchecked checked ⊢
      simpa [check?, arrived, unchecked, checked] using clock

end Engine

end NamedData
