import NamedData.Proofs.Node.Run

/-!
What a node may do next, and what is seen of it.

Most of what a node does is determined by the innermost of what it has begun: a callback that was not handed
the node can only return (`Engine.act?_of_inside`), and anything else that is under way can only be continued
(`Engine.act?_of_work`).
-/
namespace NamedData

/-- The call that an event is. -/
def Event.call? {κ : Type} : Event κ → Option (Call κ)
  | .called call => some call
  | _ => none

/-- The calls into the application. -/
def called {κ : Type} (events : List (Event κ)) : List (Call κ) := events.filterMap Event.call?

/-- Whether an event is a call into the application or a log record. -/
def Event.told {κ : Type} : Event κ → Bool
  | .called _ | .logged _ => true
  | _ => false

/-- Whether nothing of some work is left to do. -/
def Frame.finished {κ : Type} : Frame κ → Bool
  | .running [] | .offering _ [] | .delivering _ [] => true
  | _ => false

@[simp] theorem called_nil {κ : Type} : called ([] : List (Event κ)) = [] := rfl

@[simp] theorem called_append {κ : Type} (events others : List (Event κ)) :
    called (events ++ others) = called events ++ called others :=
  List.filterMap_append

@[simp] theorem called_logged {κ : Type} (notices : List Notice) :
    called (notices.map (Event.logged (κ := κ))) = [] := by
  simp [called, Event.call?]

namespace Engine

section observations

variable {κ τ : Type} {σ : Type → Type} [Transport τ]

/-- What the transport answered when the node asked it for what has arrived. -/
def arrival? (stage : Stage κ σ τ) : Option (Except TransportError (Option Bytes)) :=
  match stage.move, stage.before.frames with
  | .advance, .reading :: _ => some (Transport.receive stage.before.transport).1
  | _, _ => none

theorem arrival?_eq_some {stage : Stage κ σ τ} {arrival : Except TransportError (Option Bytes)}
    (asked : arrival? stage = some arrival) : stage.move = .advance ∧
      (∃ outer, stage.before.frames = .reading :: outer) ∧
      arrival = (Transport.receive stage.before.transport).1 := by
  rw [arrival?] at asked
  split at asked
  · next outer advances reading =>
    exact ⟨advances, ⟨outer, reading⟩, (Option.some.inj asked).symm⟩
  · cases asked

/-- The element that was read. -/
def element? (stage : Stage κ σ τ) : Option Bytes :=
  match arrival? stage with
  | some (.ok element) => element
  | _ => none

theorem element?_eq_some {stage : Stage κ σ τ} {element : Bytes} (found : element? stage = some element) :
    stage.move = .advance ∧ ∃ outer transport, stage.before.frames = .reading :: outer ∧
      Transport.receive stage.before.transport = (.ok (some element), transport) := by
  rw [element?] at found
  split at found
  · next read asked =>
    cases found
    obtain ⟨advances, ⟨outer, frames⟩, answered⟩ := arrival?_eq_some asked
    exact ⟨advances, outer, _, frames, Prod.ext answered.symm rfl⟩
  · cases found

/-- The time at which the node took the calls that were due. -/
def check? (stage : Stage κ σ τ) : Option Instant :=
  match arrival? stage with
  | none | some (.ok (some _)) => none
  | some _ => some stage.before.host.now

/-- The elements that were read, in order. -/
def read (stages : List (Stage κ σ τ)) : List Bytes := stages.filterMap element?

/-- When the node took the calls that were due. -/
def checks (stages : List (Stage κ σ τ)) : List Instant := stages.filterMap check?

theorem read_concat (stages : List (Stage κ σ τ)) (stage : Stage κ σ τ) :
    read (stages ++ [stage]) = read stages ++ (element? stage).toList := by
  rw [read, List.filterMap_append]
  cases found : element? stage <;> simp [read, found]

theorem checks_concat (stages : List (Stage κ σ τ)) (stage : Stage κ σ τ) :
    checks (stages ++ [stage]) = checks stages ++ (check? stage).toList := by
  rw [checks, List.filterMap_append]
  cases found : check? stage <;> simp [checks, found]

end observations

section innermost

variable {κ τ : Type} {σ : Type → Type} [Scheduler σ] [Transport τ] {s after : Engine κ σ τ}
variable {move : Move κ} {events : List (Event κ)}

/-- A callback that was not handed the node can only return. -/
theorem act?_of_inside {call : Call κ} {outer : List (Frame κ)}
    (frames : s.frames = .inside call :: outer) (closed : call.handsNode = false)
    (acted : s.act? move = some (after, events)) :
    (∃ result, move = .resume result) ∧ after = { s with frames := outer } ∧ called events = [] ∧
      ∀ event ∈ events, event.told = true := by
  obtain ⟨node, transport, host, inside⟩ := s
  cases frames
  cases move with
  | perform operation => simp [act?, accepts, closed] at acted
  | advance => cases acted
  | drift => cases acted
  | resume result =>
    cases acted
    refine ⟨⟨result, rfl⟩, rfl, called_logged _, ?_⟩
    simp [Event.told]

/-- Work that is under way can only be continued. -/
theorem act?_of_work {frame : Frame κ} {outer : List (Frame κ)} (frames : s.frames = frame :: outer)
    (work : ∀ call, frame ≠ .inside call) (acted : s.act? move = some (after, events)) :
    move = .advance ∧ s.advance = some (after, events) := by
  obtain ⟨node, transport, host, under⟩ := s
  cases frames
  cases frame with
  | inside call => exact absurd rfl (work call)
  | reading | running | offering | delivering =>
    cases move with
    | advance => exact ⟨rfl, acted⟩
    | perform | resume | drift => cases acted

end innermost

end Engine

end NamedData
