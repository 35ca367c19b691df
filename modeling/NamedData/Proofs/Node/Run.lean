import NamedData.Proofs.Run
import NamedData.Node.Engine

/-!
Runs of a node: every order in which its owner, the callbacks that are handed the node, its scheduler
and the world around it can act.

An operation may be started at rest or from inside a callback that was handed the node. Between two
moves of the node anything may change that is not the node's own: the clock, the transport, and what
the other nodes of its host do to the host. Armed calls run when `Scheduler.takeDue` hands them out or
when whoever collected them performs `Operation.run`; that they were armed before is all that is asked.
-/
namespace NamedData

/-- A scheduler that hands out only calls it was given: at whatever time, in whatever order, or
never. Whether clearing it forgets anything is up to it. -/
class Scheduler.Faithful (σ : Type → Type) [Scheduler σ] where
  /-- The scheduler may still hand out this call. -/
  Holds : {α : Type} → σ α → α → Prop
  of_callLater {α : Type} {s s' : σ α} {now : Instant} {delay : Duration} {call other : α} :
    Scheduler.callLater? s now delay call = some s' → Holds s' other → other = call ∨ Holds s other
  of_takeDue {α : Type} {s : σ α} {now : Instant} {call : α} :
    call ∈ (Scheduler.takeDue s now).1 ∨ Holds (Scheduler.takeDue s now).2 call → Holds s call
  of_clear {α : Type} {s : σ α} {call : α} : Holds (Scheduler.clear s) call → Holds s call

instance : Scheduler.Faithful DelayedCalls where
  Holds table call := ∃ delayed ∈ table.calls, delayed.call = call
  of_callLater {α table after now delay call other} armed held := by
    obtain ⟨due, -, rfl⟩ := Option.map_eq_some_iff.mp armed
    obtain ⟨delayed, member, rfl⟩ := held
    simp only [DelayedCalls.callAt, List.mem_append, List.mem_cons] at member
    rcases member with early | rfl | late
    · exact .inr ⟨delayed, (List.takeWhile_sublist _).subset early, rfl⟩
    · exact .inl rfl
    · exact .inr ⟨delayed, (List.dropWhile_sublist _).subset late, rfl⟩
  of_takeDue {α table now call} found := by
    rcases found with due | ⟨delayed, late, rfl⟩
    · obtain ⟨delayed, early, rfl⟩ := List.mem_map.mp due
      exact ⟨delayed, (List.takeWhile_sublist _).subset early, rfl⟩
    · exact ⟨delayed, (List.dropWhile_sublist _).subset late, rfl⟩
  of_clear {α table call} held := by
    obtain ⟨delayed, member, -⟩ := held
    cases member

instance : Scheduler.Faithful Outbox where
  Holds box call := ∃ entry ∈ box.calls, entry.2 = call
  of_callLater {α box after now delay call other} armed held := by
    cases armed
    obtain ⟨entry, member, rfl⟩ := held
    rcases List.mem_append.mp member with old | new
    · exact .inr ⟨entry, old, rfl⟩
    · rw [List.mem_singleton.mp new]
      exact .inl rfl
  of_takeDue found := by
    rcases found with due | held
    · cases due
    · exact held
  of_clear held := held

/-- What can happen to a node. -/
inductive Move (κ : Type) where
  /-- An operation is started. -/
  | perform (operation : Operation κ)
  /-- The next bit of unfinished work is done. -/
  | advance
  /-- The callback on top returns. -/
  | resume (result : CallbackResult)
  /-- The world around the node changes. -/
  | drift

/-- What the rest of a host may do while a node with this table does nothing. Other nodes issue
handles and resolve entries of their own. -/
structure Host.Drifts {κ : Type} (table : PendingTable κ) (before after : Host) : Prop where
  issued : before.marks.next ≤ after.marks.next
  kept : ∀ entry ∈ table.entries,
    after.marks.isRemoved entry.handle = before.marks.isRemoved entry.handle

namespace Engine

variable {κ τ : Type} {σ : Type → Type} [Scheduler σ] [Scheduler.Faithful σ] [Transport τ]

/-- Whether an operation may be started: the node is at rest, or the callback that runs was handed the
node. -/
def accepts (e : Engine κ σ τ) : Bool :=
  match e.frames with
  | [] => true
  | .inside call :: _ => call.handsNode
  | _ => false

/-- What a move of the node itself leads to. -/
def act? (e : Engine κ σ τ) : Move κ → Option (Engine κ σ τ × List (Event κ))
  | .perform operation =>
    if e.accepts then some ((e.perform operation).1, (e.perform operation).2.2) else none
  | .advance => e.advance
  | .resume result => if e.current?.isSome then some (e.resume result) else none
  | .drift => none

/-- What may change about a node that does nothing. Calls may leave its scheduler, for whoever runs
them. -/
structure Drifts (before after : Engine κ σ τ) : Prop where
  frames : after.frames = before.frames
  node : after.node = { before.node with scheduler := after.node.scheduler }
  held : ∀ call, Scheduler.Faithful.Holds after.node.scheduler call →
    Scheduler.Faithful.Holds before.node.scheduler call
  host : before.host.Drifts before.node.pending after.host

/-- One step of a node and the world around it. -/
inductive Step (e : Engine κ σ τ) : Move κ → List (Event κ) → Engine κ σ τ → Prop where
  | act {move : Move κ} {events : List (Event κ)} {after : Engine κ σ τ}
      (done : e.act? move = some (after, events)) : Step e move events after
  | drift {after : Engine κ σ τ} (drifts : e.Drifts after) : Step e .drift [] after

/-- A stage of a node's run. -/
abbrev Stage (κ : Type) (σ : Type → Type) (τ : Type) :=
  NamedData.Stage (Engine κ σ τ) (Move κ) (Event κ)

/-- A call that the scheduler held at first or that has been armed since. -/
def Available (start : Engine κ σ τ) (past : List (Stage κ σ τ)) (call : NodeCall κ) : Prop :=
  Scheduler.Faithful.Holds start.node.scheduler call ∨
    ∃ delay, .armed delay call ∈ NamedData.Stage.seen past

/-- A stage may follow a history if it is a step, and runs no call that was never armed. -/
def Follows (start : Engine κ σ τ) (past : List (Stage κ σ τ)) (stage : Stage κ σ τ) : Prop :=
  stage.before.Step stage.move stage.events stage.after ∧
    ∀ call, stage.move = .perform (.run call) → start.Available past call

/-- The runs of a node. -/
abbrev Run (start : Engine κ σ τ) (stages : List (Stage κ σ τ)) (e : Engine κ σ τ) : Prop :=
  NamedData.Run start.Follows start stages e

/-- A node that has done nothing yet. Calls of the application may be armed already. -/
structure Fresh (e : Engine κ σ τ) : Prop where
  frames : e.frames = []
  pending : e.node.pending.entries = []
  filters : e.node.filters.entries = []
  registrations : e.node.registrations.entries = []
  scheduler : ∀ entry, ¬ Scheduler.Faithful.Holds e.node.scheduler (.timeout entry)

/-- The entry that expressing an interest puts into the table, unless the interest cannot be encoded
or its encoding is too long. -/
def expressed? (e : Engine κ σ τ) (id : EntryId) (interest : Interest) (onData : κ)
    (onTimeout : Option κ) : Option (PendingInterest κ) :=
  let (interest, _, host) := interest.completed e.node.config e.host
  match e.encode (.interest interest) with
  | .ok _ => some { handle := host.marks.next, id, interest, onData, onTimeout }
  | .error _ => none

/-- The entry that a move puts into the table. -/
def makes? (e : Engine κ σ τ) : Move κ → Option (PendingInterest κ)
  | .perform (.request (.express id interest onData onTimeout)) =>
    e.expressed? id interest onData onTimeout
  | _ => none

/-- Carry out moves of the node itself, for as long as it can make them: the stages on the way. -/
def stages (e : Engine κ σ τ) : List (Move κ) → List (Stage κ σ τ)
  | [] => []
  | move :: moves =>
    match e.act? move with
    | none => []
    | some (after, events) => ⟨e, move, events, after⟩ :: after.stages moves

/-- The moves of a node that is given no calls to run make a run. -/
theorem run_stages {start e : Engine κ σ τ} {past : List (Stage κ σ τ)} {moves : List (Move κ)}
    (run : start.Run past e) (own : ∀ call, .perform (.run call) ∉ moves) :
    ∃ after, start.Run (past ++ e.stages moves) after := by
  induction moves generalizing past e with
  | nil => exact ⟨e, by simpa [stages] using run⟩
  | cons move moves ih =>
    rw [stages]
    cases acted : e.act? move with
    | none => exact ⟨e, by simpa using run⟩
    | some result =>
      obtain ⟨next, events⟩ := result
      have step : start.Follows past ⟨e, move, events, next⟩ := by
        refine ⟨.act acted, ?_⟩
        rintro call rfl
        exact absurd List.mem_cons_self (own call)
      have further := ih (.step run step) fun call member => own call (List.mem_cons_of_mem _ member)
      simpa using further

end Engine

end NamedData
