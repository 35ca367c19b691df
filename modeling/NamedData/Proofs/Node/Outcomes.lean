import NamedData.Proofs.Lockstep
import NamedData.Proofs.Node.Run

/-!
What callbacks of a node return, and how little depends on it.

A callback acts on the node while it runs, by the operations it starts. What it then returns ends it, and
is logged if it is an error. So a run of a node is the same run whatever its callbacks return, apart from
these log records (`Engine.Run.unaffected`).
-/
namespace NamedData

/-- Whether a log record is about a callback or a predicate that has failed. -/
def Notice.ofFailure : Notice → Bool
  | .callbackFailed .. | .predicateFailed .. => true
  | _ => false

/-- Whether an event is anything but such a log record. -/
def Event.independent {κ : Type} : Event κ → Bool
  | .logged notice => !notice.ofFailure
  | _ => true

/-- Two moves that are the same, apart from what a callback returns. -/
inductive Move.Alike {κ : Type} : Move κ → Move κ → Prop where
  | refl (move : Move κ) : Alike move move
  | resume (result other : CallbackResult) : Alike (.resume result) (.resume other)

namespace Engine

variable {κ τ : Type} {σ : Type → Type}
variable {start e : Engine κ σ τ} {stage other : Stage κ σ τ} {stages past earlier : List (Stage κ σ τ)}

/-- Two stages in which the same is done, apart from what a callback returns. If it is the world around
the node that changes, it changes in the same way. -/
structure Alike (stage other : Stage κ σ τ) : Prop where
  move : stage.move.Alike other.move
  world : stage.move = .drift → other.after.transport = stage.after.transport ∧
    other.after.host = stage.after.host ∧ other.after.node.scheduler = stage.after.node.scheduler

/-- A callback that returns is ended, whatever it returns. -/
theorem resume_ends (e : Engine κ σ τ) (result other : CallbackResult) :
    (e.resume other).1 = (e.resume result).1 := by
  rw [resume.eq_def, resume.eq_def]
  split <;> rfl

/-- Nothing but an error is seen of what a callback returns. -/
theorem resume_independent (e : Engine κ σ τ) (result : CallbackResult) :
    (e.resume result).2.filter Event.independent = [] := by
  rw [resume.eq_def]
  split
  · next call outer frames =>
    cases call with
    | data | timeout | interest | registerFailed | faceDelay => cases result <;> rfl
    | nodeDelay | poll => rfl
  · rfl

variable [Scheduler σ] [Scheduler.Faithful σ]

/-- Two changes of the world around a node that lead to the same world lead to the same node. -/
theorem Drifts.unique {after later : Engine κ σ τ} (drifts : e.Drifts after) (again : e.Drifts later)
    (transport : later.transport = after.transport) (host : later.host = after.host)
    (scheduler : later.node.scheduler = after.node.scheduler) : later = after := by
  have node : later.node = after.node := by rw [again.node, drifts.node, scheduler]
  have frames : later.frames = after.frames := again.frames.trans drifts.frames.symm
  cases later
  cases after
  simp only at node frames transport host
  rw [node, frames, transport, host]

/-- A call that may be run may be run whatever callbacks have returned. -/
theorem Available.of_agree {call : NodeCall κ}
    (agree : List.Forall₂ (Stage.Agrees Event.independent) past earlier)
    (available : start.Available past call) : start.Available earlier call := by
  refine available.imp_right ?_
  rintro ⟨delay, armed⟩
  have kept : .armed delay call ∈ (NamedData.Stage.seen past).filter Event.independent :=
    List.mem_filter.mpr ⟨armed, rfl⟩
  rw [← Stage.Agrees.seen agree] at kept
  exact ⟨delay, (List.mem_filter.mp kept).1⟩

variable [Transport τ]

/-- A step in which a callback returns ends it. -/
theorem Step.resume_eq {after : Engine κ σ τ} {result : CallbackResult} {events : List (Event κ)}
    (step : e.Step (.resume result) events after) :
    e.current?.isSome = true ∧ after = (e.resume result).1 ∧ events = (e.resume result).2 := by
  cases step with
  | act acted =>
    rw [act?] at acted
    split at acted
    · next inside =>
      have same := Option.some.inj acted
      exact ⟨inside, (congrArg Prod.fst same).symm, (congrArg Prod.snd same).symm⟩
    · cases acted

/-- Stages that are alike agree. -/
theorem Step.agrees (step : stage.before.Step stage.move stage.events stage.after)
    (again : other.before.Step other.move other.events other.after)
    (before : other.before = stage.before) (alike : Alike stage other) :
    stage.Agrees Event.independent other := by
  obtain ⟨start, move, events, after⟩ := stage
  obtain ⟨start', move', events', after'⟩ := other
  obtain ⟨same, world⟩ := alike
  change start' = start at before
  change Move.Alike move move' at same
  change start.Step move events after at step
  change start'.Step move' events' after' at again
  subst before
  cases same with
  | refl =>
    cases step with
    | act acted =>
      cases again with
      | act acted' =>
        cases acted.symm.trans acted'
        exact ⟨rfl, rfl, rfl⟩
      | drift => cases acted
    | drift drifts =>
      cases again with
      | act acted => cases acted
      | drift drifts' =>
        obtain ⟨transport, host, scheduler⟩ := world rfl
        exact ⟨rfl, drifts.unique drifts' transport host scheduler, rfl⟩
  | resume result result' =>
    obtain ⟨-, rfl, rfl⟩ := step.resume_eq
    obtain ⟨-, rfl, rfl⟩ := again.resume_eq
    exact ⟨rfl, resume_ends .., (resume_independent ..).trans (resume_independent ..).symm⟩

/-- A stage can be made with any move that is alike. -/
theorem Follows.replace {move : Move κ} (follows : start.Follows past stage)
    (agree : List.Forall₂ (Stage.Agrees Event.independent) past earlier)
    (alike : stage.move.Alike move) :
    ∃ other, other.move = move ∧ start.Follows earlier other ∧
      stage.Agrees Event.independent other := by
  obtain ⟨before, done, events, after⟩ := stage
  obtain ⟨step, given⟩ := follows
  change before.Step done events after at step
  change Move.Alike done move at alike
  cases alike with
  | refl =>
    have available : ∀ call, move = .perform (.run call) → start.Available earlier call :=
      fun call same => (given call same).of_agree agree
    exact ⟨⟨before, move, events, after⟩, rfl, ⟨step, available⟩, rfl, rfl, rfl⟩
  | resume result result' =>
    obtain ⟨inside, rfl, rfl⟩ := step.resume_eq
    have again : before.Step (.resume result') (before.resume result').2 (before.resume result').1 :=
      .act (if_pos inside)
    refine ⟨⟨before, .resume result', _, _⟩, rfl, ⟨again, by simp⟩, rfl, resume_ends .., ?_⟩
    exact (resume_independent ..).trans (resume_independent ..).symm

/-- Whatever its callbacks return, a run of a node is the same run, apart from what is logged about
failures. -/
theorem Run.unaffected (run : start.Run stages e) :
    NamedData.Run.Unaffected start.Follows Event.independent (fun stage move => stage.move.Alike move)
      Alike start stages e where
  agree _ _ other alike := run.agree other alike
    fun _ _ _ _ follows followed => follows.1.agrees followed.1
  replay _ alike := run.replay alike fun _ _ _ _ => Follows.replace

end Engine

end NamedData
