import NamedData.Proofs.Loop.Refinement
import NamedData.Proofs.Node.Outcomes

/-!
What callbacks return, to a node and to a loop.

Of a poll the loop wants to know whether to stop, and a poll that fails has not asked for that. Of any
other callback it wants to know nothing. So a run of a loop and its faces is the same run whatever
callbacks return, as long as the same poll stops it, apart from the log records of what has failed; and so
is a run of a node (`results_are_only_logged`).
-/
namespace NamedData

/-- Whether a poll that yields this stops its loop. -/
def stops : Except CallbackError Bool → Bool
  | .ok answer => answer
  | .error _ => false

/-- Two moves that are the same, apart from what the callback that runs returns. A poll stops the loop in
both or in neither. -/
inductive LoopMove.Alike {κ : Type} (current : Option (Call κ)) : LoopMove κ → LoopMove κ → Prop where
  | refl (move : LoopMove κ) : Alike current move move
  | resume {result other : Except CallbackError Bool}
      (poll : ∀ predicate index, current = some (.poll predicate index) → stops other = stops result) :
      Alike current (.resume result) (.resume other)

namespace EventLoop

variable {κ τ : Type} {l : EventLoop κ τ} {result other : Except CallbackError Bool}

/-- Of what a callback returns, all that matters is whether a poll stops the loop. -/
theorem resume_alike (poll : ∀ predicate index, l.engine.current? = some (.poll predicate index) →
      stops other = stops result) :
    (l.resume other).1 = (l.resume result).1 ∧ (l.resume other).2.2 = (l.resume result).2.2 ∧
      (l.resume other).2.1.filter Event.independent =
        (l.resume result).2.1.filter Event.independent := by
  have ends := Engine.resume_ends l.engine (result.map fun _ => ()) (other.map fun _ => ())
  have silent := Engine.resume_independent l.engine
  cases inside : l.engine.current? with
  | none => simp only [resume, inside, ends, silent, and_self]
  | some call =>
    cases call with
    | data | timeout | interest | registerFailed | nodeDelay | faceDelay =>
      simp only [resume, inside, ends, silent, and_self]
    | poll predicate index =>
      have same := poll predicate index inside
      simp only [resume, inside]
      rcases result with error | (_ | _) <;> rcases other with error' | (_ | _) <;> cases same <;>
        exact ⟨rfl, rfl, rfl⟩

end EventLoop

namespace LoopSystem

variable {κ τ : Type}
variable {s start after later : LoopSystem κ τ} {stage other : Stage κ τ}
variable {stages : List (Stage κ τ)} {move : LoopMove κ} {events seen : List (Event κ)}

/-- Two stages in which the same is done, apart from what a callback returns. If it is the world around
the loop that changes, it changes in the same way. -/
structure Alike (stage other : Stage κ τ) : Prop where
  move : LoopMove.Alike stage.before.loop.engine.current? stage.move other.move
  world : stage.move = .drift →
    other.after.loop.engine.transport = stage.after.loop.engine.transport ∧
      other.after.loop.engine.host = stage.after.loop.engine.host

variable [Transport τ]

/-- What a move leads to is settled, once it is settled how the world changes. -/
theorem Step.unique (step : s.Step move events after) (again : s.Step move seen later)
    (world : move = .drift → later.loop.engine.transport = after.loop.engine.transport ∧
      later.loop.engine.host = after.loop.engine.host) : later = after ∧ seen = events := by
  cases step with
  | queue | lower | announce | leave | turn | resume | perform | pause | destroy =>
    cases again
    exact ⟨rfl, rfl⟩
  | begin parked begun =>
    cases again with
    | begin _ begun' =>
      cases begun.symm.trans begun'
      exact ⟨rfl, rfl⟩
    | overflow _ late => cases begun.symm.trans late
  | overflow parked late =>
    cases again with
    | begin _ begun => cases late.symm.trans begun
    | overflow => exact ⟨rfl, rfl⟩
  | advance running advanced =>
    cases again with
    | advance _ advanced' =>
      cases advanced.symm.trans advanced'
      exact ⟨rfl, rfl⟩
  | drift drifts =>
    cases again with
    | drift drifts' =>
      obtain ⟨transport, host⟩ := world rfl
      simp only [withEngine] at transport host
      subst transport host
      exact ⟨rfl, rfl⟩

/-- A callback may return anything at any time it runs. -/
theorem Step.resume_eq {result : Except CallbackError Bool} (step : s.Step (.resume result) events after) :
    after = s.settle (s.loop.resume result) ∧ events = (s.loop.resume result).2.1 ∧
      ∀ other, s.Step (.resume other) (s.loop.resume other).2.1 (s.settle (s.loop.resume other)) := by
  cases step with
  | resume running inside => exact ⟨rfl, rfl, fun _ => .resume running inside⟩

omit [Transport τ] in
/-- The loop is in the same phase after callbacks that are alike. -/
theorem settle_resume_alike {result other : Except CallbackError Bool}
    (poll : ∀ predicate index, s.loop.engine.current? = some (.poll predicate index) →
      stops other = stops result) :
    s.settle (s.loop.resume other) = s.settle (s.loop.resume result) := by
  obtain ⟨loop, turn, -⟩ := EventLoop.resume_alike poll
  rw [settle, settle, loop, turn]

/-- Stages that are alike agree. -/
theorem Step.agrees (step : stage.before.Step stage.move stage.events stage.after)
    (again : other.before.Step other.move other.events other.after)
    (before : other.before = stage.before) (alike : Alike stage other) :
    stage.Agrees Event.independent other := by
  obtain ⟨start, move, events, after⟩ := stage
  obtain ⟨start', move', events', after'⟩ := other
  obtain ⟨same, world⟩ := alike
  change start' = start at before
  change LoopMove.Alike start.loop.engine.current? move move' at same
  change start.Step move events after at step
  change start'.Step move' events' after' at again
  subst before
  cases same with
  | refl =>
    obtain ⟨rfl, rfl⟩ := step.unique again world
    exact ⟨rfl, rfl, rfl⟩
  | resume poll =>
    obtain ⟨rfl, rfl, -⟩ := step.resume_eq
    obtain ⟨rfl, rfl, -⟩ := again.resume_eq
    exact ⟨rfl, settle_resume_alike poll, (EventLoop.resume_alike poll).2.2⟩

/-- A stage can be made with any move that is alike. -/
theorem Step.replace (step : stage.before.Step stage.move stage.events stage.after)
    (alike : LoopMove.Alike stage.before.loop.engine.current? stage.move move) :
    ∃ other : Stage κ τ, other.move = move ∧
      other.before.Step other.move other.events other.after ∧
      stage.Agrees Event.independent other := by
  obtain ⟨before, made, events, after⟩ := stage
  change before.Step made events after at step
  change LoopMove.Alike before.loop.engine.current? made move at alike
  cases alike with
  | refl => exact ⟨⟨before, move, events, after⟩, rfl, step, rfl, rfl, rfl⟩
  | @resume result other poll =>
    obtain ⟨rfl, rfl, again⟩ := step.resume_eq
    exact ⟨⟨before, .resume other, _, _⟩, rfl, again other, rfl, settle_resume_alike poll,
      (EventLoop.resume_alike poll).2.2⟩

/-- Whatever its callbacks return, a run of a loop and its faces is the same run, as long as the same poll
stops it, apart from what is logged about failures. -/
theorem Run.unaffected (run : start.Run stages s) :
    NamedData.Run.Unaffected (fun _ (stage : Stage κ τ) =>
        stage.before.Step stage.move stage.events stage.after) Event.independent
      (fun stage => LoopMove.Alike stage.before.loop.engine.current? stage.move) Alike start stages
      s where
  agree _ _ other alike := run.agree other alike fun _ _ _ _ => Step.agrees
  replay _ alike := run.replay alike fun _ _ _ _ step _ => step.replace

end LoopSystem

section results

variable {κ τ : Type} {σ : Type → Type} [Scheduler σ] [Scheduler.Faithful σ] [Transport τ]

/-- **Results are only logged.** Two runs of a node in which the same is done, whatever callbacks return,
go through the same states and show the same, apart from the log records of what has failed; and for
every choice of results there is such a run. The same holds of a loop with its faces, if a poll that stops
the loop does so in both runs. -/
theorem results_are_only_logged {node node' : Engine κ σ τ} {nodes : List (Engine.Stage κ σ τ)}
    {start s : LoopSystem κ τ} {stages : List (LoopSystem.Stage κ τ)}
    (alone : node.Run nodes node') (run : start.Run stages s) :
    Run.Unaffected node.Follows Event.independent (fun stage move => stage.move.Alike move)
        Engine.Alike node nodes node' ∧
      Run.Unaffected (fun _ (stage : LoopSystem.Stage κ τ) =>
          stage.before.Step stage.move stage.events stage.after) Event.independent
        (fun stage => LoopMove.Alike stage.before.loop.engine.current? stage.move)
        LoopSystem.Alike start stages s :=
  ⟨alone.unaffected, run.unaffected⟩

end results

/-- An interest is expressed, and the callback that gets the data for it returns something. -/
def resolvedWith (result : CallbackResult) : List (Move Unit) :=
  [.perform (.request (.express .first { name := ⟨[]⟩ } () none)), .perform (.receive []), .advance,
    .resume result]

/-- A callback that gets data fails and the node goes on as if it had not; a poll fails and the loop goes
on as if it had been told to. -/
theorem failing_callbacks_change_nothing :
    ∃ (nodes others : List (Engine.Stage Unit DelayedCalls Sink)) (node : Engine Unit DelayedCalls Sink)
      (stages polls : List (LoopSystem.Stage Unit Sink)) (s : LoopSystem Unit Sink),
      Engine.untouched.Run nodes node ∧ nodes.map (·.move) = resolvedWith (.ok ()) ∧
      Engine.untouched.Run others node ∧
      others.map (·.move) = resolvedWith (.error (.message "refused")) ∧
      LoopSystem.atRest.Run stages s ∧
      (stages.map (·.move)).getLast? = some (.resume (.ok false)) ∧
      LoopSystem.atRest.Run polls s ∧
      (polls.map (·.move)).getLast? = some (.resume (.error (.cause "refused"))) := by
  have own : ∀ call, Move.perform (.run call) ∉ resolvedWith (.ok ()) := by simp [resolvedWith]
  have untouched : Engine.untouched.Run [] Engine.untouched := .start
  obtain ⟨node, alone⟩ := Engine.run_stages untouched own
  have begins : LoopSystem.atRest.Run [] LoopSystem.atRest := .start
  have asked := begins.extend <| show LoopSystem.Step _ (.queue (.stopWhen (some ()))) [] _ from
    .queue (by simp) rfl
  have running := asked.extend (.begin rfl rfl)
  have replaced := running.extend (.turn rfl rfl lawfulPick_takeFirst)
  have processing := replaced.extend (.turn rfl rfl lawfulPick_takeFirst)
  have drained := processing.extend (.advance rfl rfl)
  have processed := drained.extend (.advance rfl rfl)
  have polling := processed.extend (.turn rfl rfl lawfulPick_takeFirst)
  have polled := polling.extend <| show LoopSystem.Step _ (.resume (.ok false)) _ _ from
    .resume rfl rfl
  obtain ⟨freely, patiently⟩ := results_are_only_logged alone polled
  have fails : List.Forall₂ (fun stage move => stage.move.Alike move)
      (Engine.untouched.stages (resolvedWith (.ok ())))
      (resolvedWith (.error (.message "refused"))) :=
    .cons (.refl _) (.cons (.refl _) (.cons (.refl _) (.cons (.resume _ _) .nil)))
  obtain ⟨others, again, failing, -⟩ := freely.replay _ fails
  obtain ⟨polls, anew, repolled, -⟩ := patiently.replay
    [.queue (.stopWhen (some ())), .begin, .turn _, .turn _, .advance, .advance, .turn _,
      .resume (.error (.cause "refused"))]
    (.cons (.refl _) (.cons (.refl _) (.cons (.refl _) (.cons (.refl _) (.cons (.refl _)
      (.cons (.refl _) (.cons (.refl _) (.cons (.resume fun _ _ _ => rfl) .nil))))))))
  exact ⟨_, others, node, _, polls, _, alone, rfl, again, failing, polled, rfl, anew,
    by rw [repolled]; rfl⟩

end NamedData
