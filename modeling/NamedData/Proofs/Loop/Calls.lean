import NamedData.Proofs.Loop.Timers

/-!
The calls of its node that a loop is to run.

From the moment its node arms a call, a loop keeps it: on its way from the node at first, and with a timer
of its own after that. So the calls that are run in the course of a run and those that are kept at the end
are those that were kept at first and those that were armed (`LoopSystem.Run.calls_kept`).
-/
namespace NamedData

variable {κ τ : Type}

/-- The call of the node that a task is. -/
def Task.call? : Task κ → Option (NodeCall κ)
  | .node call => some call
  | _ => none

namespace Backlog

/-- The calls that are on their way from the node or wait for a timer. -/
def calls (b : Backlog κ) : Multiset (NodeCall κ) :=
  ↑(b.boxed.map (·.2)) + ↑(b.timers.filterMap (·.task.call?))

variable {b after : Backlog κ} {given : List (Errand κ)} {runs : List (Task κ × Instant)}

/-- A call that is given to a loop is run by it, or kept. -/
theorem Step.calls (step : b.Step given runs after) :
    ↑(runs.filterMap (·.1.call?)) + after.calls = b.calls + ↑(given.filterMap (·.task.call?)) := by
  have nothing : (([] : List (NodeCall κ)) : Multiset (NodeCall κ)) = 0 := rfl
  have one : ∀ call : NodeCall κ, (([call] : List (NodeCall κ)) : Multiset (NodeCall κ)) = {call} :=
    fun _ => rfl
  have first : ∀ (call : NodeCall κ) (calls : List (NodeCall κ)),
      ((call :: calls : List (NodeCall κ)) : Multiset (NodeCall κ)) = {call} + ↑calls := fun _ _ => rfl
  cases step with
  | hand | wait | lose =>
    simp only [Backlog.calls, List.filterMap_nil, List.filterMap_cons, Task.call?, nothing]
    abel
  | post delay call =>
    simp only [Backlog.calls, List.map_append, List.map_cons, List.map_nil, List.filterMap_nil,
      List.filterMap_cons, Task.call?, ← Multiset.coe_add, nothing, one]
    abel
  | armCall front shown =>
    simp only [Backlog.calls, front, List.map_cons, List.filterMap_append, List.filterMap_nil,
      List.filterMap_cons, Task.call?, ← Multiset.coe_add, nothing, one, first]
    abel
  | armCallback front shown =>
    simp only [Backlog.calls, List.filterMap_append, List.filterMap_nil, List.filterMap_cons,
      Task.call?, ← Multiset.coe_add, nothing]
    abel
  | @fire timer rest perm due =>
    have before : ((timer :: rest).filterMap (·.task.call?) : Multiset (NodeCall κ)) =
        ↑(b.timers.filterMap (·.task.call?)) := Multiset.coe_eq_coe.mpr (perm.filterMap _)
    have taken : ((timer :: rest).filterMap (·.task.call?) : Multiset (NodeCall κ)) =
        ↑([(timer.task, b.now)].filterMap (·.1.call?)) + ↑(rest.filterMap (·.task.call?)) := by
      rw [Multiset.coe_add]
      cases named : timer.task.call? <;> simp [named]
    simp only [Backlog.calls, ← before, taken, List.filterMap_nil, nothing]
    abel
  | shuffle perm =>
    have same := Multiset.coe_eq_coe.mpr (perm.filterMap (·.task.call?))
    simp only [Backlog.calls, same, List.filterMap_nil, nothing]
    abel

theorem Steps.calls (steps : b.Steps given runs after) :
    ↑(runs.filterMap (·.1.call?)) + after.calls = b.calls + ↑(given.filterMap (·.task.call?)) := by
  induction steps with
  | refl => exact add_comm 0 b.calls
  | @step mid after given new runs fired _ step ih =>
    have last := step.calls
    simp only [List.filterMap_append, ← Multiset.coe_add]
    calc ↑(runs.filterMap (·.1.call?)) + ↑(fired.filterMap (·.1.call?)) + after.calls
        = ↑(runs.filterMap (·.1.call?)) + (↑(fired.filterMap (·.1.call?)) + after.calls) :=
          add_assoc _ _ _
      _ = ↑(runs.filterMap (·.1.call?)) + mid.calls + ↑(new.filterMap (·.task.call?)) := by
          rw [last, add_assoc]
      _ = b.calls + (↑(given.filterMap (·.task.call?)) + ↑(new.filterMap (·.task.call?))) := by
          rw [ih, add_assoc]

end Backlog

/-- The calls that a node arms. -/
def arms (events : List (Event κ)) : List (NodeCall κ) := (events.filterMap Event.arming?).map (·.2)

@[simp] theorem arms_append (events others : List (Event κ)) :
    arms (events ++ others) = arms events ++ arms others := by
  rw [arms, List.filterMap_append, List.map_append]
  rfl

theorem mem_arms {events : List (Event κ)} {call : NodeCall κ} :
    call ∈ arms events ↔ ∃ delay, .armed delay call ∈ events := by
  simp only [arms, List.mem_map, List.mem_filterMap, Prod.exists]
  constructor
  · rintro ⟨delay, _, ⟨event, member, arming⟩, rfl⟩
    cases event with
    | armed =>
      cases arming
      exact ⟨delay, member⟩
    | called | logged | sent | registering | closed | answered => cases arming
  · rintro ⟨delay, member⟩
    exact ⟨delay, call, ⟨_, member, rfl⟩, rfl⟩

/-- What a node is seen to arm is given to its loop. -/
theorem calls_armings (events : List (Event κ)) (now : Instant) :
    (armings events now).filterMap (·.task.call?) = arms events := by
  rw [armings, List.filterMap_map, arms, ← List.filterMap_eq_map]
  rfl

/-- The calls that a loop keeps for its node. -/
def EventLoop.calls (l : EventLoop κ τ) : Multiset (NodeCall κ) :=
  ↑(l.engine.node.scheduler.calls.map (·.2)) + ↑(l.timers.filterMap (·.task.call?))

theorem EventLoop.mem_calls {l : EventLoop κ τ} {call : NodeCall κ} :
    call ∈ l.calls ↔ (∃ delay, (delay, call) ∈ l.engine.node.scheduler.calls) ∨
      ∃ timer ∈ l.timers, timer.task = .node call := by
  have timed : ∀ task : Task κ, task.call? = some call ↔ task = .node call := by
    intro task
    cases task <;> simp [Task.call?]
  simp [calls, timed]

theorem EventLoop.calls_backlog (l : EventLoop κ τ) (dead : Bool) : (l.backlog dead).calls = l.calls := by
  have others : ∀ timers : List (Timer κ), (timers.filter (·.task.isErrand)).filterMap (·.task.call?) =
      timers.filterMap (·.task.call?) := by
    intro timers
    rw [← List.filterMap_eq_filter, List.filterMap_filterMap]
    congr 1
    funext timer
    cases named : timer.task <;> simp [named, Task.isErrand, Task.service?, Task.call?, Option.guard]
  rw [backlog, Backlog.calls, others]
  rfl

/-- Calls that are collected are kept with timers. -/
theorem EventLoop.calls_of_armNodeCalls? {l after : EventLoop κ τ} (armed : l.armNodeCalls? = some after) :
    after.calls = l.calls := by
  have steps : (l.backlog false).Steps [] [] (after.backlog false) := steps_of_armNodeCalls? armed
  have kept := steps.calls
  rw [calls_backlog, calls_backlog] at kept
  change 0 + after.calls = l.calls + 0 at kept
  rwa [zero_add, add_zero] at kept

namespace LoopSystem

/-- The calls that a loop keeps for its node. -/
def calls (s : LoopSystem κ τ) : Multiset (NodeCall κ) := s.loop.calls

theorem calls_backlog (s : LoopSystem κ τ) : s.backlog.calls = s.calls := s.loop.calls_backlog _

variable [Transport τ] {start s : LoopSystem κ τ} {stage : Stage κ τ} {past future : List (Stage κ τ)}
variable {config : FaceConfig} {format : WireFormat} {transport : τ} {host : Host}

/-- The calls of its node that a loop runs in some stages. -/
def ran (stages : List (Stage κ τ)) : List (NodeCall κ) :=
  stages.filterMap fun stage => (errand? stage).bind Task.call?

omit [Transport τ] in
/-- In a stage of a loop a call of its node is run, or kept. -/
theorem Handles.calls_kept (handles : Handles stage) :
    ↑(ran [stage]) + stage.after.calls = stage.before.calls + ↑(arms stage.events) := by
  have steps := handles.steps.calls
  have faces : ∀ waits : List (Duration × κ), (waits.map fun w =>
      (⟨.callback w.2, stage.before.now, w.1⟩ : Errand κ)).filterMap (·.task.call?) = [] := by
    intro waits
    simp [Task.call?]
  have same : (invoked stage).filterMap (·.1.call?) = ran [stage] := by
    cases errand : errand? stage <;> simp [invoked, ran, errand, List.filterMap_cons]
  rw [calls_backlog, calls_backlog, same, given, List.filterMap_append, faces, List.nil_append,
    calls_armings] at steps
  exact steps

/-- A loop leads its errands on in every stage of a run. -/
theorem Run.handles (opened : open? config format transport host = some start)
    (run : start.Run (past ++ stage :: future) s) (clock : Forward (past ++ stage :: future)) :
    Handles stage := by
  obtain ⟨upTo, step⟩ := run.at_stage
  have diligent := Run.diligent opened upTo fun other member =>
    clock other (List.mem_append_left _ member)
  exact Step.handles step diligent.idle (clock stage (by simp))

/-- Whatever happens from some point of a run on, the calls that are run and those that are kept are those
that were kept then and those that have been armed since. -/
theorem Run.calls_kept (opened : open? config format transport host = some start)
    (run : start.Run (past ++ future) s) (clock : Forward (past ++ future)) :
    ∃ mid, start.Run past mid ∧ ↑(ran future) + s.calls = mid.calls + ↑(arms (Stage.seen future)) := by
  revert clock
  apply run.since
  · intro mid upTo _
    exact ⟨mid, upTo, add_comm 0 mid.calls⟩
  · intro later next upTo step before clock
    obtain ⟨mid, first, kept⟩ := before fun other member => clock other (by simp at member ⊢; tauto)
    refine ⟨mid, first, ?_⟩
    have whole : Forward ((past ++ later) ++ [next]) := by simpa using clock
    have last := (Run.handles opened (Run.extend upTo step) whole).calls_kept
    have parts : ran (later ++ [next]) = ran later ++ ran [next] := List.filterMap_append
    rw [Stage.seen_concat, arms_append, parts, ← Multiset.coe_add, ← Multiset.coe_add]
    calc ↑(ran later) + ↑(ran [next]) + next.after.calls
        = ↑(ran later) + (↑(ran [next]) + next.after.calls) := add_assoc _ _ _
      _ = ↑(ran later) + next.before.calls + ↑(arms next.events) := by rw [last, add_assoc]
      _ = mid.calls + (↑(arms (Stage.seen later)) + ↑(arms next.events)) := by rw [kept, add_assoc]

end LoopSystem

end NamedData
