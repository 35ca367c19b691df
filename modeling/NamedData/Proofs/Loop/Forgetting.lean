import NamedData.Proofs.Loop.Calls
import NamedData.Proofs.Node.Coverage
import NamedData.Proofs.Node.Forgetting

/-!
The delayed calls of the application that the node of a loop still makes.

A loop forgets none of them: those it makes in the course of a run and those it keeps at the end are those
it kept at first and those that were armed (`LoopSystem.delayed_kept`), whether or not the node is shut
down meanwhile. A polled node forgets at least those it had not taken
(`shutdown_forgets_what_is_not_taken`).
-/
namespace NamedData

variable {κ τ : Type}

theorem filterMap_callback? (calls : List (NodeCall κ)) :
    Multiset.filterMap NodeCall.callback? ↑calls = callbacks calls := rfl

/-- What a node arms for the application. -/
theorem callbacks_arms (events : List (Event κ)) : callbacks (arms events) = deferred events := by
  rw [deferred, callbacks, arms, ← List.filterMap_eq_map, List.filterMap_filterMap,
    List.filterMap_filterMap]
  congr 2
  funext event
  cases event <;> rfl

/-- The application is called for a delayed call of the node when that is run, and only then. -/
theorem Told.delayed {run : Option (Task κ)} {events : List (Event κ)} (told : Told run events) :
    delayed events = callbacks (run.toList.filterMap Task.call?) := by
  have seen : events.filterMap Event.delayed? =
      ((events.filterMap Event.task?).filterMap Task.call?).filterMap NodeCall.callback? := by
    rw [List.filterMap_filterMap, List.filterMap_filterMap]
    congr 1
    funext event
    cases event with
    | called call => cases call <;> rfl
    | logged | sent | registering | closed | armed | answered => rfl
  rw [NamedData.delayed, seen]
  by_cases late : ∃ entry, run = some (.node (.timeout entry))
  · -- A timeout may be told of or not, and is in neither case a call of the application's own.
    obtain ⟨entry, rfl⟩ := late
    obtain none | one := List.sublist_singleton.mp told.only
    · rw [none]
      rfl
    · rw [one]
      rfl
  · rw [told.each fun entry timeout => late ⟨entry, timeout⟩]
    rfl

namespace LoopSystem

/-- The delayed calls of the application that a loop keeps for its node. -/
def kept (s : LoopSystem κ τ) : Multiset κ := s.calls.filterMap NodeCall.callback?

variable [Transport τ] {s : LoopSystem κ τ} {stage : Stage κ τ} {future : List (Stage κ τ)}

omit [Transport τ] in
/-- The delayed calls of the application that are made are those of the calls that are run. -/
theorem delayed_seen (told : ∀ stage ∈ future, Told (errand? stage) stage.events) :
    delayed (Stage.seen future) = callbacks (ran future) := by
  induction future with
  | nil => rfl
  | cons stage rest ih =>
    have first := (told stage List.mem_cons_self).delayed
    have parts : ran (stage :: rest) = (errand? stage).toList.filterMap Task.call? ++ ran rest := by
      cases errand : errand? stage <;> simp [ran, errand, List.filterMap_cons]
      split <;> rfl
    change delayed (stage.events ++ Stage.seen rest) = _
    rw [delayed_append, first, parts, callbacks_append,
      ih fun other member => told other (List.mem_cons_of_mem _ member)]

omit [Transport τ] in
/-- What becomes of all calls of the node becomes of those of the application. -/
theorem delayed_kept {mid : LoopSystem κ τ} (told : ∀ stage ∈ future, Told (errand? stage) stage.events)
    (same : ↑(ran future) + s.calls = mid.calls + ↑(arms (Stage.seen future))) :
    delayed (Stage.seen future) + s.kept = mid.kept + deferred (Stage.seen future) := by
  have callbacks := congrArg (Multiset.filterMap NodeCall.callback?) same
  rw [Multiset.filterMap_add, Multiset.filterMap_add, filterMap_callback?, filterMap_callback?,
    callbacks_arms, ← delayed_seen told] at callbacks
  exact callbacks

/-- A stage in which the node of a loop is shut down, by the command or by a callback. -/
def Shuts (stage : Stage κ τ) : Prop :=
  taken? stage = some .shutdown ∨ stage.move = .perform .shutdown

/-- To shut a node down makes no delayed call and arms none. -/
theorem Step.silent_of_shuts (step : stage.before.Step stage.move stage.events stage.after)
    (shuts : Shuts stage) : stage.events = [.closed] := by
  rcases shuts with taken | moved
  · obtain ⟨loop, queue, settles⟩ := settles_of_taken? step taken
    exact settles.events
  · obtain ⟨before, move, events, after⟩ := stage
    obtain rfl : move = .perform .shutdown := moved
    change before.Step (.perform .shutdown) events after at step
    cases step with
    | perform => rfl

end LoopSystem

/-- **A shutdown forgets the delayed calls that have not been taken, and a loop takes all.** A polled node
that is shut down in the course of a run makes after that only those of the application's delayed calls
that it had taken to be run before, and those that have been armed since; if it had taken none, it has
forgotten all. The node of an event loop has forgotten none: whatever is armed when it is shut down is
kept, also when the loop is run again, until it is called. -/
theorem shutdown_forgets_what_is_not_taken [Transport τ] :
    (∀ (start e : Engine κ DelayedCalls τ) (past future : List (Engine.Stage κ DelayedCalls τ))
      (stage : Engine.Stage κ DelayedCalls τ),
      start.Run (past ++ stage :: future) e → Engine.KeepsOwn future →
      stage.move = .perform .shutdown →
      delayed (Stage.seen future) ≤ stage.before.taken + deferred (Stage.seen future)) ∧
    ∀ (config : FaceConfig) (format : WireFormat) (transport : τ) (host : Host)
      (start s : LoopSystem κ τ) (past future : List (LoopSystem.Stage κ τ))
      (stage : LoopSystem.Stage κ τ),
      LoopSystem.open? config format transport host = some start →
      start.Run (past ++ stage :: future) s → LoopSystem.Forward (past ++ stage :: future) →
      LoopSystem.Shuts stage →
      delayed (Stage.seen future) + s.kept = stage.before.kept + deferred (Stage.seen future) := by
  constructor
  · intro start e past future stage run alone shut
    exact run.delayed_after_shutdown alone shut
  · intro config format transport host start s past future stage opened run clock shuts
    have silent := LoopSystem.Step.silent_of_shuts run.at_stage.2 shuts
    have handles := LoopSystem.Run.handles opened run clock
    have told := (LoopSystem.Run.diligent opened run clock).told
    have one : ∀ other ∈ [stage], Told (LoopSystem.errand? other) other.events :=
      List.forall_mem_singleton.mpr handles.told
    have still := LoopSystem.delayed_kept one
      (by rw [Stage.seen, List.flatMap_singleton]; exact handles.calls_kept)
    rw [Stage.seen, List.flatMap_singleton, silent] at still
    change 0 + stage.after.kept = stage.before.kept + 0 at still
    rw [zero_add, add_zero] at still
    rw [List.append_cons] at run clock
    obtain ⟨mid, upTo, same⟩ := LoopSystem.Run.calls_kept opened run clock
    rw [upTo.of_concat.2.2] at same
    rw [← still]
    exact LoopSystem.delayed_kept
      (fun other member => told other (List.mem_append_right _ (List.mem_cons_of_mem _ member))) same

namespace Engine

/-- Two calls are due, and the first of them shuts the node down. -/
def twoCallsDue : List (Move Unit) :=
  [.perform (.callLater .zero ()), .perform (.callLater .zero ()), .perform .processEvents, .advance,
    .advance, .perform .shutdown, .resume (.ok ()), .advance]

private theorem run_twoCallsDue :
    ∃ (past future : List (Stage Unit DelayedCalls Sink)) (stage : Stage Unit DelayedCalls Sink)
      (e : Engine Unit DelayedCalls Sink),
      untouched.Run (past ++ stage :: future) e ∧ KeepsOwn future ∧ stage.move = .perform .shutdown ∧
        deferred (Stage.seen future) = 0 ∧ delayed (Stage.seen future) = {()} := by
  have own : ∀ call, Move.perform (.run call) ∉ twoCallsDue := by simp [twoCallsDue]
  have begins : untouched.Run [] untouched := .start
  obtain ⟨e, run⟩ := run_stages begins own
  have alone := keepsOwn_stages (e := untouched) own
  let stages := untouched.stages twoCallsDue
  exact ⟨stages.take 5, stages.drop 6, _, e, run,
    ⟨fun stage member => alone.keeps stage (List.mem_of_mem_drop member),
      fun stage member => alone.own stage (List.mem_of_mem_drop member)⟩, rfl, rfl, rfl⟩

end Engine

namespace LoopSystem

/-- A run goes on after one of its stages with any step that can be made. -/
theorem Run.extend_future [Transport τ] {start s after : LoopSystem κ τ} {past future : List (Stage κ τ)}
    {stage : Stage κ τ} {move : LoopMove κ} {events : List (Event κ)}
    (run : start.Run (past ++ stage :: future) s) (step : s.Step move events after) :
    start.Run (past ++ stage :: (future ++ [⟨s, move, events, after⟩])) after := by
  simpa using run.extend step

/-- A loop with one interest on the link, to whose format everything is that interest. -/
def asked : LoopSystem Unit LinkEnd where
  loop := {
    engine := {
      node := {
        config := {}
        format := {
          encode := fun _ => .ok []
          decode := fun _ => .ok (.interest { name := ⟨[]⟩ }) }
        scheduler := {} }
      transport := { link := { rightLane := { queue := [[]] } } }
      host := Engine.untouched.host }
    timers := [{ deadline := ⟨0⟩, task := .processEvents }] }

/-- A filter is asked for when the interest is under way. Its callback arms a call and shuts the node
down, and the loop goes on. -/
private theorem run_shut_by_a_filter :
    ∃ (past future : List (Stage Unit LinkEnd)) (stage : Stage Unit LinkEnd) (s : LoopSystem Unit LinkEnd),
      open? {} asked.loop.engine.node.format asked.loop.engine.transport asked.loop.engine.host =
        some asked ∧
      asked.Run (past ++ stage :: future) s ∧ Forward (past ++ stage :: future) ∧ Shuts stage ∧
      deferred (Stage.seen future) = 0 ∧ delayed (Stage.seen future) = {()} := by
  have opened : open? {} asked.loop.engine.node.format asked.loop.engine.transport
    asked.loop.engine.host = some asked := rfl
  have begins : asked.Run [] asked := .start
  have filtered := begins.extend <| show asked.Step
    (.queue (.request (.setFilter .first ⟨⟨[]⟩⟩ ()))) [] _ from .queue (by simp) rfl
  have running := filtered.extend (.begin rfl rfl)
  have installed := running.extend (.turn rfl rfl lawfulPick_takeFirst)
  have reading := installed.extend (.turn rfl rfl lawfulPick_takeFirst)
  have offering := reading.extend (.advance rfl rfl)
  have calling := offering.extend (.advance rfl rfl)
  have armed := calling.extend <| show LoopSystem.Step _
    (.perform (.callLater .zero ())) _ _ from .perform rfl rfl rfl nofun
  have shut := armed.extend <| show LoopSystem.Step _ (.perform .shutdown) _ _ from
    .perform rfl rfl rfl nofun
  have returned := Run.extend_future shut <| show LoopSystem.Step _ (.resume (.ok false)) _ _ from
    .resume rfl rfl
  have offered := Run.extend_future returned (.advance rfl rfl)
  have read := Run.extend_future offered (.advance rfl rfl)
  have processed := Run.extend_future read (.advance rfl rfl)
  have polled := Run.extend_future processed (.turn rfl rfl lawfulPick_takeFirst)
  have called := Run.extend_future polled (.turn rfl rfl lawfulPick_takeFirst)
  refine ⟨_, _, _, _, opened, called, ?forward, .inr rfl, rfl, rfl⟩
  rw [Forward]
  decide +kernel

end LoopSystem

private theorem not_le_of_none {κ : Type} {events : List (Event κ)} {call : κ}
    (none : deferred events = 0) (called : delayed events = {call}) :
    ¬ delayed events ≤ deferred events := by
  rw [none, called]
  simp

/-- A delayed call that was armed before a shutdown is made after it: by a polled node that had taken it
together with the one that shuts the node down, and by a loop in any case. -/
theorem called_for_what_was_armed_before_a_shutdown :
    (∃ (past future : List (Engine.Stage Unit DelayedCalls Sink))
      (stage : Engine.Stage Unit DelayedCalls Sink) (e : Engine Unit DelayedCalls Sink),
      Engine.untouched.Run (past ++ stage :: future) e ∧ Engine.KeepsOwn future ∧
        stage.move = .perform .shutdown ∧
        ¬ delayed (Stage.seen future) ≤ deferred (Stage.seen future)) ∧
    ∃ (past future : List (LoopSystem.Stage Unit LinkEnd)) (stage : LoopSystem.Stage Unit LinkEnd)
      (s : LoopSystem Unit LinkEnd),
      LoopSystem.asked.Run (past ++ stage :: future) s ∧ LoopSystem.Forward (past ++ stage :: future) ∧
        LoopSystem.Shuts stage ∧ ¬ delayed (Stage.seen future) ≤ deferred (Stage.seen future) := by
  obtain ⟨past, future, stage, e, run, alone, shut, none, called⟩ := Engine.run_twoCallsDue
  obtain ⟨past', future', stage', s, -, run', clock, shut', none', called'⟩ :=
    LoopSystem.run_shut_by_a_filter
  exact ⟨⟨past, future, stage, e, run, alone, shut, not_le_of_none none called⟩,
    past', future', stage', s, run', clock, shut', not_le_of_none none' called'⟩

/-- The polled node had taken the call that it makes after the shutdown, and the loop had kept it. -/
theorem taken_or_kept_when_shut_down :
    (∃ (past future : List (Engine.Stage Unit DelayedCalls Sink))
      (stage : Engine.Stage Unit DelayedCalls Sink) (e : Engine Unit DelayedCalls Sink),
      Engine.untouched.Run (past ++ stage :: future) e ∧ stage.move = .perform .shutdown ∧
        delayed (Stage.seen future) = {()} ∧ {()} ≤ stage.before.taken) ∧
    ∃ (past future : List (LoopSystem.Stage Unit LinkEnd)) (stage : LoopSystem.Stage Unit LinkEnd)
      (s : LoopSystem Unit LinkEnd),
      LoopSystem.asked.Run (past ++ stage :: future) s ∧ LoopSystem.Shuts stage ∧
        delayed (Stage.seen future) = {()} ∧ {()} + s.kept = stage.before.kept := by
  obtain ⟨past, future, stage, e, run, alone, shut, none, called⟩ := Engine.run_twoCallsDue
  obtain ⟨past', future', stage', s, opened, run', clock, shut', none', called'⟩ :=
    LoopSystem.run_shut_by_a_filter
  have taken := shutdown_forgets_what_is_not_taken.1 _ e past future stage run alone shut
  have kept := shutdown_forgets_what_is_not_taken.2 _ _ _ _ _ s past' future' stage' opened run' clock
    shut'
  rw [none, called, add_zero] at taken
  rw [none', called', add_zero] at kept
  exact ⟨⟨past, future, stage, e, run, shut, called, taken⟩,
    past', future', stage', s, run', shut', called', kept⟩

end NamedData
