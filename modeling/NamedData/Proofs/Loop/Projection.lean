import NamedData.Proofs.Loop.Order
import NamedData.Proofs.Node.Effect
import NamedData.Proofs.Node.Own

/-!
An event loop drives its node as any owner could.

Each stage of a loop is some stages of the node alone: the calls that the loop collects leave the
outbox, and then the node does what the loop settled on, if that is an operation of the node at all
(`LoopSystem.nodeStages`). So a run of the loop is a run of the node, in which the executed commands
are carried out in order (`LoopSystem.loop_refines_node`).
-/
namespace NamedData

/-- The operation of the node that a command asks for. -/
def Command.operation? {κ : Type} : Command κ → Option (Operation κ)
  | .request asked => some (.request asked)
  | .shutdown => some .shutdown
  | _ => none

/-- Whether an operation is one that the loop starts without being asked. -/
def Operation.unasked {κ : Type} : Operation κ → Bool
  | .processEvents | .run _ => true
  | _ => false

namespace Engine

variable {κ τ : Type} {σ : Type → Type}

/-- The engine without the callbacks that only a loop runs. -/
def plain (e : Engine κ σ τ) : Engine κ σ τ := { e with frames := e.frames.filter Frame.ofNode }

theorem Own.plain_eq {e : Engine κ σ τ} (own : e.Own) : e.plain = e := by
  rw [plain, List.filter_eq_self.mpr own]

/-- The operation that was started at rest. -/
def started? (stage : Stage κ σ τ) : Option (Operation κ) :=
  match stage.before.frames, stage.move with
  | [], .perform operation => some operation
  | _, _ => none

end Engine

namespace EventLoop

variable {κ τ : Type}

/-- The operation of the node that a loop starts when it carries out a choice. -/
def operation? (l : EventLoop κ τ) : Choice κ → Option (Operation κ)
  | .command command _ => command.operation?
  | .timer .processEvents _ =>
    if l.channel.active ∧
        (l.engine.host.now.add? l.engine.node.config.processEventsInterval).isSome then
      some .processEvents
    else none
  | .timer (.node call) _ => some (.run call)
  | _ => none

variable [Transport τ] {l : EventLoop κ τ} {choice : Choice κ}

/-- What the loop logs about a failed request its node did not log. -/
private theorem failure_filter (request : Request κ) (error : FaceError) :
    ((failure request error).map Event.logged).toList.filter (Event.ofNode (κ := κ)) = [] := by
  cases request <;> rfl

/-- A request is carried out by the node. -/
theorem execute_request (own : l.engine.Own) (request : Request κ) :
    (l.execute (.request request)).1 = { l with engine := (l.engine.request request).1 } ∧
      (l.execute (.request request)).2.1.filter Event.ofNode = (l.engine.request request).2.2 := by
  have owns := Engine.request_owns own request
  have mine := List.filter_eq_self.mpr owns.events
  simp only [execute]
  split
  · exact ⟨rfl, mine⟩
  · refine ⟨rfl, ?_⟩
    rw [List.filter_append, mine, failure_filter, List.append_nil]
  · exact ⟨rfl, mine⟩

/-- A choice that is an operation of the node is carried out by the node. -/
theorem carryOut_of_some {operation : Operation κ} (own : l.engine.Own)
    (started : l.operation? choice = some operation) :
    (l.carryOut choice).1.engine = (l.engine.perform operation).1 ∧
      (l.carryOut choice).2.1.filter Event.ofNode = (l.engine.perform operation).2.2 := by
  have mine := List.filter_eq_self.mpr (Engine.perform_owns own operation).events
  cases choice with
  | command command queue =>
    cases command with
    | request request =>
      cases started
      obtain ⟨after, events⟩ := execute_request
        (l := { l with channel := { l.channel with queue } }) own request
      exact ⟨congrArg EventLoop.engine after, events⟩
    | shutdown =>
      cases started
      exact ⟨rfl, mine⟩
    | stopWhen | callLater | countPending | flush => cases started
  | timer task timers =>
    cases task with
    | processEvents =>
      simp only [operation?] at started
      split at started
      · next ready =>
        cases started
        obtain ⟨deadline, shown⟩ := Option.isSome_iff_exists.mp ready.2
        simp only [carryOut, runTask, if_pos ready.1, arm?, shown, Option.map]
        exact ⟨rfl, rfl⟩
      · cases started
    | node call =>
      cases started
      exact ⟨rfl, mine⟩
    | pollPredicate | callback => cases started
  | close | wait | idle => cases started

omit [Transport τ] in
theorem rearmPoll_engine (l : EventLoop κ τ) :
    l.rearmPoll.1.engine = l.engine ∧ l.rearmPoll.2.1 = [] := by
  rw [rearmPoll]
  cases armed : l.arm? l.engine.node.config.stopWhenInterval .pollPredicate with
  | none => exact ⟨rfl, rfl⟩
  | some after =>
    obtain ⟨deadline, rfl⟩ := eq_of_arm? armed
    exact ⟨rfl, rfl⟩

/-- What an engine has in progress is its node's own, or one callback of the loop. -/
def Tidy (e : Engine κ Outbox τ) : Prop :=
  e.Own ∨ ∃ call, e.frames = [.inside call] ∧ call.ofNode = false

section tidy

omit [Transport τ]

variable {e : Engine κ Outbox τ} {call : Call κ}

theorem Tidy.own_of_rest (rest : e.frames = []) : e.Own := by
  rw [Engine.Own, rest]
  simp

/-- A loop that takes a turn has nothing of its own in progress. -/
theorem own_of_armNodeCalls? {after : EventLoop κ τ} (armed : l.armNodeCalls? = some after)
    (rest : l.engine.frames = []) : after.engine.Own := by
  rw [engine_of_armNodeCalls? armed]
  exact Tidy.own_of_rest rest

theorem Tidy.own_of_mine (tidy : Tidy e) (inside : e.current? = some call)
    (mine : call.ofNode = true) : e.Own := by
  rcases tidy with own | ⟨other, frames, loops⟩
  · exact own
  · rw [Engine.current?, frames] at inside
    cases inside
    exact absurd (mine.symm.trans loops) (by decide)

theorem Tidy.frames_of_loops (tidy : Tidy e) (inside : e.current? = some call)
    (loops : call.ofNode = false) : e.frames = [.inside call] := by
  obtain ⟨outer, frames⟩ := Engine.frames_of_current? inside
  rcases tidy with own | ⟨other, alone, -⟩
  · have mine := own (.inside call) (by rw [frames]; exact List.mem_cons_self)
    exact absurd (mine.symm.trans loops) (by decide)
  · rw [frames] at alone ⊢
    cases alone
    rfl

end tidy

theorem Tidy.own_of_advance {e : Engine κ Outbox τ} {result : Engine κ Outbox τ × List (Event κ)}
    (tidy : Tidy e) (advanced : e.advance = some result) : e.Own := by
  rcases tidy with own | ⟨call, frames, -⟩
  · exact own
  · rw [Engine.advance.eq_def, frames] at advanced
    cases advanced

/-- Nothing happened to a node: it is at rest as it was, or the loop has called a callback of its
own. -/
structure Aside (e after : Engine κ Outbox τ) (events : List (Event κ)) : Prop where
  plain : after.plain = e
  tidy : Tidy after
  silent : events.filter Event.ofNode = []

omit [Transport τ] in
theorem Aside.of_eq {e after : Engine κ Outbox τ} {events : List (Event κ)} (rest : e.frames = [])
    (same : after = e) (silent : events.filter Event.ofNode = []) : Aside e after events := by
  have own : after.Own := same ▸ Tidy.own_of_rest rest
  exact ⟨own.plain_eq.trans same, .inl own, silent⟩

omit [Transport τ] in
theorem Aside.of_invoke {e : Engine κ Outbox τ} (rest : e.frames = []) {call : Call κ}
    (loops : call.ofNode = false) : Aside e (e.invoke call).1 (e.invoke call).2 := by
  obtain ⟨node, transport, host, frames⟩ := e
  cases rest
  refine ⟨?_, .inr ⟨call, rfl, loops⟩, ?_⟩
  · simp [Engine.invoke, Engine.push, Engine.plain, Frame.ofNode, loops]
  · simp [Engine.invoke, Event.ofNode, loops]

omit [Transport τ] in
/-- A callback of the node returns to the node. -/
theorem resume_of_mine {call : Call κ} (inside : l.engine.current? = some call)
    (mine : call.ofNode = true) (result : Except CallbackError Bool) :
    l.resume result = ({ l with engine := (l.engine.resume (result.map fun _ => ())).1 },
      (l.engine.resume (result.map fun _ => ())).2, .worked) := by
  rw [resume, inside]
  cases call with
  | poll => cases mine
  | data | timeout | interest | registerFailed | nodeDelay | faceDelay => rfl

omit [Transport τ] in
/-- A callback of the loop returns to the loop. -/
theorem resume_of_loops {call : Call κ} (frames : l.engine.frames = [.inside call])
    (loops : call.ofNode = false) (result : Except CallbackError Bool) :
    (l.resume result).1.engine = { l.engine with frames := [] } ∧
      (l.resume result).2.1.filter Event.ofNode = [] := by
  have inside : l.engine.current? = some call := by rw [Engine.current?, frames]
  have tail : l.engine.frames.tail = [] := by rw [frames]; rfl
  rw [resume, inside]
  cases call with
  | data | timeout | interest | registerFailed | nodeDelay => cases loops
  | faceDelay callback =>
    dsimp only
    rw [Engine.resume.eq_def, frames]
    cases result with
    | ok => exact ⟨rfl, rfl⟩
    | error error => exact ⟨rfl, rfl⟩
  | poll predicate index =>
    dsimp only
    rw [tail]
    obtain ⟨same, silent⟩ :=
      rearmPoll_engine { l with engine := { l.engine with frames := [] } }
    split
    · exact ⟨rfl, rfl⟩
    · exact ⟨same, by rw [silent]; rfl⟩
    · refine ⟨same, ?_⟩
      dsimp only
      rw [silent]
      rfl

omit [Transport τ] in
/-- A call of the node is run when its timer is taken. -/
theorem timer_of_run {call : NodeCall κ} (started : l.operation? choice = some (.run call)) :
    ∃ timers, choice = .timer (.node call) timers := by
  cases choice with
  | command command queue => cases command <;> cases started
  | timer task timers =>
    cases task with
    | processEvents =>
      simp only [operation?] at started
      split at started <;> cases started
    | node call =>
      cases started
      exact ⟨timers, rfl⟩
    | pollPredicate | callback => cases started
  | close | wait | idle => cases started

/-- Any other choice leaves the node alone. -/
theorem carryOut_of_none (rest : l.engine.frames = []) (idle : l.operation? choice = none) :
    Aside l.engine (l.carryOut choice).1.engine (l.carryOut choice).2.1 := by
  cases choice with
  | command command queue =>
    cases command with
    | request | shutdown => cases idle
    | stopWhen | countPending | flush => exact .of_eq rest rfl rfl
    | callLater delay callback =>
      simp only [carryOut, execute]
      split
      · exact .of_eq rest rfl rfl
      · next armed =>
        obtain ⟨deadline, rfl⟩ := eq_of_arm? armed
        exact .of_eq rest rfl rfl
  | timer task timers =>
    cases task with
    | node => cases idle
    | callback callback => exact .of_invoke rest rfl
    | processEvents =>
      simp only [operation?] at idle
      simp only [carryOut, runTask]
      split
      · next active =>
        split
        · exact .of_eq rest rfl rfl
        · next after armed =>
          obtain ⟨deadline, shown, -⟩ := Option.map_eq_some_iff.mp armed
          have ready : l.channel.active ∧
              (l.engine.host.now.add? l.engine.node.config.processEventsInterval).isSome := by
            refine ⟨active, ?_⟩
            change (l.engine.host.now.add? _) = _ at shown
            rw [shown]
            rfl
          rw [if_pos ready] at idle
          cases idle
      · exact .of_eq rest rfl rfl
    | pollPredicate =>
      simp only [carryOut, runTask]
      split
      · split
        · obtain ⟨same, silent⟩ := rearmPoll_engine { l with timers, pollArmed := false }
          exact .of_eq rest same (by rw [silent]; rfl)
        · exact .of_invoke rest rfl
      · exact .of_eq rest rfl rfl
  | close | wait | idle => exact .of_eq rest rfl rfl

/-- A loop arms a timeout for the lifetime of its interest. -/
theorem lifetime_of_stepBy? {pick : List (Timer κ) → Option (Timer κ × List (Timer κ))}
    {outcome : EventLoop κ τ × List (Event κ) × Turn} {delay : Duration} {entry : PendingInterest κ}
    (stepped : l.stepBy? pick = some outcome) (armed : .armed delay (.timeout entry) ∈ outcome.2.1) :
    entry.interest.lifetime = some delay := by
  rw [stepBy?] at stepped
  split at stepped
  · next rest =>
    obtain rfl := Option.some.inj stepped
    cases collected : l.armNodeCalls? with
    | none =>
      rw [turnBy_of_none collected] at armed
      cases armed
    | some mid =>
      have own := own_of_armNodeCalls? collected rest
      rw [turnBy_of_some collected] at armed
      have seen := List.mem_filter.mpr ⟨armed, (rfl : Event.ofNode _ = true)⟩
      cases started : mid.operation? (mid.choose pick) with
      | some operation =>
        rw [(carryOut_of_some own started).2] at seen
        exact (Engine.perform_does mid.engine operation).lifetime seen
      | none =>
        have idle : mid.engine.frames = [] := by
          rw [engine_of_armNodeCalls? collected]
          exact rest
        rw [(carryOut_of_none idle started).silent] at seen
        cases seen
  · obtain ⟨⟨engine, events⟩, advanced, rfl⟩ := Option.map_eq_some_iff.mp stepped
    exact (Engine.advance_does advanced).lifetime armed

end EventLoop

namespace LoopSystem

open EventLoop (Tidy Aside)

variable {κ τ : Type} [Transport τ]

/-- What a stage of a loop is for its node alone. -/
def nodeStages (stage : Stage κ τ) : List (Engine.Stage κ Outbox τ) :=
  let before := stage.before.loop.engine.plain
  let after := stage.after.loop.engine.plain
  let own := stage.events.filter Event.ofNode
  match stage.move with
  | .turn _ =>
    match settled? stage with
    | none => []
    | some (loop, choice) =>
      ⟨before, .drift, [], loop.engine.plain⟩ ::
        match loop.operation? choice with
        | none => []
        | some operation => [⟨loop.engine.plain, .perform operation, own, after⟩]
  | .advance => [⟨before, .advance, own, after⟩]
  | .resume result =>
    if stage.before.loop.engine.current?.any Call.ofNode then
      [⟨before, .resume (result.map fun _ => ()), own, after⟩]
    else []
  | .perform operation => [⟨before, .perform operation, own, after⟩]
  | .drift => [⟨before, .drift, [], after⟩]
  | .queue _ | .lower | .announce | .leave | .begin | .pause | .destroy => []

/-- The stages of a loop up to some point are a run of its node. -/
structure Simulates (start : Engine κ Outbox τ) (nodes : List (Engine.Stage κ Outbox τ))
    (s : LoopSystem κ τ) : Prop where
  run : start.Run nodes s.loop.engine.plain
  tidy : Tidy s.loop.engine
  /-- The calls of the node that wait for their time were armed by the node. -/
  timers : ∀ t ∈ s.loop.timers, ∀ call, t.task = .node call →
    ∃ delay, .armed delay call ∈ Stage.seen nodes

variable {start : Engine κ Outbox τ} {nodes : List (Engine.Stage κ Outbox τ)}
variable {before after : LoopSystem κ τ}

/-- Steps that leave the node and its calls alone. -/
theorem Simulates.keep (simulates : Simulates start nodes before)
    (same : after.loop.engine = before.loop.engine)
    (timers : ∀ t ∈ after.loop.timers, ∀ call, t.task = .node call → t ∈ before.loop.timers) :
    Simulates start nodes after where
  run := same ▸ simulates.run
  tidy := same ▸ simulates.tidy
  timers t member call node := simulates.timers t (timers t member call node) call node

/-- Steps of the node alone. -/
theorem Simulates.act {events : List (Event κ)} (simulates : Simulates start nodes before)
    (move : Move κ) (after : LoopSystem κ τ)
    (own : before.loop.engine.Own)
    (acted : before.loop.engine.act? move = some (after.loop.engine, events))
    (owns : after.loop.engine.Owns events)
    (given : ∀ call, move = .perform (.run call) → start.Available nodes call)
    (timers : ∀ t ∈ after.loop.timers, ∀ call, t.task = .node call → t ∈ before.loop.timers) :
    Simulates start (nodes ++ [⟨before.loop.engine.plain, move, events,
      after.loop.engine.plain⟩]) after where
  run := by
    have step : before.loop.engine.plain.Step move events after.loop.engine.plain := by
      rw [own.plain_eq, owns.frames.plain_eq]
      exact .act acted
    exact .step simulates.run ⟨step, given⟩
  tidy := .inl owns.frames
  timers := by
    intro t member call node
    obtain ⟨delay, armed⟩ := simulates.timers t (timers t member call node) call node
    rw [Stage.seen_concat]
    exact ⟨delay, List.mem_append_left _ armed⟩

/-- Changes to what is not the node's. -/
theorem Simulates.drift (simulates : Simulates start nodes before) (after : LoopSystem κ τ)
    (drifts : before.loop.engine.plain.Drifts after.loop.engine.plain)
    (tidy : Tidy after.loop.engine)
    (timers : ∀ t ∈ after.loop.timers, ∀ call, t.task = .node call → t ∈ before.loop.timers ∨
      ∃ delay, .armed delay call ∈ Stage.seen nodes) :
    Simulates start (nodes ++ [⟨before.loop.engine.plain, .drift, [],
      after.loop.engine.plain⟩]) after where
  run := .step simulates.run ⟨.drift drifts, fun call same => by cases same⟩
  tidy := tidy
  timers := by
    intro t member call node
    rw [Stage.seen_concat, List.append_nil]
    rcases timers t member call node with old | armed
    · exact simulates.timers t old call node
    · exact armed

/-- Collecting the calls of the node is no step of the node. -/
theorem Simulates.collect {loop : EventLoop κ τ} (nothing : ∀ call, ¬ start.Armed call)
    (simulates : Simulates start nodes before) (rest : before.loop.engine.frames = [])
    (collected : before.loop.armNodeCalls? = some loop) :
    Simulates start (nodes ++ [⟨before.loop.engine.plain, .drift, [], loop.engine.plain⟩])
      { before with loop } := by
  have own : before.loop.engine.Own := Tidy.own_of_rest rest
  have own' := EventLoop.own_of_armNodeCalls? collected rest
  have engine := EventLoop.engine_of_armNodeCalls? collected
  obtain ⟨timers, eq, known⟩ := EventLoop.eq_of_armNodeCalls? collected
  apply simulates.drift { before with loop }
  · rw [own.plain_eq, own'.plain_eq, engine]
    refine ⟨rfl, rfl, ?_, ⟨Nat.le_refl _, fun _ _ => rfl⟩⟩
    rintro call ⟨entry, member, -⟩
    cases member
  · exact .inl own'
  · intro t member call node
    rw [eq] at member
    rcases List.mem_append.mp member with old | new
    · exact .inl old
    · obtain ⟨entry, listed, same⟩ := known t new
      cases node.symm.trans same
      have armed : before.loop.engine.plain.Armed entry.2 := .inl ⟨entry, listed, rfl⟩
      exact .inr ((simulates.run.armed armed).resolve_left (nothing _))

/-- A turn of a loop is at most one operation of its node, behind the calls that are collected first. -/
theorem Simulates.turn {pick : List (Timer κ) → Option (Timer κ × List (Timer κ))}
    (nothing : ∀ call, ¬ start.Armed call) (simulates : Simulates start nodes before)
    (rest : before.loop.engine.frames = []) (lawful : LawfulPick pick) :
    let stage : Stage κ τ := ⟨before, .turn pick, (before.loop.turnBy pick).2.1,
      before.settle (before.loop.turnBy pick)⟩
    Simulates start (nodes ++ nodeStages stage) stage.after ∧
      NamedData.Stage.seen (nodeStages stage) = stage.events.filter Event.ofNode := by
  intro stage
  have own : before.loop.engine.Own := Tidy.own_of_rest rest
  simp only [stage, nodeStages, settled?]
  cases collected : before.loop.armNodeCalls? with
  | none =>
    rw [EventLoop.turnBy_of_none collected]
    simp only [Option.map, List.append_nil]
    exact ⟨simulates.keep rfl fun _ member _ _ => member, rfl⟩
  | some loop =>
    have collect := simulates.collect nothing rest collected
    have rest' : loop.engine.frames = [] := by
      rw [EventLoop.engine_of_armNodeCalls? collected]
      exact rest
    have timers := EventLoop.carryOut_timers lawful (l := loop) rfl
    rw [EventLoop.turnBy_of_some collected]
    simp only [Option.map]
    cases started : loop.operation? (loop.choose pick) with
    | none =>
      have aside := EventLoop.carryOut_of_none rest' started
      refine ⟨⟨?_, aside.tidy, ?_⟩, aside.silent.symm⟩
      · have same : (before.settle (loop.carryOut (loop.choose pick))).loop.engine.plain =
            loop.engine.plain :=
          aside.plain.trans (Tidy.own_of_rest rest').plain_eq.symm
        rw [same]
        exact collect.run
      · intro t member call node
        exact collect.timers t (timers t member call node) call node
    | some operation =>
      obtain ⟨engine, events⟩ := EventLoop.carryOut_of_some (Tidy.own_of_rest rest') started
      have owns := Engine.perform_owns (Tidy.own_of_rest rest') operation
      have accepts : loop.engine.accepts = true := by rw [Engine.accepts, rest']
      rw [← events, ← engine] at owns
      have given : ∀ call, Move.perform operation = .perform (.run call) →
          start.Available (nodes ++ [⟨before.loop.engine.plain, .drift, [],
            loop.engine.plain⟩]) call := by
        rintro call ⟨⟩
        obtain ⟨left, chosen⟩ := EventLoop.timer_of_run started
        obtain ⟨⟨t, member, node⟩, -⟩ := EventLoop.mem_of_timer lawful chosen
        exact .inr (collect.timers t member call node)
      have step := collect.act (.perform operation)
        (before.settle (loop.carryOut (loop.choose pick))) (Tidy.own_of_rest rest')
        (by rw [Engine.act?, if_pos accepts, ← engine, ← events]; rfl) owns given timers
      rw [List.append_assoc] at step
      exact ⟨step, List.append_nil _⟩

/-- When a callback returns, it returns to the node if the node called it. -/
theorem Simulates.resume {call : Call κ} (simulates : Simulates start nodes before)
    (inside : before.loop.engine.current? = some call) (result : Except CallbackError Bool) :
    let stage : Stage κ τ := ⟨before, .resume result, (before.loop.resume result).2.1,
      before.settle (before.loop.resume result)⟩
    Simulates start (nodes ++ nodeStages stage) stage.after ∧
      NamedData.Stage.seen (nodeStages stage) = stage.events.filter Event.ofNode := by
  intro stage
  simp only [stage, nodeStages, inside, Option.any_some]
  cases mine : call.ofNode with
  | true =>
    have own := simulates.tidy.own_of_mine inside mine
    have owns := Engine.resume_owns own (result.map fun _ => ())
    have returned := EventLoop.resume_of_mine inside mine result
    rw [returned, if_pos rfl, List.filter_eq_self.mpr owns.events]
    refine ⟨?_, List.append_nil _⟩
    have acted : before.loop.engine.act? (.resume (result.map fun _ => ())) =
        some (before.loop.engine.resume (result.map fun _ => ())) := by
      rw [Engine.act?, inside]
      rfl
    apply simulates.act (.resume (result.map fun _ => ()))
      (before.settle ({ before.loop with engine := (before.loop.engine.resume _).1 }, _, .worked))
      own acted owns
    · rintro call ⟨⟩
    · exact fun _ member _ _ => member
  | false =>
    have frames := simulates.tidy.frames_of_loops inside mine
    obtain ⟨same, silent⟩ := EventLoop.resume_of_loops frames mine result
    have keeps := EventLoop.resume_keeps before.loop result
    rw [silent, if_neg Bool.false_ne_true, List.append_nil]
    refine ⟨⟨?_, .inl ?_, ?_⟩, rfl⟩
    · have plain : (before.settle (before.loop.resume result)).loop.engine.plain =
          before.loop.engine.plain := by
        change (before.loop.resume result).1.engine.plain = _
        rw [same, Engine.plain, Engine.plain, frames]
        simp [Frame.ofNode, mine]
      rw [plain]
      exact simulates.run
    · change (before.loop.resume result).1.engine.Own
      rw [same]
      exact Tidy.own_of_rest rfl
    · intro t member call node
      exact simulates.timers t (keeps.timers t member call node) call node

/-- Every step of a loop is some steps of its node. -/
theorem Simulates.step {stage : Stage κ τ} (nothing : ∀ call, ¬ start.Armed call)
    (simulates : Simulates start nodes stage.before)
    (step : stage.before.Step stage.move stage.events stage.after) :
    Simulates start (nodes ++ nodeStages stage) stage.after ∧
      Stage.seen (nodeStages stage) = stage.events.filter Event.ofNode := by
  obtain ⟨before, move, events, after⟩ := stage
  change Simulates start nodes before at simulates
  change before.Step move events after at step
  cases step with
  | queue other face | announce closing =>
    simp only [nodeStages, List.append_nil]
    obtain ⟨channel, same⟩ := handOff_eq before _
    rw [same]
    exact ⟨simulates.keep rfl fun _ member _ _ => member, rfl⟩
  | lower | leave | pause | destroy | overflow =>
    simp only [nodeStages, List.append_nil]
    exact ⟨simulates.keep rfl fun _ member _ _ => member, rfl⟩
  | begin parked begun =>
    simp only [nodeStages, List.append_nil]
    have keeps := EventLoop.begin?_keeps begun
    exact ⟨simulates.keep (EventLoop.engine_of_begin? begun) keeps.timers, rfl⟩
  | turn running rest lawful => exact simulates.turn nothing rest lawful
  | resume running inside => exact simulates.resume inside _
  | @advance engine events running advanced =>
    have own : before.loop.engine.Own := simulates.tidy.own_of_advance advanced
    have owns := Engine.advance_owns own advanced
    simp only [nodeStages]
    rw [List.filter_eq_self.mpr owns.events]
    refine ⟨?_, List.append_nil _⟩
    apply simulates.act .advance (before.withEngine engine) own advanced owns
    · rintro call ⟨⟩
    · exact fun _ member _ _ => member
  | @perform call operation running inside handed public' =>
    have own := simulates.tidy.own_of_mine inside (Call.ofNode_of_handsNode handed)
    have owns := Engine.perform_owns own operation
    simp only [nodeStages]
    rw [List.filter_eq_self.mpr owns.events]
    refine ⟨?_, List.append_nil _⟩
    have accepts : before.loop.engine.accepts = true := by
      obtain ⟨outer, frames⟩ := Engine.frames_of_current? inside
      rw [Engine.accepts, frames]
      exact handed
    apply simulates.act (.perform operation)
      (before.withEngine (before.loop.engine.perform operation).1) own (if_pos accepts) owns
    · rintro call ⟨⟩
      exact absurd rfl (public' call)
    · exact fun _ member _ _ => member
  | @drift transport host drifts =>
    refine ⟨simulates.drift _ ?_ ?_ ?_, rfl⟩
    · exact ⟨rfl, rfl, fun _ held => held, drifts⟩
    · exact simulates.tidy
    · exact fun _ member _ _ => .inl member

end LoopSystem

end NamedData
