import NamedData.Proofs.Loop.Projection
import NamedData.Proofs.Node.Resolution

/-!
What a run of an event loop and its faces comes to.

The executed commands are the first of those that were queued, in this order, and the whole run is a
run of the node in which they are the operations started at rest, apart from event processing and the
calls that the node armed (`LoopSystem.loop_refines_node`).
-/
namespace NamedData

namespace Engine

variable {κ τ : Type} {σ : Type → Type} [Transport τ]
variable {e : Engine κ σ τ} {request : Request κ} {error : FaceError}

/-- A request that fails is one that the loop has a log record for. -/
theorem failure_of_failed [Scheduler σ] (failed : (e.request request).2.1 = .failed error) :
    ∃ notice, EventLoop.failure request error = some notice := by
  cases request with
  | express | putData | send => exact ⟨_, rfl⟩
  | register id root onInterest onFailed options =>
    simp only [Engine.request, register] at failed
    split at failed <;> cases failed
  | removePending | removeRegistered | setFilter | unsetFilter => cases failed

/-- A refused registration is logged by the node. -/
theorem register_of_refused (id : EntryId) {root : Name} (onInterest : Option κ) (onFailed : κ)
    {options : RegistrationOptions} {cause : TransportError}
    (refused : (Transport.register e.transport root options).1 = .error cause) :
    (e.register id root onInterest onFailed options).2.1 = .done ∧
      .logged (.registrationFailed root cause) ∈
        (e.register id root onInterest onFailed options).2.2 := by
  cases onInterest with
  | none =>
    simp only [register]
    rw [refused]
    exact ⟨rfl, List.mem_cons_of_mem _ List.mem_cons_self⟩
  | some onInterest =>
    simp only [register]
    rw [refused]
    exact ⟨rfl, List.mem_cons_of_mem _ List.mem_cons_self⟩

omit [Transport τ] in
theorem started?_eq_none {stage : Stage κ σ τ}
    (other : ∀ operation, stage.before.frames = [] → stage.move ≠ .perform operation) :
    started? stage = none := by
  rw [started?]
  split
  · next operation rest move => exact absurd move (other operation rest)
  · rfl

end Engine

/-- Of the operations that a loop starts, those of commands were asked for. -/
theorem EventLoop.operation?_asked {κ τ : Type} (l : EventLoop κ τ) (choice : Choice κ) :
    (l.operation? choice).toList.filter (fun operation => !operation.unasked) =
      choice.command?.toList.filterMap Command.operation? := by
  cases choice with
  | command command queue => cases command <;> rfl
  | timer task timers =>
    cases task with
    | processEvents =>
      simp only [operation?]
      split <;> rfl
    | node | pollPredicate | callback => rfl
  | close | wait | idle => rfl

/-! ## Answers -/

/-- A node answers nobody. -/
theorem Engine.Owns.not_answered {κ τ : Type} {σ : Type → Type} {after : Engine κ σ τ}
    {events : List (Event κ)} {ticket : Option Nat} {answer : Answer} (owns : after.Owns events) :
    .answered ticket answer ∉ events := by
  intro member
  exact absurd (owns.events _ member) (by simp [Event.ofNode])

namespace EventLoop

variable {κ τ : Type} [Transport τ] {l : EventLoop κ τ} {ticket : Option Nat} {answer : Answer}

omit [Transport τ] in
private theorem not_answered_of_failure (notice : Option Notice) :
    Event.answered (κ := κ) ticket answer ∉ (notice.map Event.logged).toList := by
  cases notice <;> simp

/-- The answer to a command. -/
theorem answered_execute (own : l.engine.Own) (command : Command κ) :
    .answered ticket answer ∈ (l.execute command).2.1 ↔
      command = .flush ticket ∧ answer = .flushed ∨
        command = .countPending ticket ∧
          answer = .pending l.engine.node.pending.entries.length := by
  cases command with
  | request request =>
    have silent : .answered ticket answer ∉ (l.engine.request request).2.2 :=
      (Engine.request_owns own request).not_answered
    simp only [execute, reduceCtorEq, false_and, or_self, iff_false]
    split
    · exact silent
    · rw [List.mem_append]
      exact not_or.mpr ⟨silent, not_answered_of_failure _⟩
    · exact silent
  | callLater delay callback =>
    simp only [execute]
    split <;> simp
  | shutdown => simp [execute, Engine.shutdown]
  | stopWhen predicate => simp [execute]
  | countPending other => simp [execute, PendingTable.size, eq_comm]
  | flush other => simp [execute, eq_comm]

/-- No timer answers anybody. -/
theorem not_answered_runTask (own : l.engine.Own) (task : Task κ) :
    .answered ticket answer ∉ (l.runTask task).2.1 := by
  cases task with
  | processEvents =>
    simp only [runTask]
    split
    · split <;> simp
    · simp
  | pollPredicate =>
    simp only [runTask]
    split
    · split
      · simp [rearmPoll_engine]
      · simp [Engine.invoke]
    · simp
  | node call => exact (Engine.run_owns own call).not_answered
  | callback callback => simp [runTask, Engine.invoke]

omit [Transport τ] in
/-- When a callback returns, something may be logged and nothing else is seen. -/
theorem logged_of_resume {result : Except CallbackError Bool} {event : Event κ}
    (member : event ∈ (l.resume result).2.1) : ∃ notice, event = .logged notice := by
  rw [resume.eq_def] at member
  split at member
  · dsimp only at member
    split at member
    · cases member
    · rw [(rearmPoll_engine _).2] at member
      cases member
    · dsimp only at member
      rw [(rearmPoll_engine _).2] at member
      exact ⟨_, List.mem_singleton.mp member⟩
  · dsimp only at member
    rw [Engine.resume.eq_def] at member
    split at member
    · obtain ⟨notice, -, rfl⟩ := List.mem_map.mp member
      exact ⟨notice, rfl⟩
    · cases member

/-! ## Failures -/

/-- A failed request is logged, and the loop goes on. -/
theorem execute_of_failed {request : Request κ} {error : FaceError}
    (failed : (l.engine.request request).2.1 = .failed error) :
    (∃ notice, failure request error = some notice ∧
      .logged notice ∈ (l.execute (.request request)).2.1) ∧
      (l.execute (.request request)).2.2 = .worked := by
  obtain ⟨notice, recorded⟩ := Engine.failure_of_failed failed
  rcases outcome : l.engine.request request with ⟨engine, result, events⟩
  rw [outcome] at failed
  obtain rfl : result = .failed error := failed
  simp only [execute, outcome, recorded]
  exact ⟨⟨notice, rfl, List.mem_append_right _ List.mem_cons_self⟩, trivial⟩

/-- So is a registration that the transport refuses. -/
theorem execute_of_refused (id : EntryId) {root : Name} (onInterest : Option κ) (onFailed : κ)
    {options : RegistrationOptions} {cause : TransportError}
    (refused : (Transport.register l.engine.transport root options).1 = .error cause) :
    .logged (.registrationFailed root cause) ∈
        (l.execute (.request (.register id root onInterest onFailed options))).2.1 ∧
      (l.execute (.request (.register id root onInterest onFailed options))).2.2 = .worked := by
  obtain ⟨done, logged⟩ := Engine.register_of_refused id onInterest onFailed refused
  rcases outcome : l.engine.register id root onInterest onFailed options with
    ⟨engine, result, events⟩
  rw [outcome] at done logged
  obtain rfl : result = .done := done
  simp only [execute, Engine.request, outcome]
  exact ⟨logged, trivial⟩

end EventLoop

namespace LoopSystem

open EventLoop (Tidy)

variable {κ τ : Type} [Transport τ]
variable {config : FaceConfig} {format : WireFormat} {transport : τ} {host : Host}
variable {start s : LoopSystem κ τ} {stage : Stage κ τ} {stages past future : List (Stage κ τ)}

omit [Transport τ] in
/-- The node of a loop that has just been made has done nothing yet. -/
theorem fresh_of_open? (opened : open? config format transport host = some start) :
    start.loop.engine.Fresh ∧ ∀ call, ¬ start.loop.engine.Armed call := by
  obtain ⟨deadline, rfl⟩ := eq_of_open? opened
  refine ⟨⟨rfl, rfl, rfl, rfl, ?_⟩, ?_⟩
  · rintro entry ⟨armed, member, -⟩
    cases member
  · rintro call (⟨armed, member, -⟩ | running)
    · cases member
    · cases running

/-- Every run of a loop and its faces is a run of its node. -/
theorem Run.simulates (opened : open? config format transport host = some start)
    (run : start.Run stages s) :
    Simulates start.loop.engine (stages.flatMap nodeStages) s ∧
      Stage.seen (stages.flatMap nodeStages) = (Stage.seen stages).filter Event.ofNode := by
  have nothing := (fresh_of_open? opened).2
  apply run.invariant
  · obtain ⟨deadline, rfl⟩ := eq_of_open? opened
    refine ⟨⟨.start, .inl (Tidy.own_of_rest rfl), ?_⟩, rfl⟩
    intro t member call node
    rw [List.mem_singleton.mp member] at node
    cases node
  · intro past stage _ step holds
    obtain ⟨simulates, seen⟩ := holds
    obtain ⟨later, shown⟩ := simulates.step nothing step
    rw [List.flatMap_append, List.flatMap_singleton, Stage.seen_append, Stage.seen_concat,
      List.filter_append, seen, shown]
    exact ⟨later, rfl⟩

/-- Of the operations of the node that a stage starts at rest, only that of the command is asked for. -/
theorem started_of_step (step : stage.before.Step stage.move stage.events stage.after) :
    ((nodeStages stage).filterMap Engine.started?).filter (fun operation => !operation.unasked) =
      (taken? stage).toList.filterMap Command.operation? := by
  obtain ⟨before, move, events, after⟩ := stage
  change before.Step move events after at step
  cases step with
  | queue | lower | announce | leave | begin | overflow | pause | destroy => rfl
  | @turn pick running rest lawful =>
    simp only [nodeStages, taken?, settled?]
    cases collected : before.loop.armNodeCalls? with
    | none => rfl
    | some loop =>
      have still : loop.engine.plain.frames = [] := by
        rw [EventLoop.engine_of_armNodeCalls? collected]
        simp [EventLoop.collected, Engine.plain, rest]
      have drift : Engine.started? ⟨before.loop.engine.plain, .drift, [], loop.engine.plain⟩ =
          none := Engine.started?_eq_none (by simp)
      have asked := loop.operation?_asked (loop.choose pick)
      simp only [Option.map, Option.bind]
      rw [List.filterMap_cons_none drift]
      cases started : loop.operation? (loop.choose pick) with
      | none =>
        rw [started] at asked
        exact asked
      | some operation =>
        rw [started] at asked
        simpa [Engine.started?, still] using asked
  | resume =>
    simp only [nodeStages]
    split
    · rw [List.filterMap_cons_none (Engine.started?_eq_none (by simp))]
      rfl
    · rfl
  | @perform call operation running inside handed public' =>
    have busy : before.loop.engine.plain.frames ≠ [] := by
      obtain ⟨outer, frames⟩ := Engine.frames_of_current? inside
      simp [Engine.plain, frames, Frame.ofNode, Call.ofNode_of_handsNode handed]
    simp only [nodeStages]
    rw [List.filterMap_cons_none (Engine.started?_eq_none fun _ rest => absurd rest busy)]
    rfl
  | advance | drift =>
    simp only [nodeStages]
    rw [List.filterMap_cons_none (Engine.started?_eq_none (by simp))]
    rfl

/-- Only a command that asks is answered, when it is executed. -/
theorem Simulates.answered_iff {start : Engine κ Outbox τ}
    {nodes : List (Engine.Stage κ Outbox τ)} {ticket : Option Nat} {answer : Answer}
    (simulates : Simulates start nodes stage.before)
    (step : stage.before.Step stage.move stage.events stage.after) :
    .answered ticket answer ∈ stage.events ↔
      taken? stage = some (.flush ticket) ∧ answer = .flushed ∨
        taken? stage = some (.countPending ticket) ∧
          answer = .pending stage.before.loop.engine.node.pending.entries.length := by
  obtain ⟨before, move, events, after⟩ := stage
  change Simulates start nodes before at simulates
  change before.Step move events after at step
  cases step with
  | queue | lower | announce | leave | begin | overflow | pause | destroy | drift =>
    simp [taken?, settled?]
  | @turn pick running rest lawful =>
    simp only [taken?, settled?]
    cases collected : before.loop.armNodeCalls? with
    | none => simp [EventLoop.turnBy_of_none collected]
    | some loop =>
      have engine := EventLoop.engine_of_armNodeCalls? collected
      have own := EventLoop.own_of_armNodeCalls? collected rest
      have table : loop.engine.node.pending = before.loop.engine.node.pending := by
        rw [engine]
        rfl
      rw [EventLoop.turnBy_of_some collected]
      simp only [Option.map_some, Option.bind_some]
      cases loop.choose pick with
      | command command queue =>
        rw [← table]
        simp only [EventLoop.carryOut, EventLoop.Choice.command?, Option.some.injEq]
        exact EventLoop.answered_execute (l := { loop with channel := { loop.channel with queue } })
          own command
      | timer task timers =>
        simp only [EventLoop.carryOut, EventLoop.Choice.command?, reduceCtorEq, false_and, or_self,
          iff_false]
        exact EventLoop.not_answered_runTask (l := { loop with timers }) own task
      | close | wait | idle => simp [EventLoop.Choice.command?, EventLoop.carryOut]
  | advance running advanced =>
    have own := simulates.tidy.own_of_advance advanced
    have silent : .answered ticket answer ∉ events :=
      (Engine.advance_owns own advanced).not_answered
    simpa [taken?, settled?] using silent
  | @resume call result running inside =>
    have silent : .answered ticket answer ∉ (before.loop.resume result).2.1 := by
      intro member
      obtain ⟨notice, same⟩ := EventLoop.logged_of_resume member
      cases same
    simpa [taken?, settled?] using silent
  | @perform call operation running inside handed =>
    have own := simulates.tidy.own_of_mine inside (Call.ofNode_of_handsNode handed)
    have silent : .answered ticket answer ∉ (before.loop.engine.perform operation).2.2 :=
      (Engine.perform_owns own operation).not_answered
    simpa [taken?, settled?] using silent

/-- What a run of a loop and its faces comes to. -/
structure Refined (start : LoopSystem κ τ) (stages : List (Stage κ τ)) (s : LoopSystem κ τ) :
    Prop where
  /-- Commands are executed in the order they were queued in, each once. -/
  ordered : executed stages <+: queued stages
  /-- Those not executed still wait, as long as the loop exists. -/
  waiting : s.loop.channel.hasLoop = true →
    queued stages = executed stages ++ s.loop.channel.queue
  /-- When a command is taken, those queued before it have been executed, and those queued after it
  wait. -/
  taken : ∀ past stage future command, stages = past ++ stage :: future →
    taken? stage = some command →
    queued past = executed past ++ command :: stage.after.loop.channel.queue
  /-- Behind a shutdown, commands are executed only if the loop is run again. -/
  rerun : ∀ past first mid later future command,
    stages = past ++ first :: mid ++ later :: future → taken? first = some .shutdown →
    taken? later = some command → ∃ stage ∈ mid, stage.move = .begin
  /-- The run is one of the node, which had done nothing yet. -/
  fresh : start.loop.engine.Fresh
  node : start.loop.engine.Run (stages.flatMap nodeStages) s.loop.engine.plain
  /-- It shows the same, apart from what the loop shows of its own. -/
  seen : Stage.seen (stages.flatMap nodeStages) = (Stage.seen stages).filter Event.ofNode
  /-- The node does what the executed commands ask for, in this order. -/
  asked : ((stages.flatMap nodeStages).filterMap Engine.started?).filter
      (fun operation => !operation.unasked) = (executed stages).filterMap Command.operation?
  /-- Other than that it processes events, and calls that it armed itself are run. -/
  armed : ∀ past stage future call, stages.flatMap nodeStages = past ++ stage :: future →
    stage.move = .perform (.run call) → ∃ delay, .armed delay call ∈ Stage.seen past
  /-- Only a command that asks is answered, when it is executed; the answer to a count is the length
  of the table then. -/
  answered_iff : ∀ past stage future ticket answer, stages = past ++ stage :: future →
    (.answered ticket answer ∈ stage.events ↔
      taken? stage = some (.flush ticket) ∧ answer = .flushed ∨
        taken? stage = some (.countPending ticket) ∧
          answer = .pending stage.before.loop.engine.node.pending.entries.length)
  /-- A request that fails is logged, and the loop goes on with the commands behind it. -/
  failed : ∀ past stage future loop request queue error, stages = past ++ stage :: future →
    settled? stage = some (loop, .command (.request request) queue) →
    (loop.engine.request request).2.1 = .failed error →
    (∃ notice, EventLoop.failure request error = some notice ∧ .logged notice ∈ stage.events) ∧
      stage.after.phase = .running ∧ stage.after.loop.channel.queue = queue
  /-- So it does when the transport refuses a registration. -/
  refused : ∀ past stage future loop id root onInterest onFailed options queue cause,
    stages = past ++ stage :: future →
    settled? stage =
      some (loop, .command (.request (.register id root onInterest onFailed options)) queue) →
    (Transport.register loop.engine.transport root options).1 = .error cause →
    .logged (.registrationFailed root cause) ∈ stage.events ∧
      stage.after.phase = .running ∧ stage.after.loop.channel.queue = queue

/-- What comes of a command is what the loop made of it. -/
theorem Settles.command {loop : EventLoop κ τ} {command : Command κ} {queue : List (Command κ)}
    (settles : Settles stage loop (.command command queue)) :
    stage.after.loop.channel.queue = queue ∧
      stage.before.loop.channel.queue = command :: queue ∧
      stage.after.phase = Turn.phase
        (({ loop with channel := { loop.channel with queue } } : EventLoop κ τ).execute command).2.2 := by
  have same := EventLoop.sameQueue_of_armNodeCalls? settles.armed
  obtain ⟨pick, -, chosen⟩ := settles.chosen
  have ran := EventLoop.execute_keeps
    { loop with channel := { loop.channel with queue } } command
  refine ⟨?_, ?_, ?_⟩
  · rw [settles.after]
    exact ran.queue
  · rw [← same.queue]
    exact (EventLoop.queue_of_command chosen).2
  · rw [settles.after]
    rfl

/-- The commands that a run executes are what its node is asked for. -/
theorem Run.asked (run : start.Run stages s) :
    ((stages.flatMap nodeStages).filterMap Engine.started?).filter
      (fun operation => !operation.unasked) = (executed stages).filterMap Command.operation? := by
  apply run.invariant
  · rfl
  · intro past stage _ step holds
    rw [List.flatMap_append, List.flatMap_singleton, List.filterMap_append, List.filter_append,
      executed_concat, List.filterMap_append, holds, started_of_step step]

/-- **A loop refines its node.** Whatever a loop and its faces do, in whatever order, the executed
commands are the first of those queued, and the run is one of the node alone in which they are carried
out in this order. -/
theorem loop_refines_node (opened : open? config format transport host = some start)
    (run : start.Run stages s) : Refined start stages s := by
  have orderly := Run.orderly opened run
  obtain ⟨simulates, seen⟩ := Run.simulates opened run
  obtain ⟨lost, split, kept⟩ := orderly.fifo
  constructor
  case ordered =>
    rw [split, List.append_assoc]
    exact List.prefix_append ..
  case waiting =>
    intro there
    rw [split, kept there, List.append_nil]
  case taken =>
    rintro past stage future command rfl taken
    obtain ⟨upTo, step⟩ := run.at_stage
    obtain ⟨loop, queue, settles⟩ := settles_of_taken? step taken
    obtain ⟨after, before, -⟩ := settles.command
    have orderly := Run.orderly opened upTo
    obtain ⟨lost, split, kept⟩ := orderly.fifo
    rw [split, kept (orderly.hasLoop_of_running settles.running), before, after, List.append_nil]
  case rerun =>
    rintro past first mid later future command rfl shut taken
    exact run.begin_after_shutdown shut taken
  case fresh => exact (fresh_of_open? opened).1
  case node => exact simulates.run
  case seen => exact seen
  case asked => exact run.asked
  case armed =>
    intro past stage future call split move
    have nodes := simulates.run
    rw [split] at nodes
    rcases nodes.at_stage.2.2 call move with held | armed
    · exact absurd (.inl held) ((fresh_of_open? opened).2 call)
    · exact armed
  case answered_iff =>
    rintro past stage future ticket answer rfl
    obtain ⟨upTo, step⟩ := run.at_stage
    exact (Run.simulates opened upTo).1.answered_iff step
  case failed =>
    rintro past stage future loop request queue error rfl settled failed
    have settles := settles_of_settled? run.at_stage.2 settled
    obtain ⟨after, -, phase⟩ := settles.command
    obtain ⟨logged, worked⟩ := EventLoop.execute_of_failed
      (l := { loop with channel := { loop.channel with queue } }) failed
    rw [settles.events, phase, worked]
    exact ⟨logged, rfl, after⟩
  case refused =>
    rintro past stage future loop id root onInterest onFailed options queue cause rfl settled refused
    have settles := settles_of_settled? run.at_stage.2 settled
    obtain ⟨after, -, phase⟩ := settles.command
    obtain ⟨logged, worked⟩ := EventLoop.execute_of_refused
      (l := { loop with channel := { loop.channel with queue } }) id onInterest onFailed refused
    rw [settles.events, phase, worked]
    exact ⟨logged, rfl, after⟩

/-- A loop at rest on a host where nothing has happened. -/
def atRest : LoopSystem Unit Sink where
  loop := {
    engine := {
      node := { config := {}, format := Engine.untouched.node.format, scheduler := {} }
      transport := {}
      host := Engine.untouched.host }
    timers := [{ deadline := ⟨0⟩, task := .processEvents }] }

/-- A face that expresses an interest and then asks for the count is told that one is pending. -/
theorem count_behind_an_interest :
    ∃ (stages : List (Stage Unit Sink)) (s : LoopSystem Unit Sink),
      open? {} Engine.untouched.node.format {} Engine.untouched.host = some atRest ∧
      atRest.Run stages s ∧ (executed stages).length = 2 ∧
      .answered (some 7) (.pending 1) ∈ Stage.seen stages ∧ Refined atRest stages s := by
  have opened : open? {} Engine.untouched.node.format {} Engine.untouched.host = some atRest := rfl
  have begins : atRest.Run [] atRest := .start
  have asked := begins.extend <| show atRest.Step
    (.queue (.request (.express .first { name := ⟨[]⟩ } () none))) [] _ from .queue (by simp) rfl
  have counted := asked.extend <| show LoopSystem.Step _ (.queue (.countPending (some 7))) [] _ from
    .queue (by simp) rfl
  have running := counted.extend (.begin rfl rfl)
  have expressed := running.extend (.turn rfl rfl lawfulPick_takeFirst)
  have answered := expressed.extend (.turn rfl rfl lawfulPick_takeFirst)
  exact ⟨_, _, opened, answered, rfl, List.mem_of_getLast? rfl, loop_refines_node opened answered⟩

end LoopSystem

end NamedData
