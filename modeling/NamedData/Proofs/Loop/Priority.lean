import NamedData.Proofs.Loop.Refinement

/-!
Commands before timers.

A loop runs nothing of a timer while a command waits. So when an interest is taken from the queue while
the command to remove it waits there, only commands are executed until the entry is out of the table
(`LoopSystem.Doomed`), and it is never called on (`LoopSystem.commands_go_first`).
-/
namespace NamedData

namespace Engine

variable {κ τ : Type} {σ : Type → Type} [Scheduler σ] [Transport τ]
variable {e : Engine κ σ τ} {entry : PendingInterest κ}

/-- Nothing is unfinished, except that the callback of a refused registration may run. -/
def Quiet (e : Engine κ σ τ) : Prop :=
  ∀ frame ∈ e.frames, ∃ callback root, frame = .inside (.registerFailed callback root)

/-- An entry is in the table, and nothing is unfinished. -/
structure Spares (entry : PendingInterest κ) (after : Engine κ σ τ) : Prop where
  waits : entry ∈ after.node.pending.entries
  quiet : after.Quiet

theorem express_entries (e : Engine κ σ τ) (id : EntryId) (interest : Interest) (onData : κ)
    (onTimeout : Option κ) :
    (e.express id interest onData onTimeout).1.node.pending.entries =
      e.node.pending.entries ++ (e.expressed? id interest onData onTimeout).toList := by
  rcases completed : interest.completed e.node.config e.host with ⟨sent, lifetime, host⟩
  simp only [expressed?, express, completed]
  cases e.encode (.interest sent) with
  | error error => simp
  | ok element =>
    dsimp only
    split <;> rfl

/-- When nothing is put into the table, expressing the interest has failed. -/
theorem failed_of_expressed? {id : EntryId} {interest : Interest} {onData : κ}
    {onTimeout : Option κ} (none : e.expressed? id interest onData onTimeout = none) :
    ∃ error, (e.express id interest onData onTimeout).2.1 = .failed error := by
  rcases completed : interest.completed e.node.config e.host with ⟨sent, lifetime, host⟩
  simp only [expressed?, completed] at none
  simp only [express, completed]
  cases encoded : e.encode (.interest sent) with
  | error error => exact ⟨error, rfl⟩
  | ok element =>
    rw [encoded] at none
    cases none

omit [Scheduler σ] [Transport τ] in
theorem of_expressed? {id : EntryId} {interest : Interest} {onData : κ} {onTimeout : Option κ}
    (added : e.expressed? id interest onData onTimeout = some entry) :
    entry.id = id ∧ entry.interest.name = interest.name ∧ entry.onData = onData ∧
      entry.onTimeout = onTimeout := by
  have name : (interest.completed e.node.config e.host).1.name = interest.name := by
    rw [Interest.completed]
    cases interest.nonce <;> rfl
  simp only [expressed?] at added
  split at added
  · cases added
    exact ⟨rfl, name, rfl, rfl⟩
  · cases added

theorem Quiet.express (quiet : e.Quiet) (id : EntryId) (interest : Interest) (onData : κ)
    (onTimeout : Option κ) : (e.express id interest onData onTimeout).1.Quiet := by
  rcases completed : interest.completed e.node.config e.host with ⟨sent, lifetime, host⟩
  simp only [Engine.express, completed]
  cases e.encode (.interest sent) with
  | error error => exact quiet
  | ok element =>
    dsimp only
    split
    · simp [Quiet, collapse]
    · exact quiet

omit [Scheduler σ] in
theorem Quiet.register (quiet : e.Quiet) (id : EntryId) (root : Name) (onInterest : Option κ)
    (onFailed : κ) (options : RegistrationOptions) :
    (e.register id root onInterest onFailed options).1.Quiet := by
  rcases answered : Transport.register e.transport root options with ⟨_ | _, transport⟩ <;>
    cases onInterest <;> simp only [Engine.register, answered, invoke]
  case error.none | error.some =>
    intro frame member
    rcases List.mem_cons.mp member with rfl | member
    · exact ⟨onFailed, root, rfl⟩
    · exact quiet frame member
  case ok.none | ok.some => exact quiet

/-- Only a request to remove an entry takes it out of the table. -/
theorem Spares.request (spares : Spares entry e) (request : Request κ)
    (other : request ≠ .removePending entry.id) : Spares entry (e.request request).1 := by
  obtain ⟨waits, quiet⟩ := spares
  cases request with
  | express id interest onData onTimeout =>
    refine ⟨?_, quiet.express id interest onData onTimeout⟩
    rw [Engine.request, express_entries]
    exact List.mem_append_left _ waits
  | register id root onInterest onFailed options =>
    refine ⟨?_, quiet.register id root onInterest onFailed options⟩
    have table : (e.register id root onInterest onFailed options).1.node.pending =
        e.node.pending := by
      rcases answered : Transport.register e.transport root options with ⟨_ | _, transport⟩ <;>
        cases onInterest <;> simp only [Engine.register, answered, invoke] <;> rfl
    rw [Engine.request, table]
    exact waits
  | removePending id =>
    refine ⟨?_, quiet⟩
    have kept : (!entry.id == id) = true := by
      rw [Bool.not_eq_true', beq_eq_false_iff_ne]
      rintro rfl
      exact other rfl
    exact List.mem_filter.mpr ⟨waits, kept⟩
  | removeRegistered | setFilter | unsetFilter => exact ⟨waits, quiet⟩
  | putData data =>
    simp only [Engine.request]
    cases e.encode (.data data) <;> exact ⟨waits, quiet⟩
  | send element =>
    simp only [Engine.request]
    split <;> exact ⟨waits, quiet⟩

omit [Scheduler σ] [Transport τ] in
theorem Spares.resume (spares : Spares entry e) (result : CallbackResult) :
    Spares entry (e.resume result).1 := by
  rw [Engine.resume.eq_def]
  split
  · next call outer frames =>
    refine ⟨spares.waits, ?_⟩
    intro frame member
    apply spares.quiet frame
    rw [frames]
    exact List.mem_cons_of_mem _ member
  · exact spares

end Engine

/-- What a loop shows of its own resolves no entry. -/
theorem invocations_ofNode {κ : Type} (handle : Nat) (events : List (Event κ)) :
    invocations handle (events.filter Event.ofNode) = invocations handle events := by
  have same : resolutions (events.filter Event.ofNode) = resolutions events := by
    rw [resolutions, List.filterMap_filter]
    congr 1
    funext event
    cases event with
    | called call => cases call <;> rfl
    | logged notice => exact ite_self _
    | sent | registering | closed | armed | answered => rfl
  rw [invocations, same, invocations]

/-- Only two commands take an entry out of the table. -/
theorem EventLoop.execute_spares {κ τ : Type} [Transport τ] {l : EventLoop κ τ}
    {entry : PendingInterest κ} (own : l.engine.Own) (spares : Engine.Spares entry l.engine)
    (command : Command κ) (other : command ≠ .request (.removePending entry.id))
    (stays : command ≠ .shutdown) : Engine.Spares entry (l.execute command).1.engine := by
  cases command with
  | request request =>
    rw [(execute_request own request).1]
    apply spares.request
    rintro rfl
    exact other rfl
  | callLater delay callback =>
    simp only [execute]
    split
    · exact spares
    · next armed =>
      obtain ⟨deadline, rfl⟩ := eq_of_arm? armed
      exact spares
  | shutdown => exact absurd rfl stays
  | stopWhen | countPending | flush => exact spares

namespace LoopSystem

variable {κ τ : Type} [Transport τ]
variable {config : FaceConfig} {format : WireFormat} {transport : τ} {host : Host}
variable {start s : LoopSystem κ τ} {stage : Stage κ τ} {stages past future : List (Stage κ τ)}
variable {entry : PendingInterest κ}

/-! ## Entries that are to be removed -/

/-- An entry waits in the table, and the command to remove it waits in the queue. -/
structure Doomed (entry : PendingInterest κ) (s : LoopSystem κ τ) : Prop
    extends Engine.Spares entry s.loop.engine where
  asked : .request (.removePending entry.id) ∈ s.loop.channel.queue

/-- A stage in which an entry is taken out of the table by a command. -/
structure Withdraws (entry : PendingInterest κ) (stage : Stage κ τ) : Prop where
  waits : entry ∈ stage.before.loop.engine.node.pending.entries
  taken : taken? stage = some (.request (.removePending entry.id)) ∨ taken? stage = some .shutdown

omit [Transport τ] in
theorem Doomed.handOff (doomed : Doomed entry s) (command : Command κ) :
    Doomed entry (s.handOff command) := by
  rw [LoopSystem.handOff]
  split
  · next channel handed =>
    rw [Channel.handOff] at handed
    split at handed
    · cases handed
      exact ⟨⟨doomed.waits, doomed.quiet⟩, List.mem_append_left _ doomed.asked⟩
    · cases handed
  · exact doomed

/-- A turn takes a command, as long as the command to remove the entry waits. -/
theorem Doomed.turn {pick : List (Timer κ) → Option (Timer κ × List (Timer κ))}
    (orderly : Orderly past stage.before) (doomed : Doomed entry stage.before)
    (move : stage.move = .turn pick) (rest : stage.before.loop.engine.frames = [])
    (events : stage.events = (stage.before.loop.turnBy pick).2.1)
    (after : stage.after = stage.before.settle (stage.before.loop.turnBy pick)) :
    Withdraws entry stage ∨ Doomed entry stage.after ∨
      stage.after.phase = .dead ∧ stage.events = [] := by
  cases collected : stage.before.loop.armNodeCalls? with
  | none =>
    rw [EventLoop.turnBy_of_none collected] at events after
    rw [after]
    exact .inr (.inr ⟨rfl, events⟩)
  | some loop =>
    have same := EventLoop.sameQueue_of_armNodeCalls? collected
    have waiting := doomed.asked
    rw [← same.queue] at waiting
    have opened : loop.commandsOpen = true := by
      rw [same.commandsOpen, ← Bool.not_eq_false]
      intro shut
      rw [same.queue, (orderly.closed shut).2] at waiting
      cases waiting
    cases chosen : loop.choose pick with
    | command command queue =>
      have taken : taken? stage = some command := by
        simp only [taken?, settled?, move, collected, Option.map_some, Option.bind_some, chosen]
        rfl
      by_cases removes : command = .request (.removePending entry.id)
      · exact .inl ⟨doomed.waits, .inl (removes ▸ taken)⟩
      by_cases shuts : command = .shutdown
      · exact .inl ⟨doomed.waits, .inr (shuts ▸ taken)⟩
      rw [EventLoop.turnBy_of_some collected, chosen] at after
      rw [(EventLoop.queue_of_command chosen).2] at waiting
      have ran := EventLoop.execute_keeps
        { loop with channel := { loop.channel with queue } } command
      have own := EventLoop.own_of_armNodeCalls? collected rest
      have spares : Engine.Spares entry loop.engine := by
        rw [EventLoop.engine_of_armNodeCalls? collected]
        exact ⟨doomed.waits, doomed.quiet⟩
      have spared := EventLoop.execute_spares
        (l := { loop with channel := { loop.channel with queue } }) own spares command removes shuts
      refine .inr (.inl ?_)
      rw [after]
      refine ⟨spared, ?_⟩
      change _ ∈ (EventLoop.execute _ command).1.channel.queue
      rw [ran.queue]
      exact (List.mem_cons.mp waiting).resolve_left (Ne.symm removes)
    | close | timer | wait | idle =>
      rw [EventLoop.queue_eq_nil chosen (by simp) opened] at waiting
      cases waiting

/-- Nothing happens to a loop that is gone. -/
theorem Step.of_dead {after : LoopSystem κ τ} {move : LoopMove κ} {events : List (Event κ)}
    (step : s.Step move events after) (dead : s.phase = .dead) :
    after.phase = .dead ∧ events = [] := by
  cases step with
  | queue | announce =>
    obtain ⟨channel, same⟩ := handOff_eq s _
    rw [same]
    exact ⟨dead, rfl⟩
  | lower | leave | drift => exact ⟨dead, rfl⟩
  | begin parked | overflow parked => exact absurd (dead.symm.trans parked) (by decide)
  | turn running | advance running | resume running | perform running | pause running =>
    exact absurd (dead.symm.trans running) (by decide)
  | destroy => exact ⟨rfl, rfl⟩

/-- Until the entry is withdrawn it stays in the table, unless the loop goes. -/
theorem Doomed.step (orderly : Orderly past stage.before) (doomed : Doomed entry stage.before)
    (step : stage.before.Step stage.move stage.events stage.after) :
    Withdraws entry stage ∨ Doomed entry stage.after ∨
      stage.after.phase = .dead ∧ stage.events = [] := by
  obtain ⟨before, move, events, after⟩ := stage
  change Doomed entry before at doomed
  change before.Step move events after at step
  cases step with
  | queue => exact .inr (.inl (doomed.handOff _))
  | announce =>
    have kept := doomed.handOff .shutdown
    exact .inr (.inl ⟨⟨kept.waits, kept.quiet⟩, kept.asked⟩)
  | lower | leave | pause | drift => exact .inr (.inl ⟨⟨doomed.waits, doomed.quiet⟩, doomed.asked⟩)
  | begin parked begun =>
    have spares := doomed.toSpares
    have asked := doomed.asked
    rw [← EventLoop.engine_of_begin? begun] at spares
    rw [← (EventLoop.begin?_keeps begun).queue] at asked
    exact .inr (.inl ⟨spares, asked⟩)
  | overflow => exact .inr (.inr ⟨rfl, rfl⟩)
  | turn running rest lawful => exact doomed.turn orderly rfl rest rfl rfl
  | advance running advanced =>
    rw [Engine.advance.eq_def] at advanced
    cases frames : before.loop.engine.frames with
    | nil =>
      rw [frames] at advanced
      cases advanced
    | cons frame outer =>
      obtain ⟨callback, root, rfl⟩ := doomed.quiet frame (by simp [frames])
      rw [frames] at advanced
      cases advanced
  | @resume call result running inside =>
    obtain ⟨outer, frames⟩ := Engine.frames_of_current? inside
    obtain ⟨callback, root, same⟩ := doomed.quiet (.inside call) (by simp [frames])
    cases same
    have returned := EventLoop.resume_of_mine inside rfl result
    rw [returned]
    exact .inr (.inl ⟨doomed.toSpares.resume _, doomed.asked⟩)
  | @perform call operation running inside handed =>
    obtain ⟨outer, frames⟩ := Engine.frames_of_current? inside
    obtain ⟨callback, root, same⟩ := doomed.quiet (.inside call) (by simp [frames])
    cases same
    cases handed
  | destroy => exact .inr (.inr ⟨rfl, rfl⟩)

/-- What is called on entries is called by the node. -/
theorem Run.invocations_eq (opened : open? config format transport host = some start)
    (run : start.Run stages s) (handle : Nat) :
    invocations handle (Stage.seen stages) =
      invocations handle (Stage.seen (stages.flatMap nodeStages)) := by
  rw [(Run.simulates opened run).2, invocations_ofNode]

theorem Run.silent_of_waiting (opened : open? config format transport host = some start)
    (run : start.Run stages s) (waits : entry ∈ s.loop.engine.node.pending.entries) :
    invocations entry.handle (Stage.seen stages) = 0 := by
  have nodes := (Run.simulates opened run).1.run
  rw [Run.invocations_eq opened run]
  exact Engine.Run.silent_of_waiting (fresh_of_open? opened).1 nodes waits

/-- The operation that a command asks for is what the node does in the stage that takes it. -/
theorem nodeStages_of_taken {command : Command κ} {operation : Operation κ}
    (step : stage.before.Step stage.move stage.events stage.after)
    (taken : taken? stage = some command) (asks : command.operation? = some operation) :
    ∃ drift perform, nodeStages stage = [drift, perform] ∧ perform.move = .perform operation ∧
      perform.before.node.pending = stage.before.loop.engine.node.pending := by
  obtain ⟨⟨loop, choice⟩, settled, same⟩ := Option.bind_eq_some_iff.mp taken
  have engine := EventLoop.engine_of_armNodeCalls? (settles_of_settled? step settled).armed
  cases choice with
  | command asked queue =>
    cases same
    cases move : stage.move with
    | turn pick =>
      simp only [nodeStages, move, settled, EventLoop.operation?, asks]
      refine ⟨_, _, rfl, rfl, ?_⟩
      change loop.engine.node.pending = _
      rw [engine]
      rfl
    | queue | lower | announce | leave | begin | advance | resume | perform | pause | destroy
    | drift =>
      rw [settled?, move] at settled
      cases settled
  | close | timer | wait | idle => cases same

/-- Nothing is ever called on an entry that a command takes out of the table. -/
theorem Run.never_of_withdrawn (opened : open? config format transport host = some start)
    (run : start.Run (past ++ stage :: future) s) (withdraws : Withdraws entry stage) :
    invocations entry.handle (Stage.seen (past ++ stage :: future)) = 0 := by
  have asks : ∃ drift perform, nodeStages stage = [drift, perform] ∧
      Engine.withdraws entry perform.move ∧
      perform.before.node.pending = stage.before.loop.engine.node.pending := by
    have step := run.at_stage.2
    rcases withdraws.taken with taken | taken
    · obtain ⟨drift, perform, split, move, table⟩ := nodeStages_of_taken step taken rfl
      exact ⟨drift, perform, split, .inl move, table⟩
    · obtain ⟨drift, perform, split, move, table⟩ := nodeStages_of_taken step taken rfl
      exact ⟨drift, perform, split, .inr move, table⟩
  obtain ⟨drift, perform, split, withdrawn, table⟩ := asks
  have nodes := (Run.simulates opened run).1.run
  have parts : (past ++ stage :: future).flatMap nodeStages =
      (past.flatMap nodeStages ++ [drift]) ++ perform :: future.flatMap nodeStages := by
    simp [split]
  rw [Run.invocations_eq opened run, parts]
  rw [parts] at nodes
  exact Engine.Run.never_of_withdrawn (fresh_of_open? opened).1 nodes (table ▸ withdraws.waits)
    withdrawn

/-- An entry that is doomed at some point of a run is withdrawn later, unless it still waits or the
loop is gone. -/
theorem Run.of_doomed (opened : open? config format transport host = some start)
    (run : start.Run (past ++ future) s) (doomed : ∀ mid, start.Run past mid → Doomed entry mid) :
    (∃ earlier stage later, future = earlier ++ stage :: later ∧ Withdraws entry stage) ∨
      Doomed entry s ∨
      s.phase = .dead ∧ invocations entry.handle (Stage.seen (past ++ future)) = 0 := by
  apply run.since
  · intro mid upTo
    exact .inr (.inl (doomed mid upTo))
  · intro later stage upTo step holds
    rw [← List.append_assoc, Stage.seen_concat]
    rcases holds with ⟨earlier, withdrawing, between, rfl, withdraws⟩ | waits | ⟨gone, silent⟩
    · exact .inl ⟨earlier, withdrawing, between ++ [stage], by simp, withdraws⟩
    · rcases waits.step (Run.orderly opened upTo) step with withdraws | still | ⟨gone, nothing⟩
      · exact .inl ⟨later, stage, [], rfl, withdraws⟩
      · exact .inr (.inl still)
      · rw [nothing, List.append_nil]
        exact .inr (.inr ⟨gone, Run.silent_of_waiting opened upTo waits.waits⟩)
    · obtain ⟨gone, nothing⟩ := step.of_dead gone
      rw [nothing, List.append_nil]
      exact .inr (.inr ⟨gone, silent⟩)

/-- A request that is taken is carried out by the node of the loop. -/
theorem Settles.engine_of_request {loop : EventLoop κ τ} {request : Request κ}
    {queue : List (Command κ)} (settles : Settles stage loop (.command (.request request) queue)) :
    stage.after.loop.engine = (loop.engine.request request).1 := by
  have own := EventLoop.own_of_armNodeCalls? settles.armed settles.rest
  have carried := EventLoop.execute_request
    (l := { loop with channel := { loop.channel with queue } }) own request
  rw [settles.after]
  exact congrArg EventLoop.engine carried.1

/-- Nothing is ever called on an entry that is put into the table while the command to remove it
waits. -/
theorem Run.never_of_doomed (opened : open? config format transport host = some start)
    (run : start.Run (past ++ stage :: future) s) (doomed : Doomed entry stage.after) :
    invocations entry.handle (Stage.seen (past ++ stage :: future)) = 0 := by
  rw [List.append_cons] at run ⊢
  have begins : ∀ mid, start.Run (past ++ [stage]) mid → Doomed entry mid := by
    intro mid upTo
    rw [upTo.of_concat.2.2]
    exact doomed
  rcases run.of_doomed opened begins with ⟨earlier, withdrawing, later, rfl, withdraws⟩ | still | gone
  · rw [← List.append_assoc] at run ⊢
    exact Run.never_of_withdrawn opened run withdraws
  · exact Run.silent_of_waiting opened run still.waits
  · exact gone.2

/-- **Commands go before timers.** A timer is taken only when no command waits. So whatever else is
queued, due or waiting on the transport: when an interest is taken while the command to remove it
waits, the entry that is put into the table, if one is, is never called on. -/
theorem commands_go_first (opened : open? config format transport host = some start)
    (run : start.Run stages s) :
    (∀ past stage future loop task timers, stages = past ++ stage :: future →
      settled? stage = some (loop, .timer task timers) →
      stage.before.loop.channel.queue = []) ∧
    ∀ past stage future id interest onData onTimeout, stages = past ++ stage :: future →
      taken? stage = some (.request (.express id interest onData onTimeout)) →
      .request (.removePending id) ∈ stage.before.loop.channel.queue →
      ∃ added : Option (PendingInterest κ),
        stage.after.loop.engine.node.pending.entries =
          stage.before.loop.engine.node.pending.entries ++ added.toList ∧
        (∀ entry ∈ added, entry.id = id ∧ entry.interest.name = interest.name ∧
          entry.onData = onData ∧ entry.onTimeout = onTimeout ∧
          invocations entry.handle (Stage.seen stages) = 0) ∧
        (added = none → ∃ error, .logged (.expressFailed id error) ∈ stage.events) := by
  refine ⟨?_, ?_⟩
  · rintro past stage future loop task timers rfl settled
    obtain ⟨upTo, step⟩ := run.at_stage
    exact (Run.orderly opened upTo).queue_of_timer (settles_of_settled? step settled)
  · rintro past stage future id interest onData onTimeout rfl taken waiting
    obtain ⟨upTo, step⟩ := run.at_stage
    obtain ⟨loop, queue, settles⟩ := settles_of_taken? step taken
    have collected := EventLoop.engine_of_armNodeCalls? settles.armed
    have engine := settles.engine_of_request
    have table : stage.after.loop.engine.node.pending.entries =
        stage.before.loop.engine.node.pending.entries ++
          (loop.engine.expressed? id interest onData onTimeout).toList := by
      rw [engine, Engine.request, Engine.express_entries, collected]
      rfl
    refine ⟨loop.engine.expressed? id interest onData onTimeout, table, ?_, ?_⟩
    · intro entry added
      obtain ⟨identified, named, data, timeout⟩ := Engine.of_expressed? added
      refine ⟨identified, named, data, timeout, Run.never_of_doomed opened run ⟨⟨?_, ?_⟩, ?_⟩⟩
      · rw [table]
        exact List.mem_append_right _ (Option.mem_toList.mpr added)
      · have quiet : loop.engine.Quiet := by
          rw [Engine.Quiet, collected, EventLoop.collected, settles.rest]
          simp
        rw [engine]
        exact quiet.express id interest onData onTimeout
      · rw [settles.command.2.1] at waiting
        rw [settles.command.1, identified]
        simpa using waiting
    · intro none
      obtain ⟨error, failed⟩ := Engine.failed_of_expressed? none
      change (loop.engine.request (.express id interest onData onTimeout)).2.1 = _ at failed
      obtain ⟨⟨notice, recorded, logged⟩, -⟩ := EventLoop.execute_of_failed
        (l := { loop with channel := { loop.channel with queue } }) failed
      cases recorded
      rw [settles.events]
      exact ⟨error, logged⟩

/-- An interest without a lifetime is removed before the loop runs, and the loop then goes on to its
timers. -/
theorem removed_before_it_times_out :
    ∃ (past future : List (Stage Unit Sink)) (stage : Stage Unit Sink) (s : LoopSystem Unit Sink)
      (entry : PendingInterest Unit),
      open? {} Engine.untouched.node.format {} Engine.untouched.host = some atRest ∧
      atRest.Run (past ++ stage :: future) s ∧
      stage.after.loop.engine.node.pending.entries = [entry] ∧ s.loop.engine.frames.length = 1 ∧
      invocations entry.handle (Stage.seen (past ++ stage :: future)) = 0 := by
  have opened : open? {} Engine.untouched.node.format {} Engine.untouched.host = some atRest := rfl
  have begins : atRest.Run [] atRest := .start
  have asked := begins.extend <| show atRest.Step (.queue (.request
    (.express .first { name := ⟨[]⟩, lifetime := some .zero } () (some ())))) [] _ from
    .queue (by simp) rfl
  have removed := asked.extend <| show LoopSystem.Step _
    (.queue (.request (.removePending .first))) [] _ from .queue (by simp) rfl
  have running := removed.extend (.begin rfl rfl)
  have expressed := running.extend (.turn rfl rfl lawfulPick_takeFirst)
  have withdrawn := expressed.extend (.turn rfl rfl lawfulPick_takeFirst)
  have timed := withdrawn.extend (.turn rfl rfl lawfulPick_takeFirst)
  rw [List.append_assoc, List.append_assoc] at timed
  obtain ⟨added, table, silent, -⟩ := (commands_go_first opened timed).2 _ _ _ _ _ _ _ rfl rfl
    (List.mem_cons_of_mem _ List.mem_cons_self)
  cases added with
  | none => cases table
  | some entry => exact ⟨_, _, _, _, entry, opened, timed, table, rfl, (silent entry rfl).2.2.2.2⟩

end LoopSystem

end NamedData
