import NamedData.Proofs.Loop.Calls
import NamedData.Proofs.Loop.Refinement
import NamedData.Proofs.Node.Operating
import NamedData.Proofs.Node.Overflow

/-!
What brings an event loop down.

A loop adds delays to the time in a turn, when it arms what its node has asked for and when it executes a
command to call back later, and it comes down if the clock cannot show one of the sums
(`LoopSystem.Step.falls_iff`). As long as it does not, everything that waits in the table of its node has a
timeout, with the loop or on the way to it (`LoopSystem.Run.timed`).
-/
namespace NamedData

variable {κ τ : Type}

namespace EventLoop

variable {l after : EventLoop κ τ}

theorem arm?_eq_none_iff {delay : Duration} {task : Task κ} :
    l.arm? delay task = none ↔ l.engine.host.now.add? delay = none := by
  simp [arm?]

/-- Timers are armed for some calls unless a sum is too late for the clock. -/
theorem armCalls?_eq_none_iff {calls : List (Duration × NodeCall κ)} :
    l.armCalls? calls = none ↔ ∃ call ∈ calls, l.engine.host.now.add? call.1 = none := by
  induction calls generalizing l with
  | nil => simp [armCalls?]
  | cons call calls ih =>
    rw [armCalls?, List.exists_mem_cons_iff]
    cases timed : l.arm? call.1 (.node call.2) with
    | none => simp [arm?_eq_none_iff.mp timed]
    | some next =>
      have shown : l.engine.host.now.add? call.1 ≠ none := fun late => by
        rw [arm?_eq_none_iff.mpr late] at timed
        cases timed
      obtain ⟨deadline, rfl⟩ := eq_of_arm? timed
      simp [ih, shown]

theorem armNodeCalls?_eq_none_iff :
    l.armNodeCalls? = none ↔
      ∃ call ∈ l.engine.node.scheduler.calls, l.engine.host.now.add? call.1 = none :=
  armCalls?_eq_none_iff

/-- The services of a loop do not bring it down while there is time enough. -/
theorem begin?_ne_none (early : l.engine.host.now.Early) : l.begin? ≠ none := by
  obtain ⟨now, zero⟩ := Option.ne_none_iff_exists'.mp early.add?_zero_ne_none
  obtain ⟨later, interval⟩ :=
    Option.ne_none_iff_exists'.mp (early.add?_ofMillis_ne_none l.engine.node.config.stopWhenMillis)
  have same : l.engine.host.now.add? l.engine.node.config.stopWhenInterval = some later := interval
  rw [begin?]
  split
  · cases l.stopped <;> simp [arm?, zero, same]
  · rintro ⟨⟩

theorem rearmPoll_ne_collapsed (early : l.engine.host.now.Early) : l.rearmPoll.2.2 = .worked := by
  obtain ⟨later, interval⟩ :=
    Option.ne_none_iff_exists'.mp (early.add?_ofMillis_ne_none l.engine.node.config.stopWhenMillis)
  have same : l.engine.host.now.add? l.engine.node.config.stopWhenInterval = some later := interval
  rw [rearmPoll, arm?, same]
  rfl

theorem resume_phase_ne_dead (early : l.engine.host.now.Early) (result : Except CallbackError Bool) :
    (l.resume result).2.2.phase ≠ .dead := by
  have poll := rearmPoll_ne_collapsed
    (l := { l with engine := { l.engine with frames := l.engine.frames.tail } })
    early
  rw [resume.eq_def]
  split
  · dsimp only
    split
    · rintro ⟨⟩
    · rw [poll]
      rintro ⟨⟩
    · rw [poll]
      rintro ⟨⟩
  · rintro ⟨⟩

variable [Transport τ]

/-- A request of a face is carried out by the node of a loop. -/
theorem execute_request_phase (request : Request κ) : (l.execute (.request request)).2.2.phase ≠ .dead := by
  have returns : (l.engine.request request).2.1 ≠ .collapsed := by
    intro collapsed
    obtain ⟨_, _, _, overflow⟩ :=
      (l.engine.perform_collapsed_iff (.request request)).mp collapsed
    cases overflow
  simp only [execute]
  split
  · rintro ⟨⟩
  · rintro ⟨⟩
  · next collapsed => exact absurd collapsed returns

/-- Of the choices of a loop only a command to call back later can bring it down. -/
theorem carryOut_phase_dead_iff (early : l.engine.host.now.Early) (choice : Choice κ) :
    (l.carryOut choice).2.2.phase = .dead ↔
      ∃ later, choice.command?.bind Command.later? = some later ∧
        l.engine.host.now.add? later.1 = none := by
  cases choice with
  | command command queue =>
    cases command with
    | request request =>
      have alive := execute_request_phase (l := { l with channel := { l.channel with queue } }) request
      simpa [carryOut, Choice.command?, Command.later?] using alive
    | callLater delay callback =>
      simp only [carryOut, execute, arm?, Choice.command?, Option.bind_some, Command.later?]
      cases shown : l.engine.host.now.add? delay <;> simp [shown, Turn.phase]
    | stopWhen | countPending | flush | shutdown =>
      simp [carryOut, execute, Choice.command?, Command.later?, Turn.phase]
  | timer task timers =>
    cases task with
    | processEvents =>
      obtain ⟨later, interval⟩ :=
        Option.ne_none_iff_exists'.mp (early.add?_ofMillis_ne_none l.engine.node.config.processEventsMillis)
      have same : l.engine.host.now.add? l.engine.node.config.processEventsInterval = some later := interval
      simp only [carryOut, runTask, arm?, same, Option.map_some, Choice.command?]
      split <;> simp [Turn.phase]
    | pollPredicate =>
      have poll := rearmPoll_ne_collapsed (l := { l with timers, pollArmed := false }) early
      simp only [carryOut, runTask, Choice.command?]
      split
      · split
        · simp [poll, Turn.phase]
        · simp [Turn.phase]
      · simp [Turn.phase]
    | node | callback => simp [carryOut, runTask, Choice.command?, Turn.phase]
  | close | wait | idle => simp [carryOut, Choice.command?, Turn.phase]

omit [Transport τ] in
/-- An errand that is a call of the node is run by it. -/
theorem operation?_of_errand? {choice : Choice κ} {task : Task κ} {call : NodeCall κ}
    (taken : choice.errand? = some task) (named : task.call? = some call) :
    l.operation? choice = some (.run call) := by
  cases choice with
  | timer other timers =>
    cases other with
    | node =>
      cases taken
      cases named
      rfl
    | callback =>
      cases taken
      cases named
    | processEvents | pollPredicate => cases taken
  | command | close | wait | idle => cases taken

end EventLoop

namespace LoopSystem

variable [Transport τ] {start s : LoopSystem κ τ} {stage : Stage κ τ} {stages : List (Stage κ τ)}
variable {config : FaceConfig} {format : WireFormat} {transport : τ} {host : Host}

/-- A loop comes down in a stage. -/
def Falls (stage : Stage κ τ) : Prop :=
  stage.before.phase ≠ .dead ∧ stage.after.phase = .dead ∧ stage.move ≠ .destroy

/-- The delays that the node has asked for, or a face, and that a loop adds to the time in a stage. -/
def adds (stage : Stage κ τ) : List Duration :=
  match stage.move with
  | .turn _ =>
    stage.before.loop.engine.node.scheduler.calls.map (·.1) ++
      ((taken? stage).bind Command.later?).toList.map (·.1)
  | _ => []

omit [Transport τ] in
theorem handOff_phase (s : LoopSystem κ τ) (command : Command κ) : (s.handOff command).phase = s.phase := by
  obtain ⟨channel, same⟩ := handOff_eq s command
  rw [same]
  rfl

/-- While there is time enough, a loop comes down if a delay that it adds is too long, and only then. -/
theorem Step.falls_iff (step : stage.before.Step stage.move stage.events stage.after)
    (early : stage.before.now.Early) :
    Falls stage ↔ ∃ delay ∈ adds stage, stage.before.now.add? delay = none := by
  obtain ⟨before, move, events, after⟩ := stage
  change before.Step move events after at step
  change before.now.Early at early
  rw [Falls]
  cases step with
  | queue | announce => simp [adds, handOff_phase]
  | lower | leave | perform | advance | drift => simp [adds, withChannel, withEngine]
  | begin | pause | destroy => simp [adds]
  | overflow parked late => exact absurd late (EventLoop.begin?_ne_none early)
  | resume running inside =>
    have alive := EventLoop.resume_phase_ne_dead (l := before.loop) early
    simp [adds, settle, alive]
  | @turn pick running rest lawful =>
    simp only [adds, taken?, settled?, settle]
    cases armed : before.loop.armNodeCalls? with
    | none =>
      rw [EventLoop.turnBy_of_none armed]
      obtain ⟨call, member, late⟩ := EventLoop.armNodeCalls?_eq_none_iff.mp armed
      simp [running, Turn.phase]
      exact ⟨_, ⟨_, member⟩, late⟩
    | some loop =>
      have now : loop.engine.host.now = before.now := by
        rw [EventLoop.engine_of_armNodeCalls? armed]
        rfl
      have shown : ∀ call ∈ before.loop.engine.node.scheduler.calls, before.now.add? call.1 ≠ none := by
        intro call member late
        have none := EventLoop.armNodeCalls?_eq_none_iff.mpr ⟨call, member, late⟩
        rw [armed] at none
        cases none
      have carried := EventLoop.carryOut_phase_dead_iff (now ▸ early) (loop.choose pick)
      rw [now] at carried
      rw [EventLoop.turnBy_of_some armed]
      change (before.phase ≠ .dead ∧ (loop.carryOut _).2.2.phase = .dead ∧ _) ↔ _
      rw [carried]
      simp only [Option.map_some, Option.bind_some, List.mem_append, List.mem_map]
      constructor
      · rintro ⟨-, ⟨later, asked, late⟩, -⟩
        exact ⟨later.1, .inr ⟨later, by rw [asked]; exact List.mem_singleton_self _, rfl⟩, late⟩
      · rintro ⟨_, ⟨call, member, rfl⟩ | ⟨later, asked, rfl⟩, late⟩
        · exact absurd late (shown call member)
        · exact ⟨by simp [running], ⟨later, Option.mem_toList.mp asked, late⟩, by simp⟩

/-! ## The timeouts of the node -/

/-- The timeout of an entry is armed when the entry is made. -/
theorem armed_of_makes {e after : Engine κ Outbox τ} {move : Move κ} {events : List (Event κ)}
    {entry : PendingInterest κ} (step : e.Step move events after) (makes : e.makes? move = some entry) :
    .timeout entry ∈ arms events := by
  have express : ∀ id interest onData onTimeout,
      e.expressed? id interest onData onTimeout = some entry →
        .timeout entry ∈ arms (e.express id interest onData onTimeout).2.2 := by
    intro id interest onData onTimeout makes
    rcases completed : interest.completed e.node.config e.host with ⟨sent, lifetime, host⟩
    simp only [Engine.expressed?, Engine.express, completed] at makes ⊢
    cases encoded : e.encode (.interest sent) with
    | error error =>
      rw [encoded] at makes
      cases makes
    | ok element =>
      rw [encoded] at makes
      cases makes
      exact List.mem_cons_self
  cases move with
  | perform operation =>
    rw [step.perform_eq.2]
    cases operation with
    | request request =>
      cases request with
      | express id interest onData onTimeout => exact express id interest onData onTimeout makes
      | removePending | register | removeRegistered | setFilter | unsetFilter | putData | send => cases makes
    | callLater | processEvents | receive | run | shutdown => cases makes
  | advance | resume | drift => cases makes

/-- Everything that has been put into the table of a node has had a timeout armed for it. -/
theorem armed_of_made {start e : Engine κ Outbox τ} {nodes : List (Engine.Stage κ Outbox τ)}
    {entry : PendingInterest κ} (run : start.Run nodes e) (made : entry ∈ Engine.made nodes) :
    .timeout entry ∈ arms (NamedData.Stage.seen nodes) := by
  obtain ⟨stage, member, makes⟩ := List.mem_filterMap.mp made
  obtain ⟨past, future, rfl⟩ := List.append_of_mem member
  have first := armed_of_makes run.at_stage.2.1 makes
  rw [mem_arms] at first ⊢
  obtain ⟨delay, armed⟩ := first
  exact ⟨delay, List.mem_flatMap.mpr ⟨stage, member, armed⟩⟩

omit [Transport τ] in
/-- A call of its node that a loop runs is run by the node. -/
theorem runs_of_ran {call : NodeCall κ} (member : call ∈ ran stages) :
    ∃ node ∈ stages.flatMap nodeStages, node.move = .perform (.run call) := by
  obtain ⟨⟨before, move, events, after⟩, listed, calls⟩ := List.mem_filterMap.mp member
  obtain ⟨task, errand, named⟩ := Option.bind_eq_some_iff.mp calls
  obtain ⟨⟨loop, choice⟩, settled, taken⟩ := Option.bind_eq_some_iff.mp errand
  have started := EventLoop.operation?_of_errand? (l := loop) taken named
  cases move with
  | turn pick =>
    refine ⟨⟨loop.engine.plain, .perform (.run call), events.filter Event.ofNode, after.loop.engine.plain⟩,
      List.mem_flatMap.mpr ⟨_, listed, ?_⟩, rfl⟩
    simp only [nodeStages, settled, started]
    exact List.mem_cons_of_mem _ (List.mem_singleton_self _)
  | queue | lower | announce | leave | begin | advance | resume | perform | pause | destroy
  | drift => cases settled

/-- Everything that waits in the table of the node of a loop has a timeout. -/
theorem Run.timed {entry : PendingInterest κ} (opened : open? config format transport host = some start)
    (run : start.Run stages s) (clock : Forward stages)
    (waits : entry ∈ s.loop.engine.node.pending.entries) : .timeout entry ∈ s.calls := by
  obtain ⟨simulates, seen⟩ := Run.simulates opened run
  have fresh := (fresh_of_open? opened).1
  have armed : .timeout entry ∈ arms (Stage.seen stages) := by
    have made := (Engine.Run.known fresh simulates.run).waiting entry waits
    have armed := armed_of_made simulates.run made
    rw [seen, mem_arms] at armed
    rw [mem_arms]
    exact armed.imp fun delay member => (List.mem_filter.mp member).1
  have unrun : .timeout entry ∉ ran stages := by
    intro member
    obtain ⟨node, found, moved⟩ := runs_of_ran member
    obtain ⟨past, future, split⟩ := List.append_of_mem found
    have run := simulates.run
    rw [split] at run
    exact Engine.Run.gone_of_timeout fresh run moved entry waits rfl
  have whole : start.Run ([] ++ stages) s := run
  obtain ⟨mid, first, same⟩ := Run.calls_kept opened whole clock
  have kept : .timeout entry ∈ (ran stages : Multiset (NodeCall κ)) + s.calls := by
    rw [same]
    exact Multiset.mem_add.mpr (.inr armed)
  exact (Multiset.mem_add.mp kept).resolve_left unrun

/-- What too long a delay means to a loop. -/
structure Reckons (stages : List (Stage κ τ)) (s : LoopSystem κ τ) : Prop where
  /-- While there is time enough, a loop comes down if a delay is too long that its node or a face has
  asked for, and only then. -/
  falls : ∀ stage ∈ stages, stage.before.now.Early →
    (Falls stage ↔ ∃ delay ∈ adds stage, stage.before.now.add? delay = none)
  /-- As long as it is there, everything that waits in the table of its node has a timeout, on the way to
  the loop or with a timer. -/
  timed : s.phase ≠ .dead → ∀ entry ∈ s.loop.engine.node.pending.entries,
    (∃ delay, (delay, .timeout entry) ∈ s.loop.engine.node.scheduler.calls) ∨
      ∃ timer ∈ s.loop.timers, timer.task = .node (.timeout entry)

end LoopSystem

/-- **Only a delay that the application has chosen can be too long.** In every run of a polled node, and
in every run of a loop and its faces, an operation does not return, or the loop comes down, exactly when
a delay is added that ends beyond what the clock can show; while there is time enough for every number of
milliseconds of 64 bits, no delay of a configuration is one. As long as that does not happen everything
that waits has its timeout. A polled node that it happens to is left with an entry that has none. -/
theorem only_a_delay_of_the_application_overflows [Transport τ] :
    (∀ (start e : Engine κ DelayedCalls τ) (stages : List (Engine.Stage κ DelayedCalls τ)),
      start.Fresh → start.node.scheduler.Sorted NodeCall.Earlier → start.Run stages e →
      Engine.KeepsOwn stages → Engine.Reckons stages e) ∧
    (∀ (config : FaceConfig) (format : WireFormat) (transport : τ) (host : Host)
      (start s : LoopSystem κ τ) (stages : List (LoopSystem.Stage κ τ)),
      LoopSystem.open? config format transport host = some start → start.Run stages s →
      LoopSystem.Forward stages → LoopSystem.Reckons stages s) ∧
    ∀ (config : FaceConfig) (now : Instant), now.Early →
      ∀ delay ∈ [config.processEventsInterval, config.stopWhenInterval, config.defaultLifetime],
        now.add? delay ≠ none := by
  refine ⟨?_, ?_, ?_⟩
  · intro start e stages fresh sorted run alone
    exact Engine.Run.reckons fresh sorted run alone
  · intro config format transport host start s stages opened run clock
    constructor
    case falls =>
      intro stage member early
      obtain ⟨past, future, rfl⟩ := List.append_of_mem member
      exact LoopSystem.Step.falls_iff run.at_stage.2 early
    case timed =>
      intro _ entry waits
      exact EventLoop.mem_calls.mp (LoopSystem.Run.timed opened run clock waits)
  · intro config now early
    simp only [List.forall_mem_cons]
    exact ⟨early.add?_ofMillis_ne_none _, early.add?_ofMillis_ne_none _, early.add?_ofMillis_ne_none _,
      List.forall_mem_nil _⟩

/-- The longest span there is. -/
def Duration.longest : Duration := ⟨18446744073709551615, 999999999, by decide⟩

/-- An interest with the longest lifetime there is. -/
def expressForever : Request Unit :=
  .express .first { name := ⟨[]⟩, lifetime := some .longest } () (some ())

private theorem run_expressForever :
    ∃ (stage : Engine.Stage Unit DelayedCalls Sink) (e : Engine Unit DelayedCalls Sink)
      (entry : PendingInterest Unit),
      Engine.untouched.Fresh ∧ Engine.untouched.Run [stage] e ∧ Engine.KeepsOwn [stage] ∧
        Engine.Collapses stage ∧ stage.before.makes? stage.move = some entry := by
  have fresh : Engine.untouched.Fresh := by
    refine ⟨rfl, rfl, rfl, rfl, ?_⟩
    rintro entry ⟨delayed, member, -⟩
    cases member
  have own : ∀ call, Move.perform (.run call) ∉ [Move.perform (.request expressForever)] := by
    simp [expressForever]
  obtain ⟨e, run⟩ := Engine.run_stages (.start : Engine.untouched.Run [] Engine.untouched) own
  have alone := Engine.keepsOwn_stages (e := Engine.untouched) own
  exact ⟨_, e, _, fresh, run, alone, ⟨_, rfl, rfl⟩, rfl⟩

private theorem LoopSystem.run_expressForever :
    ∃ (past : List (Stage Unit Sink)) (stage : Stage Unit Sink) (s : LoopSystem Unit Sink),
      open? {} Engine.untouched.node.format {} Engine.untouched.host = some atRest ∧
      atRest.Run (past ++ [stage]) s ∧ Forward (past ++ [stage]) ∧ stage.before.now.Early ∧
      Falls stage := by
  have opened : open? {} Engine.untouched.node.format {} Engine.untouched.host = some atRest := rfl
  have begins : atRest.Run [] atRest := .start
  have queued := begins.extend <| show atRest.Step (.queue (.request expressForever)) [] _ from
    .queue (by simp) rfl
  have running := queued.extend (.begin rfl rfl)
  have expressed := running.extend (.turn rfl rfl lawfulPick_takeFirst)
  have fallen := expressed.extend (.turn rfl rfl lawfulPick_takeFirst)
  refine ⟨_, _, _, opened, fallen, ?forward, by decide, by decide, rfl, nofun⟩
  rw [Forward]
  decide +kernel

/-- An interest whose lifetime ends beyond what the clock can show is left in the table of a polled node
without a timeout, and brings a loop down. -/
theorem brought_down_by_a_lifetime :
    (∃ (stages : List (Engine.Stage Unit DelayedCalls Sink)) (e : Engine Unit DelayedCalls Sink),
      Engine.untouched.Run stages e ∧ ∃ entry ∈ e.node.pending.entries, e.timers entry.handle = 0) ∧
    ∃ (stages : List (LoopSystem.Stage Unit Sink)) (s : LoopSystem Unit Sink),
      LoopSystem.atRest.Run stages s ∧ ∃ stage ∈ stages, LoopSystem.Falls stage := by
  obtain ⟨stage, e, entry, fresh, run, alone, collapses, makes⟩ := run_expressForever
  obtain ⟨waits, untimed⟩ := (Engine.Run.reckons fresh .nil run alone).untimed [] stage rfl collapses
    entry makes
  obtain ⟨past, stage', s, -, run', -, -, falls⟩ := LoopSystem.run_expressForever
  exact ⟨⟨_, e, run, entry, waits, untimed⟩, _, s, run', stage', by simp, falls⟩

/-- In both cases it is the lifetime of the interest that is too long. -/
theorem too_long_a_lifetime :
    (∃ (stage : Engine.Stage Unit DelayedCalls Sink) (e : Engine Unit DelayedCalls Sink) (delay : Duration),
      Engine.untouched.Run [stage] e ∧ stage.before.delay? stage.move = some delay ∧
        stage.before.host.now.add? delay = none ∧ stage.before.host.now.add? (FaceConfig.defaultLifetime {}) ≠ none) ∧
    ∃ (past : List (LoopSystem.Stage Unit Sink)) (stage : LoopSystem.Stage Unit Sink)
      (s : LoopSystem Unit Sink) (delay : Duration),
      LoopSystem.atRest.Run (past ++ [stage]) s ∧ delay ∈ LoopSystem.adds stage ∧
        stage.before.now.add? delay = none := by
  obtain ⟨stage, e, entry, fresh, run, alone, collapses, makes⟩ := run_expressForever
  obtain ⟨past, stage', s, opened, run', clock, early, falls⟩ := LoopSystem.run_expressForever
  have polled := only_a_delay_of_the_application_overflows.1 _ e _ fresh .nil run alone
  have looped := only_a_delay_of_the_application_overflows.2.1 _ _ _ _ _ s _ opened run' clock
  have early' : stage.before.host.now.Early := by
    have only : Engine.untouched.Run ([] ++ [stage]) e := run
    rw [only.of_concat.1.of_nil]
    decide
  have usual := (only_a_delay_of_the_application_overflows (κ := Unit) (τ := Sink)).2.2 {} _ early'
  obtain ⟨delay, arms, late⟩ := (polled.collapses stage List.mem_cons_self).mp collapses
  obtain ⟨delay', adds, late'⟩ := (looped.falls stage' (by simp) early).mp falls
  exact ⟨⟨stage, e, delay, run, arms, late, usual _ (by simp)⟩, past, stage', s, delay', run', adds, late'⟩

end NamedData
