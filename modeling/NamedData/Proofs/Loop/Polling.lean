import NamedData.Proofs.Loop.Watching
import NamedData.Proofs.Node.Sending

/-!
Polling the stop predicate of an event loop.

A loop polls its predicate until it yields `true`, and goes on polling when it is run again. All polls are an
interval apart, also those of different runs, and each asks the predicate that was installed last
(`predicate_is_polled_at_intervals`). So a loop that was stopped and is run again has the time to execute what
was queued meanwhile before its predicate is asked.
-/
namespace NamedData.LoopSystem

variable {κ τ : Type} [Transport τ] {s start : LoopSystem κ τ}
variable {stage : Stage κ τ} {stages past future : List (Stage κ τ)}
variable {config : FaceConfig} {format : WireFormat} {transport : τ} {host : Host}

/-- The configuration of a loop stays as it is. -/
theorem Run.configured (opened : open? config format transport host = some start)
    (run : start.Run stages s) : s.loop.engine.node.config = config := by
  obtain ⟨deadline, rfl⟩ := eq_of_open? opened
  exact (Run.simulates opened run).1.run.config

/-- In the course of a run nothing happens to the stop predicate but what a watch allows. -/
theorem Run.watches (opened : open? config format transport host = some start)
    (run : start.Run stages stage.before)
    (step : stage.before.Step stage.move stage.events stage.after) :
    Watch.Step config.stopWhenInterval stage.before.now stage.before.watch (act stage) (polled stage)
      stage.after.watch := by
  rw [← Run.configured opened run]
  exact step.watches (Run.simulates opened run).1.tidy (Run.attentive opened run)

/-! ## What is asked -/

/-- The predicate that is installed when some commands have been executed. -/
def installed (commands : List (Command κ)) : Option κ :=
  ((commands.filterMap Command.installs?).getLast?).join

theorem installed_concat (commands : List (Command κ)) (command : Option (Command κ)) :
    installed (commands ++ command.toList) =
      (command.bind Command.installs?).getD (installed commands) := by
  cases command with
  | none => simp
  | some command => cases command <;> simp [installed, Command.installs?]

omit [Transport τ] in
/-- A stage installs what the command installs that is taken from the queue. -/
theorem installs?_taken? (stage : Stage κ τ) :
    (taken? stage).bind Command.installs? = (act stage).installs? := by
  obtain ⟨before, move, events, after⟩ := stage
  cases move with
  | turn pick =>
    simp only [taken?, act, settled?]
    cases before.loop.armNodeCalls? with
    | none => rfl
    | some loop =>
      dsimp only [Option.map_some, Option.bind_some, Option.getD_some]
      cases loop.choose pick with
      | command command queue => cases command <;> rfl
      | timer task timers => cases task <;> rfl
      | close | wait | idle => rfl
  | resume result =>
    simp only [taken?, act, settled?]
    split <;> rfl
  | queue | lower | announce | leave | begin | advance | perform | pause | destroy | drift => rfl

/-- A loop watches the predicate that was installed last. -/
theorem Run.installed (opened : open? config format transport host = some start)
    (run : start.Run stages s) :
    s.watch.predicate.map (·.1) = LoopSystem.installed (executed stages) := by
  apply run.invariant
  · obtain ⟨deadline, rfl⟩ := eq_of_open? opened
    rfl
  · intro past stage upTo step ih
    rw [executed_concat, installed_concat, installs?_taken?, ← ih]
    exact (Run.watches opened upTo step).predicate

/-- A poll that has not been answered was made by a tick, and nothing has come in between. -/
theorem Run.asking {poll : κ × Nat} (opened : open? config format transport host = some start)
    (run : start.Run stages s) (asking : s.watch.asking = some poll) :
    ∃ before tick between, stages = before ++ tick :: between ∧ act tick = .tick ∧
      polled tick = [poll] ∧ ∀ stage ∈ between, act stage = .rest := by
  revert asking
  apply run.invariant
  · obtain ⟨deadline, rfl⟩ := eq_of_open? opened
    intro asking
    cases asking
  · intro past stage upTo step ih asking
    obtain ⟨-, kept⟩ | ⟨ticks, -, other, -, once, asks⟩ := (Run.watches opened upTo step).asks
    · obtain ⟨rest, same⟩ := kept (by simp [asking])
      obtain ⟨before, tick, between, rfl, ticks, once, nothing⟩ := ih (same.symm.trans asking)
      refine ⟨before, tick, between ++ [stage], by simp, ticks, once, ?_⟩
      exact List.forall_mem_append.mpr ⟨nothing, List.forall_mem_singleton.mpr rest⟩
    · obtain rfl : other = poll := Option.some.inj (asks.symm.trans asking)
      exact ⟨past, stage, [], rfl, ticks, once, List.forall_mem_nil _⟩

/-! ## The time between polls -/

/-- From a stage on after which no poll comes up for an interval, none has come up before it is over. -/
theorem Run.spaced {first : Stage κ τ} (opened : open? config format transport host = some start)
    (run : start.Run (past ++ first :: future) s) (clock : Forward (past ++ first :: future))
    (spaced : Watch.Spaced config.stopWhenInterval first.before.now first.after.watch) :
    Watch.Spaced config.stopWhenInterval first.before.now s.watch ∧ first.before.now ≤ s.now := by
  rw [List.append_cons] at run clock
  revert clock
  apply run.since
  · intro mid upTo clock
    obtain ⟨-, -, rfl⟩ := upTo.of_concat
    exact ⟨spaced, clock first (by simp)⟩
  · intro later stage upTo step ih clock
    obtain ⟨spaced, passed⟩ := ih fun other member => clock other (by simp at member ⊢; tauto)
    exact ⟨spaced.step (Run.watches opened upTo step) passed, Nat.le_trans passed (clock stage (by simp))⟩

/-- A poll that comes up later does so when the interval is over. -/
theorem Run.paced {first tick : Stage κ τ} {between : List (Stage κ τ)}
    (opened : open? config format transport host = some start)
    (run : start.Run (past ++ first :: (between ++ tick :: future)) s)
    (clock : Forward (past ++ first :: (between ++ tick :: future)))
    (spaced : Watch.Spaced config.stopWhenInterval first.before.now first.after.watch)
    (ticks : act tick = .tick) :
    first.before.now.nanos + config.stopWhenInterval.toNanos ≤ tick.before.now.nanos := by
  rw [← List.cons_append, ← List.append_assoc] at run clock
  obtain ⟨upTo, step⟩ := run.at_stage
  have later := (Run.spaced opened upTo (fun other member => clock other (List.mem_append_left _ member))
    spaced).1
  have watches := Run.watches opened upTo step
  rw [ticks] at watches
  exact later.due watches.due

/-- After the predicate has stopped the loop no poll is armed until the loop is run again. -/
theorem Run.paused {stop : Stage κ τ} (opened : open? config format transport host = some start)
    (run : start.Run (past ++ stop :: future) s) (stops : act stop = .answer (.ok true)) :
    (s.watch.Paused ∧ ∀ stage ∈ future, stage.move ≠ .begin) ∨
      ∃ idle rerun rest, future = idle ++ rerun :: rest ∧ (∀ stage ∈ idle, stage.move ≠ .begin) ∧
        rerun.move = .begin ∧ rerun.before.watch.Paused := by
  rw [List.append_cons] at run
  apply run.since
  · intro mid upTo
    obtain ⟨before, step, rfl⟩ := upTo.of_concat
    have watches := Run.watches opened before step
    rw [stops] at watches
    exact .inl ⟨.of_stop watches, List.forall_mem_nil _⟩
  · intro later stage upTo step ih
    obtain ⟨paused, never⟩ | ⟨idle, rerun, rest, rfl, never, begins, paused⟩ := ih
    · by_cases begins : stage.move = .begin
      · exact .inr ⟨later, stage, [], rfl, never, begins, paused⟩
      · have watches := Run.watches opened upTo step
        refine .inl ⟨paused.step watches ?_, ?_⟩
        · intro same
          have acts := acts stage
          rw [same] at acts
          cases acts with
          | begin begun => exact begins begun
        · exact List.forall_mem_append.mpr ⟨never, List.forall_mem_singleton.mpr begins⟩
    · exact .inr ⟨idle, rerun, rest ++ [stage], by simp, never, begins, paused⟩

/-- A poll that comes up after the predicate has stopped the loop does so when the interval is over that began
when the loop was run again. -/
theorem Run.rerun {stop tick : Stage κ τ} {between : List (Stage κ τ)}
    (opened : open? config format transport host = some start)
    (run : start.Run (past ++ stop :: (between ++ tick :: future)) s)
    (clock : Forward (past ++ stop :: (between ++ tick :: future)))
    (stops : act stop = .answer (.ok true)) (ticks : act tick = .tick) :
    ∃ idle rerun rest, between = idle ++ rerun :: rest ∧ (∀ stage ∈ idle, stage.move ≠ .begin) ∧
      rerun.move = .begin ∧
      rerun.before.now.nanos + config.stopWhenInterval.toNanos ≤ tick.before.now.nanos := by
  have split : past ++ stop :: (between ++ tick :: future) = past ++ stop :: between ++ tick :: future := by
    simp
  obtain ⟨upTo, step⟩ := (split ▸ run).at_stage
  have watches := Run.watches opened upTo step
  rw [ticks] at watches
  obtain ⟨paused, -⟩ | ⟨idle, rerun, rest, rfl, never, begins, paused⟩ := Run.paused opened upTo stops
  · exact absurd watches.due paused.not_due
  · refine ⟨idle, rerun, rest, rfl, never, begins, ?_⟩
    have same : past ++ stop :: (idle ++ rerun :: rest ++ tick :: future) =
        past ++ stop :: idle ++ rerun :: (rest ++ tick :: future) := by simp
    rw [same] at run clock
    obtain ⟨before, restarts⟩ := run.at_stage
    have watches := Run.watches opened before restarts
    rw [act_of_begin begins] at watches
    exact Run.paced opened run clock (paused.begin watches) ticks

/-- When a poll comes up no command waits. -/
theorem Run.drained (opened : open? config format transport host = some start)
    (run : start.Run (past ++ stage :: future) s) (ticks : act stage = .tick) :
    executed past = queued past := by
  obtain ⟨upTo, step⟩ := run.at_stage
  have orderly := Run.orderly opened upTo
  have acts := acts stage
  rw [ticks] at acts
  cases acts with
  | tick settled =>
    have settles := settles_of_settled? step settled
    rw [orderly.queued_eq settles.running, orderly.queue_of_timer settles, List.append_nil]

/-! ## What comes of the stop predicate -/

/-- The next poll is armed, an interval after a stage, unless the clock does not reach that far. -/
def Rearmed (interval : Duration) (stage : Stage κ τ) : Prop :=
  match stage.before.now.add? interval with
  | some deadline => Service.polling.deadlines stage.after.loop.timers = {deadline}
  | none => stage.after.phase = .dead

omit [Transport τ] in
theorem Rearmed.of_rearms {w : Watch κ}
    (rearms : Watch.Rearms interval stage.before.now w stage.after.watch) : Rearmed interval stage := by
  generalize same : stage.after.watch = after at rearms
  cases rearms with
  | next shown =>
    rw [Rearmed, shown]
    exact congrArg Watch.armed same
  | late overflow =>
    rw [Rearmed, overflow]
    exact of_decide_eq_true (congrArg Watch.dead same)

/-- What comes of the stop predicate in the course of some stages. -/
structure Polls (interval : Duration) (stages : List (Stage κ τ)) : Prop where
  /-- From one poll that comes up to the next at least the interval passes. -/
  spaced : ∀ past first between tick future, stages = past ++ first :: (between ++ tick :: future) →
    act first = .tick → act tick = .tick →
    first.before.now.nanos + interval.toNanos ≤ tick.before.now.nanos
  /-- When a poll comes up every command that was queued has been executed. -/
  drained : ∀ past tick future, stages = past ++ tick :: future → act tick = .tick →
    executed past = queued past
  /-- As long as no face has been shut down, the predicate that was installed last is then asked once. If
  there is none, nothing is asked and the next poll is armed. -/
  asked : ∀ past tick future, stages = past ++ tick :: future → act tick = .tick →
    tick.before.loop.channel.active = true →
    (∃ index, polled tick = (installed (executed past)).toList.map (·, index)) ∧
      (installed (executed past) = none → Rearmed interval tick)
  /-- At any other time nothing is asked. -/
  only : ∀ stage ∈ stages, polled stage ≠ [] →
    act stage = .tick ∧ stage.before.loop.channel.active = true
  /-- What is answered is the last poll. -/
  answered : ∀ past stage future result, stages = past ++ stage :: future → act stage = .answer result →
    ∃ before tick between poll, past = before ++ tick :: between ∧ act tick = .tick ∧
      polled tick = [poll] ∧ ∀ other ∈ between, act other = .rest
  /-- The predicate stops the loop when it yields `true`, -/
  stopped : ∀ stage ∈ stages, exit? stage = some .stopped ↔ act stage = .answer (.ok true)
  /-- and when it yields `false` or fails the next poll is armed. -/
  rearmed : ∀ stage ∈ stages, ∀ result, act stage = .answer result → result ≠ .ok true →
    Rearmed interval stage
  /-- When the predicate has stopped the loop, no poll comes up until the interval has passed since the loop
  was run again. -/
  rerun : ∀ past stop between tick future, stages = past ++ stop :: (between ++ tick :: future) →
    exit? stop = some .stopped → act tick = .tick →
    ∃ idle rerun rest, between = idle ++ rerun :: rest ∧ (∀ stage ∈ idle, stage.move ≠ .begin) ∧
      rerun.move = .begin ∧ rerun.before.now.nanos + interval.toNanos ≤ tick.before.now.nanos

/-- **The stop predicate is polled at intervals**, whatever the faces queue, whatever the predicates yield and
however often the loop is run. Any two polls are at least the interval apart, and each asks the predicate that
was installed last, once. The loop is stopped exactly when the answer is `true`, and on any other answer the
next poll is armed. After a stop the next poll comes up no earlier than the interval after the loop was run
again, and when all that was queued before has been executed. -/
theorem predicate_is_polled_at_intervals (opened : open? config format transport host = some start)
    (run : start.Run stages s) (clock : Forward stages) : Polls config.stopWhenInterval stages := by
  constructor
  case spaced =>
    rintro past first between tick future rfl starts ticks
    obtain ⟨upTo, step⟩ := run.at_stage
    have watches := Run.watches opened upTo step
    rw [starts] at watches
    exact Run.paced opened run clock (.of_tick watches (Nat.le_refl _)) ticks
  case drained =>
    rintro past tick future rfl ticks
    exact Run.drained opened run ticks
  case asked =>
    rintro past tick future rfl ticks active
    obtain ⟨upTo, step⟩ := run.at_stage
    have watches := Run.watches opened upTo step
    rw [ticks] at watches
    obtain ⟨asked, rearms⟩ := watches.tick active
    have installed := Run.installed opened upTo
    rw [← installed, asked]
    constructor
    · cases tick.before.watch.predicate with
      | none => exact ⟨0, rfl⟩
      | some poll => exact ⟨poll.2, rfl⟩
    · intro none
      exact .of_rearms (rearms (Option.map_eq_none_iff.mp none))
  case only =>
    intro stage member asks
    obtain ⟨past, future, rfl⟩ := List.append_of_mem member
    obtain ⟨upTo, step⟩ := run.at_stage
    obtain ⟨silent, -⟩ | ⟨ticks, active, -⟩ := (Run.watches opened upTo step).asks
    · exact absurd silent asks
    · exact ⟨ticks, active⟩
  case answered =>
    rintro past stage future result rfl answers
    obtain ⟨upTo, step⟩ := run.at_stage
    have watches := Run.watches opened upTo step
    rw [answers] at watches
    obtain ⟨poll, asking⟩ := Option.ne_none_iff_exists'.mp watches.answered
    obtain ⟨before, tick, between, same, rest⟩ := Run.asking opened upTo asking
    exact ⟨before, tick, between, poll, same, rest⟩
  case stopped => exact fun stage _ => (exit?_eq_stopped_iff stage).trans act_eq_answer_iff.symm
  case rearmed =>
    intro stage member result answers goesOn
    obtain ⟨past, future, rfl⟩ := List.append_of_mem member
    obtain ⟨upTo, step⟩ := run.at_stage
    have watches := Run.watches opened upTo step
    rw [answers] at watches
    exact .of_rearms (watches.rearms goesOn)
  case rerun =>
    rintro past stop between tick future rfl stops ticks
    have answers := act_eq_answer_iff.mpr ((exit?_eq_stopped_iff stop).mp stops)
    exact Run.rerun opened run clock answers ticks

/-- A loop at rest that polls its stop predicate every four milliseconds. -/
def hasty : LoopSystem Unit Sink where
  loop := { atRest.loop with
    engine := { atRest.loop.engine with
      node := { atRest.loop.engine.node with config := { stopWhenMillis := 4 } } } }

/-- A predicate yields `false` and, four milliseconds later, `true`. The loop is run again at once and asks it
after another four milliseconds. -/
theorem asked_again_after_a_stop :
    ∃ (stages : List (Stage Unit Sink)) (s : LoopSystem Unit Sink),
      open? { stopWhenMillis := 4 } Engine.untouched.node.format {} Engine.untouched.host = some hasty ∧
      hasty.Run stages s ∧ Forward stages ∧ stages.filterMap exit? = [.stopped] ∧
      stages.flatMap polled = [((), 0), ((), 1), ((), 2)] ∧ s.now = ⟨8000000⟩ ∧
      Polls (.ofMillis 4) stages := by
  have opened : open? { stopWhenMillis := 4 } Engine.untouched.node.format {} Engine.untouched.host =
    some hasty := rfl
  have begins : hasty.Run [] hasty := .start
  have installs := begins.extend <| show LoopSystem.Step _ (.queue (.stopWhen (some ()))) [] _ from
    .queue (by simp) rfl
  have running := installs.extend (.begin rfl rfl)
  have replaced := running.extend (.turn rfl rfl lawfulPick_takeFirst)
  have processing := replaced.extend (.turn rfl rfl lawfulPick_takeFirst)
  have drained := processing.extend (.advance rfl rfl)
  have processed := drained.extend (.advance rfl rfl)
  have polling := processed.extend (.turn rfl rfl lawfulPick_takeFirst)
  have refused := polling.extend <| show LoopSystem.Step _ (.resume (.ok false)) _ _ from
    .resume rfl rfl
  have later := refused.extend <| show LoopSystem.Step _ .drift [] (LoopSystem.withEngine _
      { LoopSystem.loop _ |>.engine with
        transport := {}, host := { Engine.untouched.host with now := ⟨4000000⟩ } }) from
    .drift ⟨Nat.le_refl _, fun _ member => by cases member⟩
  have repolling := later.extend (.turn rfl rfl lawfulPick_takeFirst)
  have stopped := repolling.extend <| show LoopSystem.Step _ (.resume (.ok true)) _ _ from
    .resume rfl rfl
  have again := stopped.extend (.begin rfl rfl)
  have last := again.extend <| show LoopSystem.Step _ .drift [] (LoopSystem.withEngine _
      { LoopSystem.loop _ |>.engine with
        transport := {}, host := { Engine.untouched.host with now := ⟨8000000⟩ } }) from
    .drift ⟨Nat.le_refl _, fun _ member => by cases member⟩
  have asked := last.extend (.turn rfl rfl lawfulPick_takeFirst)
  refine ⟨_, _, opened, asked, ?forward, rfl, rfl, rfl,
    predicate_is_polled_at_intervals opened asked ?forward⟩
  rw [Forward]
  decide +kernel

end NamedData.LoopSystem
