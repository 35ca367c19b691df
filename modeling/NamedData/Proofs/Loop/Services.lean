import NamedData.Proofs.Loop.Refinement

/-!
The two services of an event loop.

Event processing and the poll of the stop predicate re-arm themselves, so a timer that is forgotten ends
a service and one that is armed twice doubles it for good. At every point of a run each service has the
timers it should have (`EventLoop.Serviced`), however the loop is shut down, left and run again.
-/
namespace NamedData

/-- What a loop does again and again. -/
inductive Service where
  | events
  | polling
deriving DecidableEq

/-- The service that a task belongs to. -/
def Task.service? {κ : Type} : Task κ → Option Service
  | .processEvents => some .events
  | .pollPredicate => some .polling
  | .node _ | .callback _ => none

namespace Service

variable {κ : Type} (service : Service)

/-- How many timers are armed for a service. -/
def armed (timers : List (Timer κ)) : Nat :=
  timers.countP fun t => t.task.service? = some service

@[simp] theorem armed_append (timers others : List (Timer κ)) :
    service.armed (timers ++ others) = service.armed timers + service.armed others :=
  List.countP_append

@[simp] theorem armed_cons (t : Timer κ) (timers : List (Timer κ)) :
    service.armed (t :: timers) =
      service.armed timers + if t.task.service? = some service then 1 else 0 := by
  simp [armed, List.countP_cons]

@[simp] theorem armed_nil : service.armed ([] : List (Timer κ)) = 0 := rfl

/-- Timers for calls of the node serve neither. -/
theorem armed_of_node {timers : List (Timer κ)}
    (node : ∀ t ∈ timers, ∃ call, t.task = .node call) : service.armed timers = 0 := by
  rw [armed, List.countP_eq_zero]
  intro t member
  obtain ⟨call, same⟩ := node t member
  simp [same, Task.service?]

end Service

/-- A node does not ask the stop predicate. -/
theorem Engine.Own.not_asked {κ τ : Type} {e : Engine κ Outbox τ} (own : e.Own) (predicate : κ)
    (index : Nat) : e.current? ≠ some (.poll predicate index) := by
  intro asked
  obtain ⟨outer, frames⟩ := Engine.frames_of_current? asked
  have mine := own _ (frames ▸ List.mem_cons_self)
  cases mine

namespace EventLoop

variable {κ τ : Type} {l after : EventLoop κ τ} {works : Prop}

/-- Every service of a loop has the timers it should have. -/
structure Serviced (l : EventLoop κ τ) (works : Prop) : Prop where
  /-- One poll is armed if the loop says so, and none otherwise. -/
  polling : Service.polling.armed l.timers = if l.pollArmed then 1 else 0
  /-- Event processing is not armed twice. -/
  once : Service.events.armed l.timers ≤ 1
  /-- As long as no face has been shut down, event processing is armed in a loop that works. -/
  lasting : works → l.channel.active = true → Service.events.armed l.timers = 1

/-- The timers of the services stay, and no face that was shut down comes back. -/
structure SameServices (l after : EventLoop κ τ) : Prop where
  armed : ∀ service : Service, service.armed after.timers = service.armed l.timers
  pollArmed : after.pollArmed = l.pollArmed
  active : after.channel.active = true → l.channel.active = true

theorem Serviced.of_same {still : Prop} (serviced : l.Serviced works) (same : SameServices l after)
    (working : still → works) : after.Serviced still where
  polling := by
    rw [same.armed, same.pollArmed]
    exact serviced.polling
  once := by
    rw [same.armed]
    exact serviced.once
  lasting works active := by
    rw [same.armed]
    exact serviced.lasting (working works) (same.active active)

namespace SameServices

theorem of_eq (timers : after.timers = l.timers) (pollArmed : after.pollArmed = l.pollArmed)
    (active : after.channel.active = true → l.channel.active = true) : SameServices l after where
  armed service := by rw [timers]
  pollArmed := pollArmed
  active := active

theorem refl (l : EventLoop κ τ) : SameServices l l := of_eq rfl rfl id

theorem trans {mid : EventLoop κ τ} (first : SameServices l mid) (second : SameServices mid after) :
    SameServices l after where
  armed service := (second.armed service).trans (first.armed service)
  pollArmed := second.pollArmed.trans first.pollArmed
  active active := first.active (second.active active)

/-- A timer that serves neither leaves the services alone. -/
theorem of_arm? {delay : Duration} {task : Task κ} (timed : l.arm? delay task = some after)
    (other : task.service? = none) : SameServices l after := by
  obtain ⟨deadline, rfl⟩ := eq_of_arm? timed
  exact ⟨fun service => by simp [other], rfl, id⟩

theorem of_armNodeCalls? (timed : l.armNodeCalls? = some after) : SameServices l after := by
  obtain ⟨timers, rfl, known⟩ := eq_of_armNodeCalls? timed
  have none : ∀ service : Service, service.armed timers = 0 := by
    intro service
    apply service.armed_of_node
    intro t member
    obtain ⟨call, -, same⟩ := known t member
    exact ⟨call.2, same⟩
  exact ⟨fun service => by simp [none], rfl, id⟩

end SameServices

/-! ## What the functions of a loop do to its services -/

/-- The poll that is missing is armed. -/
theorem Serviced.arm_poll {delay : Duration} (serviced : l.Serviced works)
    (missing : l.pollArmed = false) (timed : l.arm? delay .pollPredicate = some after) :
    Serviced { after with pollArmed := true } works := by
  have none := serviced.polling
  obtain ⟨deadline, rfl⟩ := eq_of_arm? timed
  rw [missing] at none
  constructor
  case polling => simp [none, Task.service?]
  case once => simpa [Task.service?] using serviced.once
  case lasting => simpa [Task.service?] using serviced.lasting

theorem Serviced.begin? (serviced : l.Serviced works) (begun : l.begin? = some after) :
    after.Serviced works := by
  rw [EventLoop.begin?] at begun
  split at begun
  · next idle =>
    rw [Bool.and_eq_true, Bool.not_eq_true'] at idle
    obtain ⟨mid, timed, rfl⟩ := Option.map_eq_some_iff.mp begun
    exact serviced.arm_poll idle.1 timed
  · cases begun
    exact serviced

/-- To begin a run arms no event processing, and a poll unless there is one. -/
theorem armed_of_begin? (begun : l.begin? = some after) :
    Service.events.armed after.timers = Service.events.armed l.timers ∧
      (l.channel.active = true → after.pollArmed = true) := by
  rw [EventLoop.begin?] at begun
  split at begun
  · obtain ⟨mid, timed, rfl⟩ := Option.map_eq_some_iff.mp begun
    obtain ⟨deadline, rfl⟩ := eq_of_arm? timed
    exact ⟨by simp [Task.service?], fun _ => rfl⟩
  · next idle =>
    cases begun
    refine ⟨rfl, fun active => ?_⟩
    simpa [active] using idle

theorem Serviced.rearmPoll (serviced : l.Serviced works) (missing : l.pollArmed = false) :
    l.rearmPoll.1.Serviced works := by
  rw [EventLoop.rearmPoll]
  cases timed : l.arm? l.engine.node.config.stopWhenInterval .pollPredicate with
  | none => exact serviced
  | some mid => exact serviced.arm_poll missing timed

theorem execute_sameServices [Transport τ] (l : EventLoop κ τ) (command : Command κ) :
    SameServices l (l.execute command).1 := by
  cases command with
  | request request =>
    rw [execute]
    dsimp only
    split <;> exact .of_eq rfl rfl id
  | callLater delay callback =>
    rw [execute]
    cases timed : l.arm? delay (.callback callback) with
    | none => exact .refl l
    | some after => exact .of_arm? timed rfl
  | shutdown => exact .of_eq rfl rfl fun active => by cases active
  | stopWhen | countPending | flush => exact .of_eq rfl rfl id

/-- Event processing that is due is armed again, unless a face has been shut down or the clock
overflows. -/
theorem Serviced.process {timers : List (Timer κ)} (serviced : l.Serviced works)
    (taken : ∀ service : Service, service.armed l.timers =
      service.armed timers + if service = .events then 1 else 0) :
    (runTask { l with timers } .processEvents).1.Serviced
      ((runTask { l with timers } .processEvents).2.2.phase ≠ .dead ∧ works) := by
  have polls := taken .polling
  have events := taken .events
  have polling := serviced.polling
  have once := serviced.once
  simp only [reduceCtorEq, if_false, if_true, Nat.add_zero] at polls events
  rw [runTask]
  split
  · cases timed : arm? { l with timers } l.engine.node.config.processEventsInterval .processEvents with
    | none =>
      refine ⟨polls.symm.trans polling, by dsimp only; omega, ?_⟩
      rintro ⟨works, -⟩
      exact absurd rfl works
    | some mid =>
      obtain ⟨deadline, rfl⟩ := eq_of_arm? timed
      constructor
      case polling => simpa [Task.service?, ← polls] using polling
      case once =>
        simp [Task.service?]
        omega
      case lasting =>
        rintro ⟨-, works⟩ active
        have one := serviced.lasting works active
        simp [Task.service?]
        omega
  · next shut =>
    refine ⟨polls.symm.trans polling, by dsimp only; omega, ?_⟩
    intro works active
    exact absurd active shut

/-- A poll that is due is no longer armed until it has been answered. -/
theorem Serviced.poll {timers : List (Timer κ)} (serviced : l.Serviced works)
    (taken : ∀ service : Service, service.armed l.timers =
      service.armed timers + if service = .polling then 1 else 0) :
    (runTask { l with timers } .pollPredicate).1.Serviced works := by
  have polls := taken .polling
  have events := taken .events
  have polling := serviced.polling
  simp only [reduceCtorEq, if_false, if_true, Nat.add_zero] at polls events
  have unarmed : Serviced { l with timers, pollArmed := false } works := by
    constructor
    case polling =>
      dsimp only
      split at polling <;> simp <;> omega
    case once => simpa [← events] using serviced.once
    case lasting => simpa [← events] using serviced.lasting
  rw [runTask]
  dsimp only
  split
  · split
    · exact unarmed.rearmPoll rfl
    · exact unarmed.of_same (.of_eq rfl rfl id) id
  · exact unarmed

/-- A task leaves every service with the timers it should have, unless the clock overflows. -/
theorem Serviced.runTask {task : Task κ} {timers : List (Timer κ)} (serviced : l.Serviced works)
    (taken : ∀ service : Service, service.armed l.timers =
      service.armed timers + if task.service? = some service then 1 else 0) :
    (EventLoop.runTask { l with timers } task).1.Serviced
      ((EventLoop.runTask { l with timers } task).2.2.phase ≠ .dead ∧ works) := by
  cases task with
  | processEvents =>
    apply serviced.process
    simpa [Task.service?, eq_comm] using taken
  | pollPredicate =>
    have polled : (EventLoop.runTask { l with timers } .pollPredicate).1.Serviced works := by
      apply serviced.poll
      simpa [Task.service?, eq_comm] using taken
    exact polled.of_same (.refl _) And.right
  | node call | callback callback =>
    refine serviced.of_same ⟨fun service => ?_, rfl, id⟩ And.right
    have kept := taken service
    simp only [Task.service?, reduceCtorEq, if_false, Nat.add_zero] at kept
    exact kept.symm

/-- What a turn settles on leaves every service with the timers it should have, unless the clock
overflows. -/
theorem Serviced.carryOut [Transport τ] {pick : List (Timer κ) → Option (Timer κ × List (Timer κ))}
    (serviced : l.Serviced works) (lawful : LawfulPick pick) {choice : Choice κ}
    (chosen : l.choose pick = choice) :
    (EventLoop.carryOut l choice).1.Serviced
      ((EventLoop.carryOut l choice).2.2.phase ≠ .dead ∧ works) := by
  cases choice with
  | command command queue =>
    have dequeued : SameServices l { l with channel := { l.channel with queue } } := .of_eq rfl rfl id
    exact serviced.of_same (dequeued.trans (execute_sameServices _ command)) And.right
  | timer task timers =>
    obtain ⟨first, rfl, perm⟩ := perm_of_timer lawful chosen
    apply serviced.runTask
    intro service
    have counts : service.armed (first :: timers) = service.armed l.timers := perm.countP_eq _
    rw [← counts, Service.armed_cons]
  | close | wait | idle => exact serviced.of_same (.of_eq rfl rfl id) And.right

/-! ## The poll that is being answered -/

/-- An answer to the predicate leaves every service with the timers it should have. -/
theorem Serviced.resume (serviced : l.Serviced works)
    (asked : ∀ predicate index, l.engine.current? = some (.poll predicate index) →
      l.pollArmed = false) (result : Except CallbackError Bool) :
    (l.resume result).1.Serviced works := by
  rw [EventLoop.resume.eq_def]
  split
  · next predicate index inside =>
    have missing := asked predicate index inside
    have returned : Serviced
        { l with engine := { l.engine with frames := l.engine.frames.tail } } works :=
      serviced.of_same (.of_eq rfl rfl id) id
    dsimp only
    split
    · exact serviced.of_same (.of_eq rfl rfl id) id
    · exact returned.rearmPoll missing
    · exact returned.rearmPoll missing
  · exact serviced.of_same (.of_eq rfl rfl id) id

/-- A loop that leaves its run has nothing in progress. -/
theorem rest_of_exited [Transport τ] {choice : Choice κ} (rest : l.engine.frames = [])
    (exited : (l.carryOut choice).2.2.phase = .parked) :
    (l.carryOut choice).1.engine.frames = [] := by
  obtain ⟨exit, exits⟩ := Turn.exit?_of_parked exited
  rw [carryOut_exit?, Choice.exit?_eq_some_iff] at exits
  obtain ⟨-, rfl⟩ | ⟨-, shut⟩ := exits
  · exact rest
  · obtain ⟨queue, rfl⟩ := Choice.eq_of_command? shut
    exact rest

/-- While the predicate is being asked, no poll is armed. -/
theorem unarmed_of_asked [Transport τ] {choice : Choice κ} {predicate : κ} {index : Nat}
    (rest : l.engine.frames = [])
    (asked : (l.carryOut choice).1.engine.current? = some (.poll predicate index)) :
    (l.carryOut choice).1.pollArmed = false := by
  cases started : l.operation? choice with
  | some operation =>
    have owns := Engine.perform_owns (Tidy.own_of_rest rest) operation
    rw [← (carryOut_of_some (Tidy.own_of_rest rest) started).1] at owns
    exact absurd asked (owns.frames.not_asked predicate index)
  | none =>
    have never : ∀ other : EventLoop κ τ, other.engine = l.engine →
        other.engine.current? ≠ some (.poll predicate index) := by
      intro other same asked
      rw [same, Engine.current?, rest] at asked
      cases asked
    cases choice with
    | command command queue =>
      cases command with
      | request | shutdown => cases started
      | stopWhen | countPending | flush => exact absurd asked (never _ rfl)
      | callLater delay callback =>
        simp only [EventLoop.carryOut, execute] at asked
        split at asked
        · exact absurd asked (never _ rfl)
        · next timed =>
          obtain ⟨deadline, rfl⟩ := eq_of_arm? timed
          exact absurd asked (never _ rfl)
    | timer task timers =>
      cases task with
      | node => cases started
      | callback callback => cases asked
      | processEvents =>
        simp only [EventLoop.carryOut, EventLoop.runTask] at asked
        split at asked
        · split at asked
          · exact absurd asked (never _ rfl)
          · cases asked
        · exact absurd asked (never _ rfl)
      | pollPredicate =>
        simp only [EventLoop.carryOut, EventLoop.runTask] at asked ⊢
        split at asked
        · next active =>
          rw [if_pos active]
          split at asked
          · exact absurd asked (never _ (rearmPoll_engine _).1)
          · rfl
        · next shut => rw [if_neg shut]
    | close | wait | idle => exact absurd asked (never _ rfl)

end EventLoop

namespace LoopSystem

open EventLoop (Tidy Serviced SameServices)

section steps

variable {κ τ : Type} {s after : LoopSystem κ τ}

/-- What keeps the services of a loop going: nothing is in progress outside a run, and no poll is armed
while the predicate is being asked. -/
structure Attentive (s : LoopSystem κ τ) : Prop where
  rest : s.phase = .parked → s.loop.engine.frames = []
  asked : ∀ predicate index, s.loop.engine.current? = some (.poll predicate index) →
    s.loop.pollArmed = false
  serviced : s.loop.Serviced (s.phase ≠ .dead)

/-- A command that is queued leaves the services alone. -/
theorem handOff_sameServices (s : LoopSystem κ τ) (command : Command κ) :
    SameServices s.loop (s.handOff command).loop := by
  rw [handOff, Channel.handOff]
  split
  · next channel handed =>
    split at handed
    · cases handed
      exact .of_eq rfl rfl id
    · cases handed
  · exact .refl _

/-- Steps that leave the work in progress and the services alone. -/
theorem Attentive.keep (attentive : Attentive s)
    (frames : after.loop.engine.frames = s.loop.engine.frames)
    (same : SameServices s.loop after.loop)
    (parked : after.phase = .parked → s.loop.engine.frames = [])
    (alive : after.phase ≠ .dead → s.phase ≠ .dead) : Attentive after where
  rest now := frames.trans (parked now)
  asked := by
    rw [Engine.current?, frames, same.pollArmed]
    exact attentive.asked
  serviced := attentive.serviced.of_same same alive

theorem Attentive.handOff (attentive : Attentive s) (command : Command κ) :
    Attentive (s.handOff command) := by
  have same := handOff_sameServices s command
  obtain ⟨channel, handed⟩ := handOff_eq s command
  rw [handed] at same ⊢
  exact attentive.keep rfl same attentive.rest id

/-- Work of the node's own. -/
theorem Attentive.own {engine : Engine κ Outbox τ} (attentive : Attentive s)
    (running : s.phase = .running) (own : engine.Own) : Attentive (s.withEngine engine) where
  rest parked := by cases running.symm.trans parked
  asked predicate index asked := absurd asked (own.not_asked predicate index)
  serviced := attentive.serviced.of_same (.of_eq rfl rfl id) id

theorem Attentive.resume {call : Call κ} {result : Except CallbackError Bool}
    (attentive : Attentive s) (tidy : Tidy s.loop.engine) (running : s.phase = .running)
    (inside : s.loop.engine.current? = some call) : Attentive (s.settle (s.loop.resume result)) := by
  have alive : s.phase ≠ .dead := by simp [running]
  have serviced : (s.settle (s.loop.resume result)).loop.Serviced (s.phase ≠ .dead) :=
    attentive.serviced.resume attentive.asked result
  cases mine : call.ofNode with
  | true =>
    have own := tidy.own_of_mine inside mine
    have owns := Engine.resume_owns own (result.map fun _ => ())
    have returned := attentive.own running owns.frames
    rw [EventLoop.resume_of_mine inside mine result, settle, Turn.phase, ← running]
    exact returned
  | false =>
    have frames := tidy.frames_of_loops inside mine
    have same := (EventLoop.resume_of_loops frames mine result).1
    constructor
    case rest =>
      intro parked
      exact congrArg Engine.frames same
    case asked =>
      intro predicate index asked
      change (s.loop.resume result).1.engine.current? = _ at asked
      rw [same] at asked
      cases asked
    case serviced => exact serviced.of_same (.refl _) fun _ => alive

variable [Transport τ]

theorem Attentive.turn {pick : List (Timer κ) → Option (Timer κ × List (Timer κ))}
    (attentive : Attentive s) (running : s.phase = .running) (rest : s.loop.engine.frames = [])
    (lawful : LawfulPick pick) : Attentive (s.settle (s.loop.turnBy pick)) := by
  have alive : s.phase ≠ .dead := by simp [running]
  cases armed : s.loop.armNodeCalls? with
  | none =>
    rw [EventLoop.turnBy_of_none armed]
    exact attentive.keep rfl (.refl _) (fun _ => rest) fun _ => alive
  | some loop =>
    have collected : loop.Serviced (s.phase ≠ .dead) :=
      attentive.serviced.of_same (.of_armNodeCalls? armed) id
    have rest' : loop.engine.frames = [] := by
      rw [EventLoop.engine_of_armNodeCalls? armed]
      exact rest
    rw [EventLoop.turnBy_of_some armed]
    constructor
    case rest => exact EventLoop.rest_of_exited rest'
    case asked => exact fun predicate index => EventLoop.unarmed_of_asked rest'
    case serviced =>
      exact (collected.carryOut lawful rfl).of_same (.refl _) fun working => ⟨working, alive⟩

/-- Every step keeps the services going. -/
theorem Attentive.step {move : LoopMove κ} {events : List (Event κ)} (attentive : Attentive s)
    (tidy : Tidy s.loop.engine) (step : s.Step move events after) : Attentive after := by
  cases step with
  | queue other face => exact attentive.handOff _
  | announce closing =>
    have queued := attentive.handOff .shutdown
    exact ⟨queued.rest, queued.asked, queued.serviced⟩
  | lower face active =>
    exact attentive.keep rfl (.of_eq rfl rfl fun active => by cases active) attentive.rest id
  | leave face closing => exact attentive.keep rfl (.of_eq rfl rfl id) attentive.rest id
  | begin parked begun =>
    have rest := attentive.rest parked
    have frames := EventLoop.engine_of_begin? begun
    constructor
    case rest =>
      intro now
      cases now
    case asked =>
      intro predicate index asked
      change Engine.current? _ = _ at asked
      rw [frames, Engine.current?, rest] at asked
      cases asked
    case serviced =>
      have alive : s.phase ≠ .dead := by simp [parked]
      exact (attentive.serviced.begin? begun).of_same (.refl _) fun _ => alive
  | overflow parked late =>
    exact attentive.keep rfl (.refl _) (fun _ => attentive.rest parked) fun alive => absurd rfl alive
  | turn running rest lawful => exact attentive.turn running rest lawful
  | advance running advanced =>
    exact attentive.own running (Engine.advance_owns (tidy.own_of_advance advanced) advanced).frames
  | resume running inside => exact attentive.resume tidy running inside
  | @perform call operation running inside handed public' =>
    have own := tidy.own_of_mine inside (Call.ofNode_of_handsNode handed)
    exact attentive.own running (Engine.perform_owns own operation).frames
  | pause running rest =>
    exact attentive.keep rfl (.refl _) (fun _ => rest) fun _ => by simp [running]
  | destroy idle =>
    exact attentive.keep rfl (.of_eq rfl rfl id) (fun parked => by cases parked) 
      fun alive => absurd rfl alive
  | drift drifts => exact attentive.keep rfl (.of_eq rfl rfl id) attentive.rest id

end steps

variable {κ τ : Type} [Transport τ] {s start : LoopSystem κ τ} {stages : List (Stage κ τ)}
variable {config : FaceConfig} {format : WireFormat} {transport : τ} {host : Host}

/-- The services are kept going in every run. -/
theorem Run.attentive (opened : open? config format transport host = some start)
    (run : start.Run stages s) : Attentive s := by
  apply run.invariant
  · obtain ⟨deadline, rfl⟩ := eq_of_open? opened
    exact ⟨fun _ => rfl, fun _ _ _ => rfl, ⟨rfl, Nat.le_refl 1, fun _ _ => rfl⟩⟩
  · intro past stage upTo step attentive
    exact attentive.step (Run.simulates opened upTo).1.tidy step

/-- **No service is doubled and event processing is not lost.** At every point of a run, also while
callbacks run, a poll of the stop predicate is armed once if the loop says that it is and not
otherwise; event processing is armed at most once, and once as long as the loop is there and no face
has been shut down. So running the loop again, after whatever exit, arms no second event processing,
and if no face has been shut down both services are then armed once. -/
theorem services_are_armed_once (opened : open? config format transport host = some start)
    (run : start.Run stages s) :
    (Service.polling.armed s.loop.timers = if s.loop.pollArmed then 1 else 0) ∧
      Service.events.armed s.loop.timers ≤ 1 ∧
      (s.phase ≠ .dead → s.loop.channel.active = true → Service.events.armed s.loop.timers = 1) ∧
      ∀ past stage future, stages = past ++ stage :: future → stage.move = .begin →
        Service.events.armed stage.after.loop.timers =
            Service.events.armed stage.before.loop.timers ∧
          (stage.after.phase = .running → stage.before.loop.channel.active = true →
            Service.events.armed stage.after.loop.timers = 1 ∧
              Service.polling.armed stage.after.loop.timers = 1) := by
  have serviced := (Run.attentive opened run).serviced
  refine ⟨serviced.polling, serviced.once, serviced.lasting, ?_⟩
  rintro past stage future rfl begins
  obtain ⟨upTo, step⟩ := run.at_stage
  have before := (Run.attentive opened upTo).serviced
  have after := (Run.attentive opened run.through).serviced
  rw [begins] at step
  generalize stage.events = events, stage.before = old, stage.after = new at step before after ⊢
  cases step with
  | begin parked begun =>
    obtain ⟨events, polls⟩ := EventLoop.armed_of_begin? begun
    refine ⟨events, fun _ active => ⟨?_, ?_⟩⟩
    · exact events.trans (before.lasting (by simp [parked]) active)
    · rw [after.polling, polls active]
      rfl
  | overflow parked late => exact ⟨rfl, fun running => by cases running⟩

/-- A loop that its predicate has stopped is run again, and there is one poll and one processing of
events. -/
theorem stopped_and_run_again :
    ∃ (past : List (Stage Unit Sink)) (stage : Stage Unit Sink),
      open? {} Engine.untouched.node.format {} Engine.untouched.host = some atRest ∧
      atRest.Run (past ++ [stage]) stage.after ∧ stage.before.loop.stopped = true ∧
      Service.events.armed stage.after.loop.timers = 1 ∧
      Service.polling.armed stage.after.loop.timers = 1 := by
  have opened : open? {} Engine.untouched.node.format {} Engine.untouched.host = some atRest := rfl
  have begins : atRest.Run [] atRest := .start
  have asked := begins.extend <| show atRest.Step (.queue (.stopWhen (some ()))) [] _ from
    .queue (by simp) rfl
  have running := asked.extend (.begin rfl rfl)
  have replaced := running.extend (.turn rfl rfl lawfulPick_takeFirst)
  have processing := replaced.extend (.turn rfl rfl lawfulPick_takeFirst)
  have drained := processing.extend (.advance rfl rfl)
  have processed := drained.extend (.advance rfl rfl)
  have polling := processed.extend (.turn rfl rfl lawfulPick_takeFirst)
  have stopped := polling.extend <| show LoopSystem.Step _ (.resume (.ok true)) _ _ from
    .resume rfl rfl
  have again := stopped.extend (.begin rfl rfl)
  obtain ⟨-, -, -, rerun⟩ := services_are_armed_once opened again
  obtain ⟨events, polls⟩ := (rerun _ _ [] rfl rfl).2 rfl rfl
  exact ⟨_, _, opened, again, rfl, events, polls⟩

end LoopSystem

end NamedData
