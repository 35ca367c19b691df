import NamedData.Proofs.Loop.Timers
import NamedData.Proofs.Loop.Watch

/-!
What an event loop does about its stop predicate.

Of all that a loop does little concerns the predicate (`EventLoop.watch`): to install one, to begin a run, to
take off the timer of the poll, and to get the answer. Whatever else it does leaves the predicate and its
poll alone (`EventLoop.Ignores`), so every step of a loop and its faces is one that a watch can make
(`LoopSystem.Step.watches`).
-/
namespace NamedData

/-- The predicate that a command installs, or that it installs none any more. -/
def Command.installs? {κ : Type} : Command κ → Option (Option κ)
  | .stopWhen predicate => some predicate
  | _ => none

/-- The poll that a call is. -/
def Call.poll? {κ : Type} : Call κ → Option (κ × Nat)
  | .poll predicate index => some (predicate, index)
  | _ => none

/-- The poll that is seen to be made. -/
def Event.poll? {κ : Type} : Event κ → Option (κ × Nat)
  | .called call => call.poll?
  | _ => none

/-! ## When polls are due -/

namespace Service

variable {κ : Type} (service : Service) {timers others : List (Timer κ)}

/-- When the timers that are armed for a service are due. -/
def deadlines (timers : List (Timer κ)) : Multiset Instant :=
  ((timers.filter fun t => t.task.service? = some service).map (·.deadline) : List Instant)

@[simp] theorem deadlines_nil : service.deadlines ([] : List (Timer κ)) = 0 := rfl

@[simp] theorem deadlines_append (timers others : List (Timer κ)) :
    service.deadlines (timers ++ others) = service.deadlines timers + service.deadlines others := by
  simp [deadlines]

@[simp] theorem deadlines_cons (t : Timer κ) (timers : List (Timer κ)) :
    service.deadlines (t :: timers) =
      if t.task.service? = some service then t.deadline ::ₘ service.deadlines timers
      else service.deadlines timers := by
  rw [deadlines, List.filter_cons]
  by_cases serves : t.task.service? = some service <;> simp [serves, deadlines]

theorem deadlines_perm (perm : timers.Perm others) : service.deadlines timers = service.deadlines others :=
  Multiset.coe_eq_coe.mpr ((perm.filter _).map _)

theorem card_deadlines (timers : List (Timer κ)) :
    (service.deadlines timers).card = service.armed timers := by
  rw [deadlines, Multiset.coe_card, List.length_map, armed, List.countP_eq_length_filter]

/-- Timers for calls of the node serve neither. -/
theorem deadlines_of_node (node : ∀ t ∈ timers, ∃ call, t.task = .node call) :
    service.deadlines timers = 0 := by
  rw [← Multiset.card_eq_zero, card_deadlines, armed_of_node _ node]

end Service

/-! ## What is asked -/

/-- A node does not ask the stop predicate, -/
theorem Engine.Own.unpolled {κ τ : Type} {e : Engine κ Outbox τ} (own : e.Own) :
    e.current?.bind Call.poll? = none := by
  cases inside : e.current? with
  | none => rfl
  | some call =>
    cases call with
    | poll predicate index => exact absurd inside (own.not_asked predicate index)
    | data | timeout | interest | registerFailed | nodeDelay | faceDelay => rfl

/-- and is not seen to. -/
theorem Engine.Owns.unpolled {κ τ : Type} {e : Engine κ Outbox τ} {events : List (Event κ)}
    (owns : e.Owns events) : events.filterMap Event.poll? = [] := by
  rw [List.filterMap_eq_nil_iff]
  intro event member
  have mine := owns.events event member
  cases event with
  | called call =>
    cases call with
    | poll => cases mine
    | data | timeout | interest | registerFailed | nodeDelay | faceDelay => rfl
  | _ => rfl

namespace EventLoop

variable {κ τ : Type} {l after : EventLoop κ τ}

/-- What a loop has to do with its stop predicate. -/
def watch (l : EventLoop κ τ) (dead : Bool) : Watch κ where
  predicate := l.predicate
  armed := Service.polling.deadlines l.timers
  asking := l.engine.current?.bind Call.poll?
  stopped := l.stopped
  active := l.channel.active
  dead := dead

theorem watch_of_armNodeCalls? (dead : Bool) (timed : l.armNodeCalls? = some after) :
    after.watch dead = l.watch dead := by
  obtain ⟨timers, rfl, known⟩ := eq_of_armNodeCalls? timed
  have none : Service.polling.deadlines timers = 0 := by
    apply Service.deadlines_of_node
    intro t member
    obtain ⟨call, -, same⟩ := known t member
    exact ⟨call.2, same⟩
  simp [watch, none, collected, Engine.current?]

/-- When a callback returns nothing is asked. -/
theorem unpolled_of_resume {result : Except CallbackError Bool} :
    (l.resume result).2.1.filterMap Event.poll? = [] := by
  rw [List.filterMap_eq_nil_iff]
  intro event member
  obtain ⟨notice, rfl⟩ := logged_of_resume member
  rfl

/-- What is done has nothing to do with the stop predicate. -/
structure Ignores (l : EventLoop κ τ) (outcome : EventLoop κ τ × List (Event κ) × Turn) : Prop where
  predicate : outcome.1.predicate = l.predicate
  deadlines : Service.polling.deadlines outcome.1.timers = Service.polling.deadlines l.timers
  idle : outcome.1.engine.current?.bind Call.poll? = none
  stopped : outcome.1.stopped = l.stopped
  active : outcome.1.channel.active = true → l.channel.active = true
  silent : outcome.2.1.filterMap Event.poll? = []

namespace Ignores

variable {outcome : EventLoop κ τ × List (Event κ) × Turn}

theorem rest {interval : Duration} {now : Instant} {dead : Bool} (ignores : l.Ignores outcome)
    (idle : l.engine.current?.bind Call.poll? = none) :
    Watch.Step interval now (l.watch false) .rest (outcome.2.1.filterMap Event.poll?)
      (outcome.1.watch dead) := by
  have same : outcome.1.watch dead =
      { l.watch false with active := outcome.1.channel.active, dead } := by
    simp [watch, ignores.predicate, ignores.deadlines, ignores.idle, ignores.stopped, idle]
  rw [ignores.silent, same]
  exact .rest ignores.active fun dead => by cases dead

/-- What the node does has nothing to do with the stop predicate. -/
theorem of_owns {engine : Engine κ Outbox τ} {events : List (Event κ)} {turn : Turn}
    (owns : engine.Owns events) : l.Ignores ({ l with engine }, events, turn) :=
  ⟨rfl, rfl, owns.frames.unpolled, rfl, id, owns.unpolled⟩

theorem execute [Transport τ] (own : l.engine.Own) (command : Command κ)
    (other : ∀ predicate, command ≠ .stopWhen predicate) : l.Ignores (l.execute command) := by
  cases command with
  | request request =>
    have owns := Engine.request_owns own request
    rw [EventLoop.execute]
    dsimp only
    split
    · exact .of_owns owns
    · refine ⟨rfl, rfl, owns.frames.unpolled, rfl, id, ?_⟩
      dsimp only
      rw [List.filterMap_append, owns.unpolled, List.nil_append]
      cases failure request _ <;> rfl
    · exact .of_owns owns
  | stopWhen predicate => exact absurd rfl (other predicate)
  | callLater delay callback =>
    rw [EventLoop.execute]
    cases timed : l.arm? delay (.callback callback) with
    | none => exact ⟨rfl, rfl, own.unpolled, rfl, id, rfl⟩
    | some after =>
      obtain ⟨deadline, rfl⟩ := eq_of_arm? timed
      exact ⟨rfl, by simp [Task.service?], own.unpolled, rfl, id, rfl⟩
  | countPending | flush => exact ⟨rfl, rfl, own.unpolled, rfl, id, rfl⟩
  | shutdown =>
    have owns := Engine.shutdown_owns own
    exact ⟨rfl, rfl, owns.frames.unpolled, rfl, (fun active => by cases active), owns.unpolled⟩

theorem runTask [Transport τ] (own : l.engine.Own) (task : Task κ) (other : task ≠ .pollPredicate) :
    l.Ignores (l.runTask task) := by
  cases task with
  | processEvents =>
    rw [EventLoop.runTask]
    split
    · cases timed : l.arm? l.engine.node.config.processEventsInterval .processEvents with
      | none => exact ⟨rfl, rfl, own.unpolled, rfl, id, rfl⟩
      | some after =>
        obtain ⟨deadline, rfl⟩ := eq_of_arm? timed
        exact ⟨rfl, by simp [Task.service?], rfl, rfl, id, rfl⟩
    · exact ⟨rfl, rfl, own.unpolled, rfl, id, rfl⟩
  | pollPredicate => exact absurd rfl other
  | node call => exact .of_owns (Engine.run_owns own call)
  | callback callback => exact ⟨rfl, rfl, rfl, rfl, id, rfl⟩

/-- So has what other callbacks do when they return. -/
theorem resume {call : Call κ} (tidy : Tidy l.engine) (inside : l.engine.current? = some call)
    (other : call.poll? = none) (result : Except CallbackError Bool) :
    l.Ignores (l.resume result) := by
  cases mine : call.ofNode with
  | true =>
    rw [resume_of_mine inside mine]
    exact .of_owns (Engine.resume_owns (tidy.own_of_mine inside mine) _)
  | false =>
    cases call with
    | faceDelay callback =>
      have engine := (resume_of_loops (tidy.frames_of_loops inside mine) mine result).1
      constructor
      case idle =>
        rw [engine]
        rfl
      case silent => exact unpolled_of_resume
      case predicate | deadlines | stopped => rw [EventLoop.resume, inside]
      case active =>
        rw [resume_channel]
        exact id
    | poll => cases other
    | data | timeout | interest | registerFailed | nodeDelay => cases mine

end Ignores

/-! ## What the functions of a loop do about its stop predicate -/

variable {works : Prop}

/-- No poll is armed if the loop says so, -/
theorem Serviced.unarmed (serviced : l.Serviced works) (missing : l.pollArmed = false) :
    Service.polling.deadlines l.timers = 0 := by
  rw [← Multiset.card_eq_zero, Service.card_deadlines, serviced.polling, missing]
  rfl

/-- and one otherwise. -/
theorem Serviced.armed (serviced : l.Serviced works) (armed : l.pollArmed = true) :
    ∃ deadline, Service.polling.deadlines l.timers = {deadline} := by
  rw [← Multiset.card_eq_one, Service.card_deadlines, serviced.polling, armed]
  rfl

/-- A poll that is armed where none is armed is the only one. -/
theorem deadlines_arm_poll (unarmed : Service.polling.deadlines l.timers = 0) (deadline : Instant) :
    Service.polling.deadlines (l.timers ++ [{ deadline, task := .pollPredicate }]) = {deadline} := by
  simp [unarmed, Task.service?]

theorem rearmPoll_rearms (unarmed : Service.polling.deadlines l.timers = 0) :
    Watch.Rearms l.engine.node.config.stopWhenInterval l.engine.host.now (l.watch false)
      (l.rearmPoll.1.watch (l.rearmPoll.2.2.phase = .dead)) := by
  rw [rearmPoll]
  cases timed : l.arm? l.engine.node.config.stopWhenInterval .pollPredicate with
  | none => exact .late (Option.map_eq_none_iff.mp timed)
  | some after =>
    obtain ⟨deadline, shown, rfl⟩ := Option.map_eq_some_iff.mp timed
    have armed := deadlines_arm_poll unarmed deadline
    have rearms := Watch.Rearms.next (w := l.watch false) shown
    rw [← armed] at rearms
    exact rearms

/-- A run that begins arms the poll, unless it is armed. -/
theorem begin?_watches {works : Prop} (serviced : l.Serviced works) (rest : l.engine.frames = [])
    (begun : l.begin? = some after) :
    Watch.Step l.engine.node.config.stopWhenInterval l.engine.host.now (l.watch false) .begin []
      (after.watch false) := by
  have idle : (l.watch false).asking = none := by
    rw [watch, Engine.current?, rest]
    rfl
  rw [begin?] at begun
  split at begun
  · next missing =>
    rw [Bool.and_eq_true, Bool.not_eq_true'] at missing
    obtain ⟨mid, timed, rfl⟩ := Option.map_eq_some_iff.mp begun
    obtain ⟨deadline, shown, rfl⟩ := Option.map_eq_some_iff.mp timed
    have unarmed := serviced.unarmed missing.1
    have armed := deadlines_arm_poll unarmed deadline
    have begins := Watch.Step.begin (w := l.watch false) idle unarmed missing.2 rfl shown
    rw [← armed] at begins
    exact begins
  · next there =>
    cases begun
    refine .again idle fun active => ?_
    have active : l.channel.active = true := active
    obtain ⟨deadline, armed⟩ := serviced.armed (by simpa [active] using there)
    change Service.polling.deadlines l.timers ≠ 0
    rw [armed]
    exact Multiset.singleton_ne_zero _

/-- A poll that is due asks the predicate, if one is installed and no face has been shut down. -/
theorem runTask_watches {first : Timer κ} {timers : List (Timer κ)} (serviced : l.Serviced works)
    (rest : l.engine.frames = []) (is : first.task = .pollPredicate)
    (perm : (first :: timers).Perm l.timers) (past : first.deadline ≤ l.engine.host.now) :
    Watch.Step l.engine.node.config.stopWhenInterval l.engine.host.now (l.watch false) .tick
      ((runTask { l with timers } .pollPredicate).2.1.filterMap Event.poll?)
      ((runTask { l with timers } .pollPredicate).1.watch
        ((runTask { l with timers } .pollPredicate).2.2.phase = .dead)) := by
  have armed : Service.polling.deadlines l.timers =
      first.deadline ::ₘ Service.polling.deadlines timers := by
    rw [← Service.polling.deadlines_perm perm]
    simp [is, Task.service?]
  have unarmed : Service.polling.deadlines timers = 0 := by
    have one := Service.polling.card_deadlines l.timers
    rw [armed, Multiset.card_cons, serviced.polling] at one
    rw [← Multiset.card_eq_zero]
    split at one <;> omega
  rw [unarmed] at armed
  have idle : (l.watch false).asking = none := by
    rw [watch, Engine.current?, rest]
    rfl
  have due : (l.watch false).Due l.engine.host.now := ⟨idle, _, past, armed⟩
  rw [runTask]
  dsimp only
  cases active : l.channel.active with
  | false =>
    have shut : Watch.Step l.engine.node.config.stopWhenInterval l.engine.host.now (l.watch false) .tick
        [] _ := .shut due active
    rw [← unarmed] at shut
    exact shut
  | true =>
    rw [if_pos rfl]
    split
    · next installed =>
      have rearms := rearmPoll_rearms (l := { l with timers, pollArmed := false }) unarmed
      have same : watch { l with timers, pollArmed := false } false = { l.watch false with armed := 0 } := by
        rw [← unarmed]
        rfl
      rw [same] at rearms
      rw [(rearmPoll_engine _).2]
      exact .pass due active installed rearms
    · next installed =>
      have asks : Watch.Step l.engine.node.config.stopWhenInterval l.engine.host.now (l.watch false) .tick
          [_] _ := .ask due active installed
      rw [← unarmed] at asks
      exact asks

/-- The answer to a poll stops the loop, or the next poll is armed. -/
theorem resume_watches {predicate : κ} {index : Nat} (serviced : l.Serviced works)
    (missing : l.pollArmed = false) (frames : l.engine.frames = [.inside (.poll predicate index)])
    (result : Except CallbackError Bool) :
    Watch.Step l.engine.node.config.stopWhenInterval l.engine.host.now (l.watch false) (.answer result)
      ((l.resume result).2.1.filterMap Event.poll?)
      ((l.resume result).1.watch ((l.resume result).2.2.phase = .dead)) := by
  have unarmed := serviced.unarmed missing
  have inside : l.engine.current? = some (.poll predicate index) := by rw [Engine.current?, frames]
  have tail : l.engine.frames.tail = [] := by rw [frames]; rfl
  have asked : (l.watch false).asking ≠ none := by
    rw [watch, inside]
    exact Option.some_ne_none _
  have rearms := rearmPoll_rearms (l := { l with engine := { l.engine with frames := [] } }) unarmed
  have goesOn : result ≠ .ok true → Watch.Step _ _ _ (.answer result) [] _ :=
    fun other => .rearm asked unarmed other rearms
  rw [unpolled_of_resume, resume, inside]
  dsimp only
  rw [tail]
  rcases result with error | (_ | _)
  · exact goesOn (by simp)
  · exact goesOn (by simp)
  · exact .stop asked unarmed

/-- What a choice means for the stop predicate. -/
def Choice.act : Choice κ → Watch.Act κ
  | .command (.stopWhen predicate) _ => .install predicate
  | .timer .pollPredicate _ => .tick
  | _ => .rest

/-- What a turn settles on is something that can happen to the stop predicate. -/
theorem carryOut_watches [Transport τ] {pick : List (Timer κ) → Option (Timer κ × List (Timer κ))}
    (serviced : l.Serviced works) (rest : l.engine.frames = []) (lawful : LawfulPick pick)
    {choice : Choice κ} (chosen : l.choose pick = choice) :
    Watch.Step l.engine.node.config.stopWhenInterval l.engine.host.now (l.watch false) choice.act
      ((l.carryOut choice).2.1.filterMap Event.poll?)
      ((l.carryOut choice).1.watch ((l.carryOut choice).2.2.phase = .dead)) := by
  have own : l.engine.Own := Tidy.own_of_rest rest
  cases choice with
  | command command queue =>
    have ignores := Ignores.execute (l := { l with channel := { l.channel with queue } }) own command
    cases command with
    | stopWhen predicate => exact .install own.unpolled predicate
    | request | callLater | countPending | flush | shutdown => exact (ignores (by simp)).rest own.unpolled
  | timer task timers =>
    obtain ⟨first, rfl, picked, due⟩ := picked_of_timer chosen
    have perm := lawful.perm picked
    cases is : first.task with
    | pollPredicate => exact runTask_watches serviced rest is perm (Instant.le_of_ceilMillis_le due)
    | processEvents | node | callback =>
      have kept : Service.polling.deadlines timers = Service.polling.deadlines l.timers := by
        rw [← Service.polling.deadlines_perm perm]
        simp [is, Task.service?]
      have ignores := Ignores.runTask (l := { l with timers }) own first.task (by simp [is])
      have same : watch { l with timers } false = l.watch false := congrArg (Watch.mk _ · _ _ _ _) kept
      rw [is] at ignores
      rw [← same]
      exact ignores.rest own.unpolled
  | close | wait | idle => exact .still

end EventLoop

namespace LoopSystem

open EventLoop (Tidy)

variable {κ τ : Type} [Transport τ] {s start after : LoopSystem κ τ}
variable {stage : Stage κ τ} {stages past future : List (Stage κ τ)}

/-- What a loop has to do with its stop predicate. -/
def watch (s : LoopSystem κ τ) : Watch κ := s.loop.watch (s.phase = .dead)

/-- What a stage is for the stop predicate. -/
def act (stage : Stage κ τ) : Watch.Act κ :=
  match stage.move with
  | .begin => .begin
  | .resume result => if stage.before.watch.asking = none then .rest else .answer result
  | _ => ((settled? stage).map (·.2.act)).getD .rest

/-- The polls that are made in a stage. -/
def polled (stage : Stage κ τ) : List (κ × Nat) := stage.events.filterMap Event.poll?

/-! ### What an act is -/

/-- What an act is read off. -/
inductive Acts (stage : Stage κ τ) : Watch.Act κ → Prop where
  | rest : Acts stage .rest
  | install {loop : EventLoop κ τ} {predicate : Option κ} {queue : List (Command κ)}
      (settled : settled? stage = some (loop, .command (.stopWhen predicate) queue)) :
      Acts stage (.install predicate)
  | begin (begins : stage.move = .begin) : Acts stage .begin
  | tick {loop : EventLoop κ τ} {timers : List (Timer κ)}
      (settled : settled? stage = some (loop, .timer .pollPredicate timers)) : Acts stage .tick
  | answer {result : Except CallbackError Bool} {predicate : κ} {index : Nat}
      (returns : stage.move = .resume result)
      (inside : stage.before.loop.engine.current? = some (.poll predicate index)) :
      Acts stage (.answer result)

omit [Transport τ] in
theorem acts (stage : Stage κ τ) : Acts stage (act stage) := by
  have turns : Acts stage (((settled? stage).map (·.2.act)).getD .rest) := by
    cases settled : settled? stage with
    | none => exact .rest
    | some found =>
      obtain ⟨loop, choice⟩ := found
      cases choice with
      | command command queue =>
        cases command with
        | stopWhen predicate => exact .install settled
        | request | callLater | countPending | flush | shutdown => exact .rest
      | timer task timers =>
        cases task with
        | pollPredicate => exact .tick settled
        | processEvents | node | callback => exact .rest
      | close | wait | idle => exact .rest
  rw [act]
  split
  · next begins => exact .begin begins
  · next result returns =>
    split
    · exact .rest
    · next asks =>
      obtain ⟨poll, asking⟩ := Option.ne_none_iff_exists'.mp asks
      obtain ⟨call, inside, is⟩ := Option.bind_eq_some_iff.mp asking
      cases call with
      | poll predicate index => exact .answer returns inside
      | data | timeout | interest | registerFailed | nodeDelay | faceDelay => cases is
  · exact turns

omit [Transport τ] in
theorem act_of_begin (begins : stage.move = .begin) : act stage = .begin := by
  rw [act, begins]

omit [Transport τ] in
/-- An answer is what the stop predicate returns. -/
theorem act_eq_answer_iff {result : Except CallbackError Bool} :
    act stage = .answer result ↔ stage.move = .resume result ∧
      ∃ predicate index, stage.before.loop.engine.current? = some (.poll predicate index) := by
  constructor
  · intro answers
    have acts := acts stage
    rw [answers] at acts
    cases acts with
    | answer returns inside => exact ⟨returns, _, _, inside⟩
  · rintro ⟨returns, predicate, index, inside⟩
    have asking : stage.before.watch.asking ≠ none := by
      rw [watch, EventLoop.watch, inside]
      exact Option.some_ne_none _
    rw [act, returns]
    exact if_neg asking

variable {interval : Duration} {time : Instant}

omit [Transport τ] in
/-- A command that is queued changes nothing yet. -/
theorem watches_of_handOff (s : LoopSystem κ τ) (command : Command κ) :
    Watch.Step interval time s.watch .rest [] (s.handOff command).watch := by
  rw [handOff, Channel.handOff]
  split
  · next handed =>
    split at handed
    · cases handed
      exact .still
    · cases handed
  · exact .still

omit [Transport τ] in
/-- A loop that is there watches its predicate. -/
theorem watch_of_alive (alive : s.phase ≠ .dead) : s.watch = s.loop.watch false := by
  rw [watch, decide_eq_false alive]

omit [Transport τ] in
/-- What the node of a loop does has nothing to do with the stop predicate. -/
theorem watches_of_owns {engine : Engine κ Outbox τ} {events : List (Event κ)}
    (running : s.phase = .running) (own : s.loop.engine.Own) (owns : engine.Owns events) :
    Watch.Step interval time s.watch .rest (events.filterMap Event.poll?) (s.withEngine engine).watch := by
  have alive : s.phase ≠ .dead := by simp [running]
  have ignores : s.loop.Ignores ({ s.loop with engine }, events, .worked) := .of_owns owns
  rw [watch_of_alive alive, watch, decide_eq_false (show (s.withEngine engine).phase ≠ .dead from alive)]
  exact ignores.rest own.unpolled

/-- What a turn does to the stop predicate. -/
theorem watches_of_turn {pick : List (Timer κ) → Option (Timer κ × List (Timer κ))}
    (running : s.phase = .running) (rest : s.loop.engine.frames = []) (lawful : LawfulPick pick)
    (attentive : Attentive s) :
    Watch.Step s.loop.engine.node.config.stopWhenInterval s.now s.watch
      (((s.loop.armNodeCalls?.map fun loop => (loop, loop.choose pick)).map (·.2.act)).getD .rest)
      ((s.loop.turnBy pick).2.1.filterMap Event.poll?) (s.settle (s.loop.turnBy pick)).watch := by
  rw [watch_of_alive (by simp [running])]
  cases armed : s.loop.armNodeCalls? with
  | none =>
    rw [EventLoop.turnBy_of_none armed]
    exact .rest id fun _ => rfl
  | some loop =>
    have engine := EventLoop.engine_of_armNodeCalls? armed
    have rest' : loop.engine.frames = [] := by
      rw [engine]
      exact rest
    have collected : loop.Serviced (s.phase ≠ .dead) :=
      attentive.serviced.of_same (.of_armNodeCalls? armed) id
    have watches := EventLoop.carryOut_watches collected rest' lawful rfl
    rw [EventLoop.watch_of_armNodeCalls? false armed, engine] at watches
    rw [EventLoop.turnBy_of_some armed]
    exact watches

omit [Transport τ] in
/-- What a callback that returns does to the stop predicate. -/
theorem watches_of_resume {call : Call κ} {result : Except CallbackError Bool} (running : s.phase = .running)
    (inside : s.loop.engine.current? = some call) (tidy : Tidy s.loop.engine) (attentive : Attentive s) :
    Watch.Step s.loop.engine.node.config.stopWhenInterval s.now s.watch
      (if s.watch.asking = none then .rest else .answer result)
      ((s.loop.resume result).2.1.filterMap Event.poll?) (s.settle (s.loop.resume result)).watch := by
  have asking : (s.loop.watch false).asking = call.poll? := by
    rw [EventLoop.watch, inside]
    rfl
  rw [watch_of_alive (by simp [running])]
  cases call with
  | poll predicate index =>
    have frames := tidy.frames_of_loops inside rfl
    have missing := attentive.asked _ _ inside
    rw [if_neg (by rw [asking]; exact Option.some_ne_none _)]
    exact EventLoop.resume_watches attentive.serviced missing frames result
  | data | timeout | interest | registerFailed | nodeDelay | faceDelay =>
    have idle : (s.loop.watch false).asking = none := asking
    rw [if_pos idle]
    exact (EventLoop.Ignores.resume tidy inside rfl result).rest idle

/-- **Every step is something that can happen to the stop predicate.** -/
theorem Step.watches (step : stage.before.Step stage.move stage.events stage.after)
    (tidy : Tidy stage.before.loop.engine) (attentive : Attentive stage.before) :
    Watch.Step stage.before.loop.engine.node.config.stopWhenInterval stage.before.now stage.before.watch
      (act stage) (polled stage) stage.after.watch := by
  obtain ⟨before, move, events, after⟩ := stage
  change before.Step move events after at step
  change Tidy before.loop.engine at tidy
  change Attentive before at attentive
  cases step with
  | queue | announce =>
    exact watches_of_handOff before _
  | lower face active => exact .rest (fun active => by cases active) id
  | begin parked begun =>
    have watches := EventLoop.begin?_watches attentive.serviced (attentive.rest parked) begun
    rw [← watch_of_alive (by simp [parked])] at watches
    exact watches
  | overflow parked late =>
    have idle : before.watch.asking = none := (Tidy.own_of_rest (attentive.rest parked)).unpolled
    exact .late idle
  | turn running rest lawful => exact watches_of_turn running rest lawful attentive
  | advance running advanced =>
    have own := tidy.own_of_advance advanced
    exact watches_of_owns running own (Engine.advance_owns own advanced)
  | resume running inside => exact watches_of_resume running inside tidy attentive
  | @perform call operation running inside handed public' =>
    have own := tidy.own_of_mine inside (Call.ofNode_of_handsNode handed)
    exact watches_of_owns running own (Engine.perform_owns own operation)
  | destroy idle => exact .rest id fun _ => rfl
  | pause running rest =>
    rw [watch_of_alive (by simp [running])]
    exact .still
  | leave | drift => exact .still

end LoopSystem

end NamedData
