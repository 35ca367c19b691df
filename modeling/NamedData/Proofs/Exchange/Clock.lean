import NamedData.Proofs.Exchange.Dropped
import NamedData.Proofs.Loop.Refinement

/-!
The lifetimes of the interests of a fetch, on the clock.

Whatever happens to an exchange, its faces keep their errands (`Exchange.Leads`), and so no errand is run
before it is due. The timeout of an interest is such an errand, due when the lifetime of the interest has
passed since it was sent (`Session.Run.punctual`). So if no answer is under way any more when the clock
shows that the lifetime of its interest is over (`Session.WithinLifetimes`), every answer reaches the
consumer in time (`Session.Run.inTime`).
-/
namespace NamedData.Exchange

variable {config : FaceConfig} {x mid after : Exchange} {role : Role}
variable {l : EventLoop ExchangeCallback LinkEnd} {pick : Pick}

section errands

variable {given new : List (Errand ExchangeCallback)} {runs fired : List (Task ExchangeCallback × Instant)}

/-- The errands of a face. It does not matter here whether its loop has collapsed. -/
def errands (x : Exchange) (role : Role) : Backlog ExchangeCallback := (x.loop role).backlog true

/-- What happens to the errands of both faces when one of them is given some and runs some. -/
structure Leads (x : Exchange) (role : Role) (given : List (Errand ExchangeCallback))
    (runs : List (Task ExchangeCallback × Instant)) (after : Exchange) : Prop where
  own : (x.errands role).Steps given runs (after.errands role)
  other : (x.errands role.other).Steps [] [] (after.errands role.other)

namespace Leads

theorem refl (x : Exchange) (role : Role) : x.Leads role [] [] x := ⟨.refl, .refl⟩

theorem trans (first : x.Leads role given runs mid) (second : mid.Leads role new fired after) :
    x.Leads role (given ++ new) (runs ++ fired) after :=
  ⟨first.own.trans second.own, first.other.trans second.other⟩

/-- To put back a loop shows the other one the time, and leaves its errands alone. -/
theorem setLoop (tidy : x.Tidy config) (steps : (x.errands role).Steps given runs (l.backlog true)) :
    x.Leads role given runs (x.setLoop role l) where
  own := by
    have put : (x.setLoop role l).errands role = l.backlog true := by rw [errands, loop_setLoop]
    rw [put]
    exact steps
  other := by
    have clock : (x.errands role.other).now = (x.errands role).now :=
      (tidy.now_eq role.other).trans (tidy.now_eq role).symm
    have later : (x.errands role.other).now ≤ l.engine.host.now := by
      rw [clock]
      exact steps.now_le
    have follows : (x.setLoop role l).errands role.other =
        { x.errands role.other with now := l.engine.host.now } := by
      cases role <;> rfl
    rw [follows]
    exact .single (.wait later)

/-- A loop that is put back with the errands it had. -/
theorem keep (tidy : x.Tidy config) (same : l.backlog true = x.errands role) :
    x.Leads role [] [] (x.setLoop role l) := by
  refine .setLoop tidy ?_
  rw [same]
  exact .refl

/-- What happens to each face. -/
theorem face (leads : x.Leads role given runs after) (face : Role) :
    (x.errands face).Steps (if role = face then given else []) (if role = face then runs else [])
      (after.errands face) := by
  by_cases own : role = face
  · obtain rfl := own
    simpa using leads.own
  · have other : face = role.other := by cases role <;> cases face <;> simp_all [Role.other]
    obtain rfl := other
    simpa [own] using leads.other

end Leads

/-! ## Commands -/

/-- A command that is no errand is queued. -/
theorem leads_queue (tidy : x.Tidy config) (role : Role) (command : Command ExchangeCallback)
    (plain : command.later? = none) : x.Leads role [] [] (x.queue role command) := by
  have queued := EventLoop.backlog_queue (x.loop role) command true
  rw [plain, Option.toList_none, List.append_nil] at queued
  rw [tidy.queue_eq]
  exact .keep tidy queued

theorem leads_drawId (tidy : x.Tidy config) (role : Role) : x.Leads role [] [] (x.drawId role).2 :=
  .keep tidy rfl

/-- Time passes. -/
theorem leads_setNow (tidy : x.Tidy config) {now : Instant} (later : x.now ≤ now) :
    x.Leads .consumer [] [] (x.setNow now) :=
  .setLoop tidy (.single (.wait later))

theorem leads_begin (tidy : x.Tidy config) (begun : x.begin? role = some after) :
    x.Leads role [] [] after := by
  obtain ⟨l, starts, rfl⟩ := Option.map_eq_some_iff.mp begun
  exact .keep tidy (EventLoop.backlog_of_begin? true starts)

theorem leads_shutdown (tidy : x.Tidy config) (role : Role) : x.Leads role [] [] (x.shutdown role) := by
  by_cases active : (x.loop role).channel.active = true
  · have queued := EventLoop.backlog_queue (x.loop role) .shutdown true
    simp only [Command.later?, Option.toList_none, List.append_nil] at queued
    rw [tidy.shutdown_eq active]
    exact .keep tidy queued
  · rw [shutdown_eq_of_inactive active]
    exact .keep tidy rfl

theorem leads_register (tidy : x.Tidy config) : x.Leads .producer [] [] x.register :=
  (leads_drawId tidy .producer).trans (leads_queue (handed_drawId tidy .producer).tidy .producer _ rfl)

theorem leads_express (tidy : x.Tidy config) {demand : Demand} (waits : demand.cancelled = false) :
    x.Leads .consumer [] [] (x.express demand).2 := by
  simp only [express, waits]
  exact (leads_drawId tidy .consumer).trans
    (leads_queue (handed_drawId tidy .consumer).tidy .consumer _ rfl)

/-! ## Steps -/

/-- What is noted of a step is no errand. -/
theorem errands_note (x : Exchange) (events : List (Event ExchangeCallback)) (role : Role) :
    (x.note events).errands role = x.errands role := by
  rw [note_eq]
  cases role <;> rfl

theorem Leads.note (leads : x.Leads role given runs after) (events : List (Event ExchangeCallback)) :
    x.Leads role given runs (after.note events) where
  own := by
    rw [errands_note]
    exact leads.own
  other := by
    rw [errands_note]
    exact leads.other

/-- The errands of an exchange with the same loops. -/
theorem Leads.of_loops (consumer : after.consumer = x.consumer) (producer : after.producer = x.producer) :
    x.Leads role [] [] after := by
  have same : ∀ face, after.errands face = x.errands face := by
    intro face
    cases face
    exacts [congrArg (·.backlog true) consumer, congrArg (·.backlog true) producer]
  constructor
  · rw [same]
    exact .refl
  · rw [same]
    exact .refl

/-- A callback gives no errand. -/
theorem leads_react (tidy : x.Tidy config) (role : Role) (call : Call ExchangeCallback) :
    x.Leads role [] [] (x.react role call).1 := by
  rw [react.eq_def]
  split
  case h_5 entry interest answers =>
    -- The answer is sent at once, so all that changes is the link.
    have counted : x.Leads role [] [] { x with received := x.received + 1 } := .of_loops rfl rfl
    have same : ({ x with received := x.received + 1 } : Exchange).loop role = x.loop role := by
      cases role <;> rfl
    dsimp only
    split
    · exact counted
    · rw [same, engine_putData (tidy.tame role)]
      refine counted.trans (.keep (tidy.of_loops rfl rfl) ?_)
      rw [errands, same]
      rfl
  all_goals exact .of_loops rfl rfl

/-- What is seen of a step of a loop comes from the loop itself, or is the log record of a callback that has
failed. -/
theorem own_of_shown {event : Event ExchangeCallback} (member : event ∈ x.shown pick role) :
    (∃ notice, event = .logged notice) ∨ ∃ outcome, (x.loop role).engine.current? = none ∧
      (x.loop role).stepBy? pick = some outcome ∧ event ∈ outcome.2.1 := by
  cases inside : (x.loop role).engine.current? with
  | some call =>
    obtain ⟨-, shows⟩ := stepBy_of_current? inside rfl
    rw [shows] at member
    exact .inl (EventLoop.logged_of_resume member)
  | none =>
    cases taken : (x.loop role).stepBy? pick with
    | none =>
      rw [(stepBy_of_none inside taken).2] at member
      cases member
    | some outcome =>
      rw [(stepBy_of_some inside taken).2] at member
      exact .inr ⟨outcome, rfl, rfl, member⟩

/-- A step of a loop leads its errands on. An interest that times out is an errand that is run. -/
theorem leads_stepBy (lawful : LawfulPick pick) (tidy : x.Tidy config) (role : Role) :
    ∃ runs, x.Leads role (armings (x.shown pick role) x.now) runs (x.stepBy pick role).1 ∧
      ∀ entry onTimeout, .called (.timeout entry onTimeout) ∈ x.shown pick role →
        (.node (.timeout entry), x.now) ∈ runs := by
  cases inside : (x.loop role).engine.current? with
  | some call =>
    rcases reacted : x.react role call with ⟨mid, verdict⟩
    have told := reacts tidy role call
    have leads := leads_react tidy role call
    rw [reacted] at told leads
    obtain ⟨outcome, shows⟩ := stepBy_of_current? inside reacted
    have silent : ∀ event ∈ x.shown pick role, ∃ notice, event = .logged notice := by
      rw [shows]
      exact fun event => EventLoop.logged_of_resume
    have unarmed : armings (x.shown pick role) x.now = [] := by
      rw [armings, List.filterMap_eq_nil_iff.mpr, List.map_nil]
      intro event member
      obtain ⟨notice, rfl⟩ := silent event member
      rfl
    have same := EventLoop.resume_backlog (mid.loop role) verdict true
    have kept := leads.trans (.keep told.tidy same)
    rw [outcome, unarmed]
    refine ⟨[], kept.note _, ?_⟩
    intro entry onTimeout member
    obtain ⟨notice, other⟩ := silent _ member
    cases other
  | none =>
    cases taken : (x.loop role).stepBy? pick with
    | none =>
      obtain ⟨outcome, shows⟩ := stepBy_of_none inside taken
      rw [outcome, shows]
      exact ⟨[], .refl x role, fun _ _ member => absurd member List.not_mem_nil⟩
    | some outcome =>
      obtain ⟨same, shows⟩ := stepBy_of_some inside taken
      obtain ⟨run, does⟩ := EventLoop.stepBy?_does lawful (tidy.tame role).batches taken
      have steps := does.steps.doomed
      rw [tidy.now_eq] at steps
      rw [same, shows]
      refine ⟨_, (Leads.setLoop tidy steps).note _, ?_⟩
      intro entry onTimeout member
      have told : .node (.timeout entry) ∈ outcome.2.1.filterMap Event.task? :=
        List.mem_filterMap.mpr ⟨_, member, rfl⟩
      exact List.mem_map_of_mem (does.told.only.subset told)

end errands

/-! ## Sessions -/

variable {o : CommandLine.FetchOptions} {host : Host} {taken refused : Nat} {start s next : Session}
variable {stages : List Session.Stage} {move : SessionMove} {events : List (Event ExchangeCallback)}

/-- The face whose loop takes a step. -/
def SessionMove.role? : SessionMove → Option Role
  | .step role => some role
  | _ => none

/-- The errands that a face is given in a stage of a session. -/
def Session.given (role : Role) (stage : Session.Stage) : List (Errand ExchangeCallback) :=
  if stage.move.role? = some role then armings stage.events stage.before.exchange.now else []

/-- What a stage of a session does to the errands of a face. -/
structure Session.Leads (stage : Session.Stage) (role : Role)
    (runs : List (Task ExchangeCallback × Instant)) : Prop where
  steps : (stage.before.exchange.errands role).Steps (Session.given role stage) runs
    (stage.after.exchange.errands role)
  expires : stage.move.role? = some role → ∀ entry onTimeout,
    .called (.timeout entry onTimeout) ∈ stage.events →
      (.node (.timeout entry), stage.before.exchange.now) ∈ runs

/-- A move that is no step of a loop gives no errand. -/
theorem Session.Leads.quiet {stage : Session.Stage} {face : Role}
    (leads : stage.before.exchange.Leads face [] [] stage.after.exchange)
    (other : stage.move.role? = none) (role : Role) : Session.Leads stage role [] where
  steps := by
    rw [Session.given, other, if_neg nofun]
    simpa using leads.face role
  expires same := by
    rw [other] at same
    cases same

/-- **Whatever happens to a fetch, its faces keep their errands.** -/
theorem Accounts.leads (accounts : Accounts o config host taken refused s) (step : s.Step move events next)
    (role : Role) : ∃ runs, Session.Leads ⟨s, move, events, next⟩ role runs := by
  have tidy := accounts.tidy
  cases step with
  | @step face pick begun lawful =>
    obtain ⟨runs, leads, expires⟩ := leads_stepBy lawful tidy face
    have same : (Session.setTurn { s with exchange := (s.exchange.stepBy pick face).1 } face
        (some (s.exchange.stepBy pick face).2)).exchange = (s.exchange.stepBy pick face).1 := by
      cases face <;> rfl
    refine ⟨if face = role then runs else [], ?_, ?_⟩
    · have steps := leads.face role
      simp only [Session.given, SessionMove.role?, Option.some.injEq, same]
      exact steps
    · intro mine entry onTimeout member
      obtain rfl := Option.some.inj mine
      rw [if_pos rfl]
      exact expires entry onTimeout member
  | pass later => exact ⟨[], .quiet (leads_setNow tidy later) rfl role⟩
  | @begin face exchange resting time begun =>
    have leads := leads_begin tidy begun
    refine ⟨[], .quiet (?_ : s.exchange.Leads face [] [] _) rfl role⟩
    cases face <;> exact leads
  | register first => exact ⟨[], .quiet (leads_register tidy) rfl role⟩
  | proceed asked done granted => exact ⟨[], .quiet (.refl s.exchange .producer) rfl role⟩
  | express first =>
    have waited := accounts.waited
    rw [first] at waited
    exact ⟨[], .quiet (leads_express tidy (waited _ List.mem_cons_self)) rfl role⟩
  | watch all => exact ⟨[], .quiet (leads_queue tidy .consumer _ rfl) rfl role⟩
  | ask awaited ended =>
    have first := handed_queue tidy .consumer (.stopWhen none) rfl
    have leads := (leads_queue tidy .consumer (.stopWhen none) rfl).trans
      (leads_queue first.tidy .consumer (.countPending (some 0)) rfl)
    exact ⟨[], .quiet leads rfl role⟩
  | leave asked => exact ⟨[], .quiet (leads_shutdown tidy .consumer) rfl role⟩
  | close left ended => exact ⟨[], .quiet (leads_shutdown tidy .producer) rfl role⟩
  | finish closed ended => exact ⟨[], .quiet (.refl s.exchange .producer) rfl role⟩

/-- A loop that has not run yet has no errands. -/
theorem kept_start? {side : Side}
    (started : EventLoop.start? { config, format := jsonFormat, scheduler := {} }
      ({ side } : LinkEnd) host = some l) : (l.backlog true).Kept [] [] := by
  obtain ⟨deadline, rfl⟩ := EventLoop.eq_of_arm? started
  exact .start rfl rfl rfl

/-- Nor have the faces of a fetch that has not been begun. -/
theorem kept_open? (opened : Session.open? o.plan config host = some start) (role : Role) :
    (start.exchange.errands role).Kept [] [] := by
  obtain ⟨x, started, rfl⟩ := Option.map_eq_some_iff.mp opened
  rw [start?] at started
  split at started
  · next consumer producer mine theirs =>
    cases started
    cases role
    exacts [kept_start? mine, kept_start? theirs]
  · cases started

/-- **The faces of a fetch keep their errands** in the course of every run. -/
theorem Session.Run.kept (opened : Session.open? o.plan config host = some start) (run : start.Run stages s)
    (role : Role) : ∃ runs, (s.exchange.errands role).Kept (stages.flatMap (Session.given role)) runs ∧
      ∀ stage ∈ stages, stage.move.role? = some role → ∀ entry onTimeout,
        .called (.timeout entry onTimeout) ∈ stage.events →
          (.node (.timeout entry), stage.before.exchange.now) ∈ runs := by
  apply run.invariant
  · exact ⟨[], kept_open? opened role, List.forall_mem_nil _⟩
  · intro past stage earlier step ⟨runs, kept, expires⟩
    obtain ⟨taken, accounts⟩ := Session.Run.accounts opened earlier
    obtain ⟨fired, leads⟩ := accounts.leads step role
    refine ⟨runs ++ fired, ?_, ?_⟩
    · rw [List.flatMap_append, List.flatMap_singleton]
      exact kept.steps leads.steps
    · intro other member same entry onTimeout expired
      rcases List.mem_append.mp member with old | new
      · exact List.mem_append_left _ (expires other old same entry onTimeout expired)
      · obtain rfl := List.mem_singleton.mp new
        exact List.mem_append_right _ (leads.expires same entry onTimeout expired)

/-- A timeout is armed for the lifetime of its interest. -/
theorem Session.Step.lifetime (step : s.Step move events next) {delay : Duration}
    {entry : PendingInterest ExchangeCallback} (armed : .armed delay (.timeout entry) ∈ events) :
    entry.interest.lifetime = some delay := by
  cases step with
  | step begun lawful =>
    rcases own_of_shown armed with ⟨notice, other⟩ | ⟨outcome, inside, taken, seen⟩
    · cases other
    · exact EventLoop.lifetime_of_stepBy? taken seen
  | pass | begin | register | proceed | express | watch | ask | leave | close | finish => cases armed

/-- Something is seen only of the steps of the loops. -/
theorem Session.Step.role?_of_mem {event : Event ExchangeCallback} (step : s.Step move events next)
    (member : event ∈ events) : ∃ role, move.role? = some role := by
  cases step with
  | step begun lawful => exact ⟨_, rfl⟩
  | pass | begin | register | proceed | express | watch | ask | leave | close | finish => cases member

/-- **No interest expires before its lifetime is over**, as the clock shows it. -/
theorem Session.Run.punctual {stage : Session.Stage} {past future : List Session.Stage}
    (opened : Session.open? o.plan config host = some start)
    (run : start.Run (past ++ stage :: future) s) {entry : PendingInterest ExchangeCallback}
    {onTimeout : ExchangeCallback} (expired : .called (.timeout entry onTimeout) ∈ stage.events) :
    ∃ sent ∈ past ++ [stage], ∃ delay, .armed delay (.timeout entry) ∈ sent.events ∧
      entry.interest.lifetime = some delay ∧
      sent.before.exchange.now.nanos + delay.toNanos ≤ stage.before.exchange.now.nanos := by
  obtain ⟨role, mine⟩ := run.at_stage.2.role?_of_mem expired
  obtain ⟨runs, kept, expires⟩ := Session.Run.kept opened run.through role
  have last : stage ∈ past ++ [stage] := List.mem_append_right _ (List.mem_singleton_self stage)
  obtain ⟨e, given, task, due⟩ := kept.of_run (expires stage last mine entry onTimeout expired)
  obtain ⟨sent, earlier, gives⟩ := List.mem_flatMap.mp given
  rw [Session.given] at gives
  split at gives
  · obtain ⟨⟨delay, call⟩, arms, rfl⟩ := List.mem_map.mp gives
    obtain rfl := Task.node.inj task
    obtain ⟨event, seen, armed⟩ := List.mem_filterMap.mp arms
    obtain rfl := Event.eq_armed_of_arming? armed
    obtain ⟨before, after, same⟩ := List.append_of_mem earlier
    have whole := run.through
    rw [same] at whole
    exact ⟨sent, earlier, delay, seen, whole.at_stage.2.lifetime seen, due⟩
  · cases gives

/-- The interest whose lifetime begins, when its timeout is armed. -/
def begun? : Event ExchangeCallback → Option Interest
  | .armed _ (.timeout entry) => some entry.interest
  | _ => none

/-- Every answer reaches the consumer before the lifetime of its interest ends: whenever the clock shows that
so much time has passed since an interest was sent that the producer answers, neither the interest nor its
answer is under way. -/
def Session.WithinLifetimes (o : CommandLine.FetchOptions) (host : Host) (stages : List Session.Stage) :
    Prop :=
  ∀ sent ∈ stages, ∀ event ∈ sent.events, ∀ number < o.count.toNat,
    begun? event = some (o.sent host number) → o.answers number = true →
      ∀ later ∈ stages,
        sent.before.exchange.now.nanos + (Duration.ofMillis o.lifetimeMillis).toNanos ≤
          later.before.exchange.now.nanos →
        later.before.exchange.inTransit (o.interest number).name = false

instance (o : CommandLine.FetchOptions) (host : Host) (stages : List Session.Stage) :
    Decidable (Session.WithinLifetimes o host stages) :=
  inferInstanceAs (Decidable (∀ sent ∈ stages, ∀ event ∈ sent.events, ∀ number < o.count.toNat,
    begun? event = some (o.sent host number) → o.answers number = true →
      ∀ later ∈ stages,
        sent.before.exchange.now.nanos + (Duration.ofMillis o.lifetimeMillis).toNanos ≤
          later.before.exchange.now.nanos →
        later.before.exchange.inTransit (o.interest number).name = false))

/-- **Answers that arrive within the lifetimes of their interests arrive in time.** -/
theorem Session.Run.inTime (opened : Session.open? o.plan config host = some start)
    (run : start.Run stages s) (within : Session.WithinLifetimes o host stages) :
    Session.InTime o host stages := by
  intro stage member event seen number counts lapses answers
  obtain ⟨entry, onTimeout, rfl, same⟩ := eq_called_of_lapsed? lapses
  obtain ⟨past, future, rfl⟩ := List.append_of_mem member
  obtain ⟨sent, earlier, delay, armed, lifetime, due⟩ := Session.Run.punctual opened run seen
  have lives : delay = .ofMillis o.lifetimeMillis := by
    rw [same] at lifetime
    exact (Option.some.inj lifetime).symm
  have among : sent ∈ past ++ stage :: future := by
    rw [List.append_cons]
    exact List.mem_append_left _ earlier
  rw [lives] at due
  exact within sent among _ armed number counts (congrArg some same) answers stage member due

/-- A fetch that comes to its end has concluded, if the answers arrive within the lifetimes of their
interests. -/
theorem Session.Run.concluded (opened : Session.open? o.plan config host = some start)
    (run : start.Run stages s) (finished : s.progress = .finished)
    (fits : ∀ number < o.count.toNat, o.answers number = true →
      (Packet.data (o.answer number)).toJson.length ≤ config.maxPacketSize.toNat)
    (within : Session.WithinLifetimes o host stages) : Concluded o host s.exchange.outcomes := by
  have late : s.progress.late = true := by rw [finished]; rfl
  obtain ⟨taken, accounts⟩ := Session.Run.accounts opened run
  obtain ⟨-, -, short⟩ := accounts.complete late
  exact (run.delivers opened short fits (Session.Run.inTime opened run within)).late late

/-- The answer of a fetch of two interests, the second of which is dropped, arrives within its lifetime. -/
example :
    let o : CommandLine.FetchOptions := { root := ⟨[]⟩, count := 2, dropEvery := some 2 }
    let host : Host := { now := ⟨0⟩, nonces := fun number => UInt32.ofNat number }
    (Session.open? o.plan {} host).map (fun start =>
      decide (Session.WithinLifetimes o host (start.play secondDropped).1)) = some true := by
  decide +kernel

end NamedData.Exchange
