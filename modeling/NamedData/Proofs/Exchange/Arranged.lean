import NamedData.Proofs.Exchange.Accounting
import NamedData.Proofs.Exchange.Resting

/-!
The fetch that the program arranges.

The program lets the two loops of a fetch take turns in one particular order. What that order comes to, a
session can come to (`session_of_run`): whatever holds at the end of every session holds of what the program
reports.
-/
namespace NamedData.Exchange

/-! ## Invariants of what the program does -/

/-- What is kept by every turn of a loop is kept while that loop runs alone. -/
theorem runAlone_invariant {P : Exchange → Turn → Prop} {role : Role} {x : Exchange}
    (keeps : ∀ x turn, P x turn → P (x.turn role).1 (x.turn role).2)
    (first : P (x.turn role).1 (x.turn role).2) {fuel : Nat} (runs : 0 < fuel) :
    ∃ last, P (runAlone fuel role x).1 last ∧
      ∀ exit, (runAlone fuel role x).2 = some exit → last = .exited exit := by
  obtain ⟨fuel, rfl⟩ := Nat.exists_eq_add_of_lt runs
  rw [Nat.zero_add]
  clear runs
  induction fuel generalizing x with
  | zero =>
    rw [runAlone]
    split
    · next same =>
      rw [same] at first
      exact ⟨_, first, nofun⟩
    · next same =>
      rw [same] at first
      exact ⟨_, first, fun exit ended => congrArg _ (Option.some.inj ended)⟩
    · next same =>
      rw [same] at first
      exact ⟨_, first, nofun⟩
  | succ fuel ih =>
    rw [runAlone]
    split
    · next same =>
      rw [same] at first
      exact ih (keeps _ _ first)
    · next same =>
      rw [same] at first
      exact ⟨_, first, fun exit ended => congrArg _ (Option.some.inj ended)⟩
    · next same =>
      rw [same] at first
      exact ⟨_, first, nofun⟩

theorem runAlone_of_worked {role : Role} {x : Exchange} (worked : (x.turn role).2 = .worked) (fuel : Nat) :
    runAlone (fuel + 1) role x = runAlone fuel role (x.turn role).1 := by
  rw [runAlone]
  split
  · next same => rw [same]
  · next same =>
    rw [same] at worked
    cases worked
  · next works ends same =>
    rw [same] at worked
    exact absurd worked works

theorem runAlone_of_exited {role : Role} {x : Exchange} {exit : LoopExit}
    (ended : (x.turn role).2 = .exited exit) (fuel : Nat) :
    runAlone (fuel + 1) role x = ((x.turn role).1, some exit) := by
  rw [runAlone]
  split
  · next same =>
    rw [same] at ended
    cases ended
  · next same =>
    rw [same] at ended
    cases ended
    rw [same]
  · next others same =>
    rw [same] at ended
    exact absurd ended (others exit)

/-- While the loops take turns the consumer's run ends in its next turn, or the producer's loop takes a turn,
too, and the loops go on, perhaps after some time. -/
theorem runBoth_cases {x after : Exchange} {fuel : Nat} {exit : LoopExit}
    (ran : runBoth (fuel + 1) x = (after, some exit)) :
    x.turn .consumer = (after, .exited exit) ∨
      (∀ exit, (x.turn .consumer).2 ≠ .exited exit) ∧ ∃ next, runBoth fuel next = (after, some exit) ∧
        (next = ((x.turn .consumer).1.turn .producer).1 ∨
          ∃ wake, next = ((x.turn .consumer).1.turn .producer).1.sleepUntil wake) := by
  rw [runBoth] at ran
  split at ran
  next mid mine same =>
  rw [same]
  split at ran
  · cases ran
    exact .inl rfl
  · cases ran
  · next goesOn _ =>
    refine .inr ⟨goesOn, ?_⟩
    dsimp only at ran
    split at ran
    · split at ran
      · exact ⟨_, ran, .inr ⟨_, rfl⟩⟩
      · cases ran
    · exact ⟨_, ran, .inl rfl⟩

/-! ## How far a session comes -/

/-- A session can come so far. -/
def Session.Reaches (start s : Session) : Prop := ∃ stages, start.Run stages s

variable {o : CommandLine.FetchOptions} {config : FaceConfig} {host : Host} {start s : Session}
variable {x after : Exchange}

theorem Session.Reaches.move {move : SessionMove} {events : List (Event ExchangeCallback)} {next : Session}
    (reaches : start.Reaches s) (step : s.Step move events next) : start.Reaches next := by
  obtain ⟨stages, run⟩ := reaches
  exact ⟨stages ++ [⟨s, move, events, next⟩], .step run step⟩

/-- A turn of a loop is a step of it, and the moment that it takes. -/
theorem Session.Reaches.turn (reaches : start.Reaches s) (role : Role) (begun : (s.turn role).isSome = true) :
    start.Reaches (Session.setTurn { s with exchange := (s.exchange.turn role).1 } role
      (some (s.exchange.turn role).2)) := by
  have stepped := reaches.move (.step begun lawfulPick_takeFirst)
  have later : (s.exchange.step role).1.now ≤ ⟨(s.exchange.step role).1.now.nanos + 1000⟩ :=
    Nat.le_add_right ..
  cases role
  · exact stepped.move (.pass later)
  · exact stepped.move (.pass later)

/-- A loop is begun. -/
theorem Session.Reaches.begin {role : Role} (reaches : start.Reaches s)
    (begun : s.exchange.begin? role = some after) (resting : s.turn role = none)
    (time : s.progress.begins role = true) :
    start.Reaches (Session.setTurn { s with exchange := after } role (some .worked)) :=
  reaches.move (.begin resting time begun)

/-- Time passes until something can be done. -/
theorem Session.Reaches.sleepUntil (reaches : start.Reaches s) (millis : Nat) :
    start.Reaches { s with exchange := s.exchange.sleepUntil millis } := by
  rw [Exchange.sleepUntil]
  split
  · next later => exact reaches.move (.pass (Nat.le_of_lt later))
  · exact reaches

/-- A loop that has been begun runs alone. -/
theorem Session.Reaches.runAlone (reaches : start.Reaches s) (role : Role)
    (begun : (s.turn role).isSome = true) {fuel : Nat} (runs : 0 < fuel) :
    ∃ last, start.Reaches (Session.setTurn
        { s with exchange := (Exchange.runAlone fuel role s.exchange).1 } role (some last)) ∧
      ∀ exit, (Exchange.runAlone fuel role s.exchange).2 = some exit → last = .exited exit := by
  refine runAlone_invariant (P := fun x turn =>
    start.Reaches (Session.setTurn { s with exchange := x } role (some turn))) ?_
    (reaches.turn role begun) runs
  intro x turn reaches
  have next := reaches.turn role (by cases role <;> rfl)
  cases role
  · exact next
  · exact next

/-- The accounts are kept wherever a session comes. -/
theorem Session.Reaches.accounts (opened : Session.open? o.plan config host = some start)
    (reaches : start.Reaches s) : ∃ taken refused, Accounts o config host taken refused s := by
  obtain ⟨stages, run⟩ := reaches
  obtain ⟨taken, accounts⟩ := Session.Run.accounts opened run
  exact ⟨taken, _, accounts⟩

theorem Session.Reaches.tidy (opened : Session.open? o.plan config host = some start)
    (reaches : start.Reaches s) : s.exchange.Tidy config := by
  obtain ⟨taken, refused, accounts⟩ := reaches.accounts opened
  exact accounts.tidy

/-! ## The turns of the two loops -/

theorem sees_turn_other (tidy : x.Tidy config) (role : Role) :
    Sees (x.loop role.other) ((x.turn role).1.loop role.other) :=
  (sees_step tidy role).trans (sees_setNow ..)

theorem sees_turn (x : Exchange) (role : Role) :
    Sees ((x.step role).1.loop role) ((x.turn role).1.loop role) := sees_setNow ..

theorem sees_sleepUntil (x : Exchange) (millis : Nat) (face : Role) :
    Sees (x.loop face) ((x.sleepUntil millis).loop face) := by
  rw [sleepUntil]
  split
  · exact sees_setNow ..
  · exact .refl _

/-- What lies on the desk of a loop that sees something else. -/
theorem Sees.desk {l other : EventLoop ExchangeCallback LinkEnd} (sees : Sees l other) :
    other.desk.work = l.desk.work ∧ other.desk.queue = l.desk.queue := by
  obtain ⟨last, rfl⟩ := sees
  exact ⟨rfl, rfl⟩

/-- A session is opened when its loops are started. -/
theorem open?_of_start? (started : start? o.plan config host = some x) :
    Session.open? o.plan config host = some { exchange := x } := by
  rw [Session.open?, started]
  rfl

/-- The producer has been asked to register its prefix, and has taken the command. -/
structure Registers (start : Session) (x : Exchange) (turn : Turn) : Prop where
  reaches : start.Reaches ⟨x, .registering, none, some turn⟩
  rests : x.consumer.Rests {}
  taken : x.producer.channel.queue = []

theorem Registers.turn {last : Turn} (opened : Session.open? o.plan config host = some start)
    (registers : Registers start x last) : Registers start (x.turn .producer).1 (x.turn .producer).2 where
  reaches := registers.reaches.turn .producer rfl
  rests := (sees_turn_other (registers.reaches.tidy opened) .producer).rests registers.rests
  taken := by
    obtain ⟨deed, stepped⟩ := stepped lawfulPick_takeFirst (registers.reaches.tidy opened) .producer
    obtain ⟨link, before⟩ := x.before_eq config .producer deed
    have queued := stepped.step.queued
    rw [before] at queued
    refine (sees_turn x .producer).desk.2.trans ?_
    rcases queued with ⟨same, -⟩ | ⟨command, first, -⟩
    · exact same.trans registers.taken
    · cases registers.taken.symm.trans first

/-- **The producer's prefix is registered.** -/
theorem Registers.of_serve? {fuel : Nat} (started : start? o.plan config host = some x)
    (served : x.serve? fuel = some after) (runs : 0 < fuel) : ∃ last, Registers { exchange := x } after last := by
  have opened := open?_of_start? started
  obtain ⟨ready, begun, rfl⟩ := Option.map_eq_some_iff.mp served
  have asked : Session.Reaches { exchange := x } ⟨x.register, .registering, none, none⟩ :=
    Session.Reaches.move ⟨[], .start⟩ (.register rfl)
  have begins : Session.Reaches { exchange := x } ⟨ready, .registering, none, some .worked⟩ :=
    asked.begin begun rfl rfl
  have mine := (sees_drawId x .producer .consumer).trans
    ((sees_queue (x.drawId .producer).2 .producer _).trans (sees_begin begun))
  have theirs := rests_begin (rests_queue ((sees_drawId x .producer .producer).rests
    (rests_start? started .producer)) rfl _) begun
  have first : Registers { exchange := x } (ready.turn .producer).1 (ready.turn .producer).2 := {
    reaches := begins.turn .producer rfl
    rests := (mine.trans (sees_turn_other (begins.tidy opened) .producer)).rests (rests_start? started .consumer)
    taken := by
      obtain ⟨taken, turn⟩ := step_of_rests theirs rfl
      refine (congrArg Channel.queue (sees_turn ready .producer).channel).trans ?_
      rw [taken]
      simp only [EventLoop.execute]
      split <;> rfl }
  obtain ⟨last, registers, -⟩ := runAlone_invariant (fun x turn => Registers.turn opened) first runs
  exact ⟨last, registers⟩

/-! ## Expressing -/

/-- The interests are being expressed, and the consumer's loop has not been begun. -/
structure Expresses (start : Session) (left : List Demand) (x : Exchange) : Prop where
  reaches : ∃ last, start.Reaches ⟨x, .expressing left, none, some last⟩
  rests : ∃ queue, x.consumer.Rests { queue }

/-- An interest is expressed. -/
theorem Expresses.express {demand : Demand} {left : List Demand}
    (expresses : Expresses start (demand :: left) x) : Expresses start left (x.express demand).2 where
  reaches := by
    obtain ⟨last, reaches⟩ := expresses.reaches
    exact ⟨last, reaches.move (.express rfl)⟩
  rests := by
    obtain ⟨queue, rests⟩ := expresses.rests
    have asked := rests_queue ((sees_drawId x .consumer .consumer).rests rests) rfl
      (.request (.express (x.drawId .consumer).1 demand.interest .delivered (some .expired)))
    simp only [Exchange.express]
    split
    · exact ⟨_, rests_queue asked rfl _⟩
    · exact ⟨_, asked⟩

/-- All interests are expressed, one after another. -/
theorem Expresses.all {demands : List Demand} (expresses : Expresses start demands x) :
    Expresses start [] (x.expressAll demands).2 := by
  induction demands generalizing x with
  | nil => exact expresses
  | cons demand demands ih => exact ih expresses.express

/-! ## Waiting -/

/-- Both loops have been begun, and the consumer's is waited for. -/
structure Awaits (start : Session) (x : Exchange) : Prop where
  reaches : ∃ mine theirs, start.Reaches ⟨x, .awaiting, some mine, some theirs⟩
  orderly : x.consumer.Orderly
  channel : ∃ queue, x.consumer.channel = { queue }

theorem Awaits.tidy (opened : Session.open? o.plan config host = some start) (awaits : Awaits start x) :
    x.Tidy config := by
  obtain ⟨mine, theirs, reaches⟩ := awaits.reaches
  exact reaches.tidy opened

/-- The consumer's loop is begun when all interests have been expressed. -/
theorem Expresses.watch (expresses : Expresses start [] x)
    (begun : (x.queue .consumer (.stopWhen (some .finished))).begin? .consumer = some after) :
    Awaits start after ∧ ∃ queue, queue ≠ [] ∧ after.consumer.Rests { queue } := by
  obtain ⟨last, reaches⟩ := expresses.reaches
  obtain ⟨queue, rests⟩ := expresses.rests
  have ready := rests_begin (rests_queue rests rfl _) begun
  refine ⟨?_, _, by simp, ready⟩
  exact {
    reaches := ⟨.worked, last, (reaches.move (.watch rfl)).begin begun rfl rfl⟩
    orderly := .of_rest ready.frames
    channel := ⟨_, ready.channel⟩ }

/-- What the consumer's loop does not notice does not end the waiting. -/
theorem Awaits.unnoticed {later : Exchange} {mine theirs : Turn} (awaits : Awaits start x)
    (reaches : start.Reaches ⟨later, .awaiting, some mine, some theirs⟩)
    (sees : Sees (x.loop .consumer) (later.loop .consumer)) : Awaits start later where
  reaches := ⟨mine, theirs, reaches⟩
  orderly := sees.orderly awaits.orderly
  channel := by
    obtain ⟨queue, same⟩ := awaits.channel
    exact ⟨queue, sees.channel.trans same⟩

/-- Time passes until something can be done. -/
theorem Awaits.sleepUntil (awaits : Awaits start x) (millis : Nat) :
    Awaits start (x.sleepUntil millis) := by
  obtain ⟨mine, theirs, reaches⟩ := awaits.reaches
  exact awaits.unnoticed (reaches.sleepUntil millis) (sees_sleepUntil x millis .consumer)

/-- The consumer's loop takes a turn that does not end its run. -/
theorem Awaits.turn_consumer (opened : Session.open? o.plan config host = some start)
    (awaits : Awaits start x) (goesOn : ∀ exit, (x.turn .consumer).2 ≠ .exited exit) :
    Awaits start (x.turn .consumer).1 where
  reaches := by
    obtain ⟨mine, theirs, reaches⟩ := awaits.reaches
    exact ⟨_, theirs, reaches.turn .consumer rfl⟩
  orderly := (sees_turn x .consumer).orderly (orderly_step (awaits.tidy opened) awaits.orderly)
  channel := by
    obtain ⟨queue, same⟩ := awaits.channel
    obtain ⟨rest, kept⟩ := channel_of_step (awaits.tidy opened) .consumer (goesOn .shutdown)
    refine ⟨rest, (sees_turn x .consumer).channel.trans (kept.trans ?_)⟩
    change ({ x.consumer.channel with queue := rest } : Channel ExchangeCallback) = _
    rw [same]

theorem Awaits.turn_producer (opened : Session.open? o.plan config host = some start)
    (awaits : Awaits start x) : Awaits start (x.turn .producer).1 := by
  obtain ⟨mine, theirs, reaches⟩ := awaits.reaches
  exact awaits.unnoticed (reaches.turn .producer rfl) (sees_turn_other (awaits.tidy opened) .producer)

/-- The consumer's first run ends only with a poll. -/
theorem Awaits.ends {exit : LoopExit} (opened : Session.open? o.plan config host = some start)
    (awaits : Awaits start x) (ended : (x.turn .consumer).2 = .exited exit) :
    0 < (x.desk .consumer).work.countP polls := by
  obtain ⟨mine, theirs, reaches⟩ := awaits.reaches
  obtain ⟨taken, refused, accounts⟩ := reaches.accounts opened
  obtain ⟨deed, stepped⟩ := stepped lawfulPick_takeFirst accounts.tidy .consumer
  obtain ⟨link, before⟩ := x.before_eq config .consumer deed
  have step := stepped.step
  rw [before] at step
  have closes : Closes .awaiting x.stillPending { x.desk .consumer with link } := { accounts.closes with }
  exact closes.polled_of_ends step (stepped.ends exit ended).1 rfl

/-- **When the consumer's first run ends its loop is at rest, and nothing waits.** -/
theorem Awaits.rests {exit : LoopExit} (opened : Session.open? o.plan config host = some start)
    (awaits : Awaits start x) (ended : (x.turn .consumer).2 = .exited exit) :
    (x.turn .consumer).1.consumer.Rests {} := by
  have polled := awaits.ends opened ended
  have busy : (x.desk .consumer).work ≠ [] := by
    rintro none
    rw [none] at polled
    exact absurd polled (by decide)
  have orderly : (x.loop .consumer).Orderly := awaits.orderly
  have rests := rests_of_exit (awaits.tidy opened) orderly busy ended
  obtain ⟨queue, same⟩ := awaits.channel
  change EventLoop.Rests { x.consumer.channel with queue := [] } _ at rests
  rw [same] at rests
  exact (sees_turn x .consumer).rests rests

/-- The consumer's first run has ended. -/
structure Stopped (start : Session) (x : Exchange) : Prop where
  reaches : ∃ exit theirs, start.Reaches ⟨x, .awaiting, some (.exited exit), some theirs⟩
  rests : x.consumer.Rests {}

/-- Both loops take a turn, and perhaps time passes. -/
theorem Awaits.round {next : Exchange} (opened : Session.open? o.plan config host = some start)
    (awaits : Awaits start x) (goesOn : ∀ exit, (x.turn .consumer).2 ≠ .exited exit)
    (comes : next = ((x.turn .consumer).1.turn .producer).1 ∨
      ∃ wake, next = ((x.turn .consumer).1.turn .producer).1.sleepUntil wake) : Awaits start next := by
  have after := (awaits.turn_consumer opened goesOn).turn_producer opened
  rcases comes with rfl | ⟨wake, rfl⟩
  · exact after
  · exact after.sleepUntil wake

/-- **The loops take turns until the consumer's run ends.** -/
theorem Awaits.runBoth {fuel : Nat} {exit : LoopExit}
    (opened : Session.open? o.plan config host = some start) (awaits : Awaits start x)
    (ran : runBoth fuel x = (after, some exit)) : Stopped start after := by
  induction fuel generalizing x with
  | zero => cases ran
  | succ fuel ih =>
    rcases runBoth_cases ran with ended | ⟨goesOn, next, ran, comes⟩
    · have exited : (x.turn .consumer).2 = .exited exit := by rw [ended]
      have rests := awaits.rests opened exited
      obtain ⟨mine, theirs, reaches⟩ := awaits.reaches
      have turned := reaches.turn .consumer rfl
      change Session.Reaches start ⟨(x.turn .consumer).1, .awaiting, some (x.turn .consumer).2, some theirs⟩
        at turned
      rw [ended] at rests turned
      exact ⟨⟨exit, theirs, turned⟩, rests⟩
    · exact ih (awaits.round opened goesOn comes) ran

/-- Without a poll the consumer's run does not end, and the loops go on. -/
theorem Awaits.next {fuel : Nat} {exit : LoopExit}
    (opened : Session.open? o.plan config host = some start) (awaits : Awaits start x)
    (unpolled : (x.desk .consumer).work.countP polls = 0)
    (ran : Exchange.runBoth fuel x = (after, some exit)) :
    ∃ less next, fuel = less + 1 ∧ Exchange.runBoth less next = (after, some exit) ∧ Awaits start next ∧
      (next.desk .consumer).work = ((x.step .consumer).1.desk .consumer).work := by
  cases fuel with
  | zero => cases ran
  | succ less =>
    rcases runBoth_cases ran with ended | ⟨goesOn, next, ran, comes⟩
    · have exited : (x.turn .consumer).2 = .exited exit := by rw [ended]
      exact absurd unpolled (awaits.ends opened exited).ne'
    · refine ⟨less, next, rfl, ran, awaits.round opened goesOn comes, ?_⟩
      have mine := (sees_turn x .consumer).desk.1
      have theirs := (sees_turn_other ((awaits.turn_consumer opened goesOn).tidy opened) .producer).desk.1
      rcases comes with rfl | ⟨wake, rfl⟩
      · exact theirs.trans mine
      · exact ((sees_sleepUntil _ wake .consumer).desk.1.trans theirs).trans mine

/-- The consumer's loop takes the first command, and polls the stop predicate no sooner than in the turn
after that: its run does not end before the third turn. -/
theorem Awaits.three_turns {fuel : Nat} {exit : LoopExit} {queue : List (Command ExchangeCallback)}
    (opened : Session.open? o.plan config host = some start) (awaits : Awaits start x)
    (waits : queue ≠ []) (rests : x.consumer.Rests { queue })
    (ran : Exchange.runBoth fuel x = (after, some exit)) : 3 ≤ fuel := by
  have idle : (x.desk .consumer).work = [] := EventLoop.work_of_rest rests.frames
  have waiting : (x.desk .consumer).queue ≠ [] := by
    change x.consumer.channel.queue ≠ []
    rwa [rests.channel]
  have unpolled : (x.desk .consumer).work.countP polls = 0 := by rw [idle]; rfl
  obtain ⟨less, second, rfl, ran, awaits', same⟩ := awaits.next opened unpolled ran
  have unpolled' : (second.desk .consumer).work.countP polls = 0 := by
    obtain ⟨deed, stepped⟩ := stepped lawfulPick_takeFirst (awaits.tidy opened) .consumer
    obtain ⟨link, before⟩ := x.before_eq config .consumer deed
    have step := stepped.step
    rw [before] at step
    rw [same]
    exact unpolled_of_step step waiting unpolled
  obtain ⟨less, third, rfl, ran, -, -⟩ := awaits'.next opened unpolled' ran
  cases less with
  | zero => cases ran
  | succ less => omega

/-! ## Concluding -/

/-- A loop at rest does what it is asked, and shuts down. -/
theorem runAlone_of_rests {role : Role} {channel : Channel ExchangeCallback}
    (rests : (x.loop role).Rests channel)
    (asked : channel.queue = [.stopWhen none, .countPending (some 0), .shutdown]) {fuel : Nat}
    (runs : 3 ≤ fuel) : (runAlone fuel role x).2 = some .shutdown := by
  obtain ⟨more, rfl⟩ := Nat.exists_eq_add_of_le' runs
  obtain ⟨second, first⟩ := rests_step rests asked (.inl rfl)
  rw [runAlone_of_worked first]
  obtain ⟨third, first⟩ := rests_step ((sees_turn x role).rests second) rfl (.inr ⟨_, rfl⟩)
  rw [runAlone_of_worked first]
  obtain ⟨-, ended⟩ := step_of_rests ((sees_turn (x.turn role).1 role).rests third) rfl
  rw [runAlone_of_exited ended]

/-- **The consumer is asked what is pending, and both faces are shut down.** -/
theorem Stopped.conclude? {fuel : Nat} {last : LoopExit} (stopped : Stopped start x)
    (concluded : x.conclude? fuel = some (after, last)) (runs : 3 ≤ fuel) :
    ∃ mine theirs, start.Reaches ⟨after, .finished, some mine, some theirs⟩ := by
  obtain ⟨exit, theirs, reaches⟩ := stopped.reaches
  let asked := (x.queue .consumer (.stopWhen none)).queue .consumer (.countPending (some 0))
  have left : start.Reaches ⟨asked.shutdown .consumer, .leaving, none, some theirs⟩ :=
    (reaches.move (.ask rfl rfl)).move (.leave rfl)
  have idle : (x.loop .consumer).Rests {} := stopped.rests
  have told := rests_queue (rests_queue idle rfl (.stopWhen none)) rfl (.countPending (some 0))
  have shut := rests_shutdown told rfl rfl
  rw [Exchange.conclude?] at concluded
  dsimp only at concluded
  split at concluded
  · cases concluded
  · next ready begun =>
    have some : 0 < fuel := by omega
    obtain ⟨mine, ended, exits⟩ := (left.begin begun rfl rfl).runAlone .consumer rfl some
    obtain rfl := exits _ (runAlone_of_rests (rests_begin shut begun) rfl runs)
    obtain ⟨theirs, ended, exits⟩ := (ended.move (.close rfl rfl)).runAlone .producer rfl some
    split at concluded
    · cases concluded
    · next same =>
      cases concluded
      obtain rfl := exits _ (congrArg Prod.snd same)
      have final : (Exchange.runAlone fuel .producer _).1 = after := congrArg Prod.fst same
      rw [← final]
      exact ⟨_, _, ended.move (.finish rfl rfl)⟩

/-- **What the program reports of a fetch is what a session comes to.** -/
theorem session_of_run {fuel : Nat} {report : Report} (ran : run fuel o.plan config host = .ok report) :
    ∃ (start s : Session) (stages : List Session.Stage), Session.open? o.plan config host = some start ∧
      start.Run stages s ∧ s.progress = .finished ∧ report.outcomes = s.exchange.outcomes ∧
      report.stillPending = s.exchange.stillPending.getD 0 := by
  rw [run] at ran
  split at ran
  · cases ran
  next x served =>
  obtain ⟨first, started, served⟩ := Option.bind_eq_some_iff.mp served
  have opened := open?_of_start? started
  split at ran
  · cases ran
  next granted =>
  dsimp only at ran
  split at ran
  · next last exit both =>
    obtain ⟨ready, begun, both⟩ := Option.map_eq_some_iff.mp both
    have runs : 0 < fuel := by
      cases fuel with
      | zero => cases both
      | succ less => exact Nat.succ_pos less
    obtain ⟨turn, registers⟩ := Registers.of_serve? started served runs
    have plan : x.plan = o.plan := by
      obtain ⟨taken, refused, accounts⟩ := registers.reaches.accounts opened
      exact accounts.plan
    have proceeds := registers.reaches.move (.proceed rfl registers.taken (Bool.eq_false_of_not_eq_true granted))
    have expresses : Expresses { exchange := first } o.plan.demands x :=
      ⟨⟨turn, plan ▸ proceeds⟩, [], registers.rests⟩
    obtain ⟨awaits, queue, waits, rests⟩ := expresses.all.watch begun
    have stopped := awaits.runBoth opened both
    have turns := awaits.three_turns opened waits rests both
    split at ran
    · cases ran
    · next after last concluded =>
      cases ran
      obtain ⟨mine, theirs, stages, whole⟩ := stopped.conclude? concluded turns
      exact ⟨_, _, stages, opened, whole, rfl, rfl, rfl⟩
  · cases ran

end NamedData.Exchange
