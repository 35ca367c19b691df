import NamedData.Exchange.Run
import NamedData.Proofs.Loop.Run

/-!
Sessions: every schedule of the two loops of an exchange.

Whoever arranges an exchange does one thing after another: it has the producer's prefix registered,
expresses the interests, runs the consumer's loop until that stops, asks what is still pending, and shuts
down first the consumer and then the producer. Meanwhile each loop that has been begun may take its next
step at any time, with its timers in any order, and time passes. What a loop does that has ended, if
anything, is left open.
-/
namespace NamedData.Exchange

/-- How far whoever arranges an exchange has come. -/
inductive Progress where
  | starting
  /-- The registration has been asked for. -/
  | registering
  /-- These interests are still to be expressed. -/
  | expressing (left : List Demand)
  /-- The consumer's loop is to run until it stops. -/
  | awaiting
  /-- It has been asked what is pending, and the consumer's loop runs again. -/
  | counting
  /-- The consumer is shut down. -/
  | leaving
  /-- The producer is shut down. -/
  | closing
  | finished
deriving DecidableEq

/-- The interests that have not been expressed yet. -/
def Progress.left (plan : Plan) : Progress → List Demand
  | .starting | .registering => plan.demands
  | .expressing left => left
  | .awaiting | .counting | .leaving | .closing | .finished => []

/-- Whether the first run of the consumer's loop has ended. -/
def Progress.late : Progress → Bool
  | .starting | .registering | .expressing _ | .awaiting => false
  | .counting | .leaving | .closing | .finished => true

/-- Whether a loop may be begun. -/
def Progress.begins : Progress → Role → Bool
  | _, .producer => true
  | .awaiting, .consumer | .counting, .consumer | .leaving, .consumer => true
  | _, .consumer => false

/-- An exchange under way. Of each loop that has been begun it is known what its last turn came to. -/
structure Session where
  exchange : Exchange
  progress : Progress := .starting
  consumer : Option Turn := none
  producer : Option Turn := none

/-- What can happen to an exchange. -/
inductive SessionMove where
  /-- A loop takes its next step. -/
  | step (role : Role)
  /-- Time passes. -/
  | pass (now : Instant)
  /-- A loop is begun. -/
  | begin (role : Role)
  /-- The registration is asked for. -/
  | register
  /-- The registration is in place. -/
  | proceed
  /-- The next interest is expressed. -/
  | express
  /-- The predicate is set that is to stop the consumer's loop. -/
  | watch
  /-- The predicate is removed, and it is asked what is pending. -/
  | ask
  /-- The consumer is shut down. -/
  | leave
  /-- The producer is shut down. -/
  | close
  /-- The producer's loop has ended, too. -/
  | finish

namespace Session

/-- What the last turn of a loop came to. -/
def turn (s : Session) : Role → Option Turn
  | .consumer => s.consumer
  | .producer => s.producer

/-- The session with another turn of a loop. -/
def setTurn (s : Session) (role : Role) (turn : Option Turn) : Session :=
  match role with
  | .consumer => { s with consumer := turn }
  | .producer => { s with producer := turn }

end Session

/-- An order in which a loop of an exchange may take its timers. -/
abbrev Pick :=
  List (Timer ExchangeCallback) → Option (Timer ExchangeCallback × List (Timer ExchangeCallback))

/-- What is seen of the next step of a loop. -/
def shown (pick : Pick) (x : Exchange) (role : Role) : List (Event ExchangeCallback) :=
  match (x.loop role).engine.current? with
  | some call => (((x.react role call).1.loop role).resume (x.react role call).2).2.1
  | none => (((x.loop role).stepBy? pick).map (·.2.1)).getD []

/-- Ask the producer for a registration. -/
def register (x : Exchange) : Exchange :=
  (x.drawId .producer).2.queue .producer
    (.request (.register (x.drawId .producer).1 x.plan.served (some .answer) .refused {}))

/-- One step of a session. -/
inductive Session.Step (s : Session) :
    SessionMove → List (Event ExchangeCallback) → Session → Prop where
  | step {role : Role} {pick : Pick} (begun : (s.turn role).isSome = true) (lawful : LawfulPick pick) :
      Step s (.step role) (s.exchange.shown pick role)
        (Session.setTurn { s with exchange := (s.exchange.stepBy pick role).1 } role
          (some (s.exchange.stepBy pick role).2))
  | pass {now : Instant} (later : s.exchange.now ≤ now) :
      Step s (.pass now) [] { s with exchange := s.exchange.setNow now }
  | begin {role : Role} {exchange : Exchange} (resting : s.turn role = none)
      (time : s.progress.begins role = true) (begun : s.exchange.begin? role = some exchange) :
      Step s (.begin role) [] (Session.setTurn { s with exchange } role (some .worked))
  | register (first : s.progress = .starting) :
      Step s .register [] { s with exchange := s.exchange.register, progress := .registering }
  | proceed (asked : s.progress = .registering) (done : s.exchange.producer.channel.queue = [])
      (granted : s.exchange.registrationRefused = false) :
      Step s .proceed [] { s with progress := .expressing s.exchange.plan.demands }
  | express {demand : Demand} {left : List Demand} (next : s.progress = .expressing (demand :: left)) :
      Step s .express [] { s with exchange := (s.exchange.express demand).2, progress := .expressing left }
  | watch (all : s.progress = .expressing []) :
      Step s .watch []
        { s with
          exchange := s.exchange.queue .consumer (.stopWhen (some .finished))
          progress := .awaiting }
  | ask {exit : LoopExit} (awaited : s.progress = .awaiting) (ended : s.consumer = some (.exited exit)) :
      Step s .ask []
        { s with
          exchange := (s.exchange.queue .consumer (.stopWhen none)).queue .consumer
            (.countPending (some 0))
          progress := .counting
          consumer := none }
  | leave (asked : s.progress = .counting) :
      Step s .leave [] { s with exchange := s.exchange.shutdown .consumer, progress := .leaving }
  | close {exit : LoopExit} (left : s.progress = .leaving) (ended : s.consumer = some (.exited exit)) :
      Step s .close [] { s with exchange := s.exchange.shutdown .producer, progress := .closing }
  | finish {exit : LoopExit} (closed : s.progress = .closing)
      (ended : s.producer = some (.exited exit)) :
      Step s .finish [] { s with progress := .finished }

namespace Session

/-- A stage of a session. -/
abbrev Stage := NamedData.Stage Session SessionMove (Event ExchangeCallback)

/-- The courses that a session can take. -/
abbrev Run (start : Session) (stages : List Stage) (s : Session) : Prop :=
  NamedData.Run (fun _ stage => stage.before.Step stage.move stage.events stage.after) start stages s

/-- A session in which nothing has been done yet. -/
def open? (plan : Plan) (config : FaceConfig) (host : Host) : Option Session :=
  (start? plan config host).map fun exchange => { exchange }

end Session

/-! ## Sessions that are played -/

namespace Session

/-- Do what can happen to an exchange, if it can happen now: what is seen, and what it leads to. -/
def perform? (s : Session) : SessionMove → Option (List (Event ExchangeCallback) × Session)
  | .step role =>
    if (s.turn role).isSome then
      some (s.exchange.shown Timer.takeFirst? role,
        setTurn { s with exchange := (s.exchange.step role).1 } role (some (s.exchange.step role).2))
    else none
  | .pass now =>
    if s.exchange.now ≤ now then some ([], { s with exchange := s.exchange.setNow now }) else none
  | .begin role =>
    if s.turn role = none ∧ s.progress.begins role = true then
      (s.exchange.begin? role).map fun exchange => ([], setTurn { s with exchange } role (some .worked))
    else none
  | .register =>
    if s.progress = .starting then
      some ([], { s with exchange := s.exchange.register, progress := .registering })
    else none
  | .proceed =>
    if s.progress = .registering ∧ s.exchange.producer.channel.queue.isEmpty = true ∧
        s.exchange.registrationRefused = false then
      some ([], { s with progress := .expressing s.exchange.plan.demands })
    else none
  | .express =>
    match s.progress with
    | .expressing (demand :: left) =>
      some ([], { s with exchange := (s.exchange.express demand).2, progress := .expressing left })
    | _ => none
  | .watch =>
    if s.progress = .expressing [] then
      some ([], { s with
        exchange := s.exchange.queue .consumer (.stopWhen (some .finished))
        progress := .awaiting })
    else none
  | .ask =>
    match s.progress, s.consumer with
    | .awaiting, some (.exited _) =>
      some ([], { s with
        exchange := (s.exchange.queue .consumer (.stopWhen none)).queue .consumer
          (.countPending (some 0))
        progress := .counting
        consumer := none })
    | _, _ => none
  | .leave =>
    if s.progress = .counting then
      some ([], { s with exchange := s.exchange.shutdown .consumer, progress := .leaving })
    else none
  | .close =>
    match s.progress, s.consumer with
    | .leaving, some (.exited _) =>
      some ([], { s with exchange := s.exchange.shutdown .producer, progress := .closing })
    | _, _ => none
  | .finish =>
    match s.progress, s.producer with
    | .closing, some (.exited _) => some ([], { s with progress := .finished })
    | _, _ => none

/-- What is performed is a step. -/
theorem step_of_perform? {s after : Session} {move : SessionMove} {events : List (Event ExchangeCallback)}
    (performed : s.perform? move = some (events, after)) : s.Step move events after := by
  cases move with
  | step role =>
    rw [perform?] at performed
    split at performed <;> cases performed
    next begun => exact .step begun lawfulPick_takeFirst
  | pass now =>
    rw [perform?] at performed
    split at performed <;> cases performed
    next later => exact .pass later
  | begin role =>
    rw [perform?] at performed
    split at performed
    · next resting =>
      obtain ⟨exchange, begun, same⟩ := Option.map_eq_some_iff.mp performed
      cases same
      exact .begin resting.1 resting.2 begun
    · cases performed
  | register =>
    rw [perform?] at performed
    split at performed <;> cases performed
    next first => exact .register first
  | proceed =>
    rw [perform?] at performed
    split at performed <;> cases performed
    next ready => exact .proceed ready.1 (List.isEmpty_iff.mp ready.2.1) ready.2.2
  | express =>
    rw [perform?] at performed
    split at performed <;> cases performed
    next demand left next => exact .express next
  | watch =>
    rw [perform?] at performed
    split at performed <;> cases performed
    next all => exact .watch all
  | ask =>
    rw [perform?] at performed
    split at performed <;> cases performed
    next exit awaited ended => exact .ask awaited ended
  | leave =>
    rw [perform?] at performed
    split at performed <;> cases performed
    next asked => exact .leave asked
  | close =>
    rw [perform?] at performed
    split at performed <;> cases performed
    next exit left ended => exact .close left ended
  | finish =>
    rw [perform?] at performed
    split at performed <;> cases performed
    next exit closed ended => exact .finish closed ended

/-- A loop takes several steps. -/
def steps (role : Role) (number : Nat) : List SessionMove := List.replicate number (.step role)

/-- Do several things one after another, as long as they can be done. -/
def play (s : Session) : List SessionMove → List Stage × Session
  | [] => ([], s)
  | move :: moves =>
    match s.perform? move with
    | none => ([], s)
    | some (events, after) =>
      (⟨s, move, events, after⟩ :: (after.play moves).1, (after.play moves).2)

/-- A session that is played is a session. -/
theorem Run.play {start s : Session} {past : List Stage} (run : start.Run past s) (moves : List SessionMove) :
    start.Run (past ++ (s.play moves).1) (s.play moves).2 := by
  induction moves generalizing past s with
  | nil => simpa [Session.play] using run
  | cons move moves ih =>
    rw [Session.play]
    split
    · simpa using run
    · next events after performed =>
      have next : start.Run (past ++ [⟨s, move, events, after⟩]) after :=
        .step run (step_of_perform? performed)
      simpa using ih next

/-- What is played from the beginning is a run. -/
theorem run_play (start : Session) (moves : List SessionMove) :
    start.Run (start.play moves).1 (start.play moves).2 := by
  simpa using Run.play .start moves

end Session

end NamedData.Exchange
