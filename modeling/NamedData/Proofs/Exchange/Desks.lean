import NamedData.Proofs.Exchange.Session
import NamedData.Proofs.Exchange.Works

/-!
The two desks of an exchange.

The loops of an exchange share the link and the host, so whatever one of them does is seen on both desks
(`Exchange.Stepped`). Everything else that happens to an exchange, too, is told by what becomes of the two
desks and of what the callbacks have seen.
-/
namespace NamedData.Exchange

/-- The end of the link that a face is at. -/
def Role.side : Role → Side
  | .consumer => .left
  | .producer => .right

/-- The face across. -/
def Role.other : Role → Role
  | .consumer => .producer
  | .producer => .consumer

/-- The desk of a face. -/
def desk (x : Exchange) (role : Role) : Desk ExchangeCallback := (x.loop role).desk

/-- An exchange whose loops are in order and see the same link and the same host. -/
structure Tidy (config : FaceConfig) (x : Exchange) : Prop where
  tame : ∀ role, (x.loop role).Tame config role.side
  link : x.consumer.engine.transport.link = x.producer.engine.transport.link
  host : x.consumer.engine.host = x.producer.engine.host

variable {config : FaceConfig} {x : Exchange} {role : Role} {l other : EventLoop ExchangeCallback LinkEnd}
variable {pick : Pick}

/-- A loop that sees what another has done stays in order. -/
theorem follow_tame {side : Side} (tame : l.Tame config side) : (follow l other).Tame config side where
  config := tame.config
  format := tame.format
  side := tame.side
  faults := tame.faults
  batches := tame.batches
  below := tame.below
  calls := tame.calls
  tasks := tame.tasks
  queue := tame.queue
  face := tame.face
  loopExists := tame.loopExists
  commandsOpen := tame.commandsOpen

@[simp] theorem loop_setLoop (x : Exchange) (role : Role) (l : EventLoop ExchangeCallback LinkEnd) :
    (x.setLoop role l).loop role = l := by cases role <;> rfl

/-- An exchange with the same loops is as much in order. -/
theorem Tidy.of_loops {after : Exchange} (tidy : x.Tidy config) (consumer : after.consumer = x.consumer)
    (producer : after.producer = x.producer) : after.Tidy config where
  tame face := by
    have same : after.loop face = x.loop face := by cases face; exacts [consumer, producer]
    rw [same]
    exact tidy.tame face
  link := by rw [consumer, producer, tidy.link]
  host := by rw [consumer, producer, tidy.host]

/-- Both loops see the same time. -/
theorem Tidy.now_eq (tidy : x.Tidy config) (role : Role) : (x.loop role).engine.host.now = x.now := by
  have host := congrArg Host.now tidy.host
  cases role
  exacts [rfl, host.symm]

/-- To put back a loop in order leaves the exchange in order. -/
theorem Tidy.setLoop (tidy : x.Tidy config) (tame : l.Tame config role.side) :
    (x.setLoop role l).Tidy config where
  tame := by
    intro face
    cases role <;> cases face
    · exact tame
    · exact follow_tame (tidy.tame .producer)
    · exact follow_tame (tidy.tame .consumer)
    · exact tame
  link := by cases role <;> rfl
  host := by cases role <;> rfl

/-- What is on the other desk when a loop is put back. -/
theorem desk_setLoop_other (x : Exchange) (role : Role) (l : EventLoop ExchangeCallback LinkEnd) :
    (x.setLoop role l).desk role.other =
      { x.desk role.other with link := l.desk.link, host := l.desk.host } := by
  cases role <;> rfl

@[simp] theorem desk_setLoop (x : Exchange) (role : Role) (l : EventLoop ExchangeCallback LinkEnd) :
    (x.setLoop role l).desk role = l.desk := by cases role <;> rfl

/-- What the callbacks of an exchange have seen. -/
structure Seen where
  plan : Plan
  received : Nat
  registrationRefused : Bool
  outcomes : List Outcome
  stillPending : Option Nat

/-- What the callbacks have seen so far. -/
def seen (x : Exchange) : Seen :=
  ⟨x.plan, x.received, x.registrationRefused, x.outcomes, x.stillPending⟩

@[simp] theorem seen_setLoop (x : Exchange) (role : Role) (l : EventLoop ExchangeCallback LinkEnd) :
    (x.setLoop role l).seen = x.seen := by cases role <;> rfl

/-! ## Callbacks -/

/-- How an interest has ended when a callback is called. -/
def Outcome.of? (call : Call ExchangeCallback) : Option Outcome :=
  match call.callback, call with
  | .delivered, .data entry data => some (.answered entry.interest data)
  | .expired, .timeout entry _ => some (.expired entry.interest)
  | _, _ => none

/-- The interest that a callback is to answer. -/
def asked? (call : Call ExchangeCallback) : Option Interest :=
  match call.callback, call with
  | .answer, .interest _ interest => some interest
  | _, _ => none

/-- The answer that the next interest gets, if any. -/
def answer? (x : Exchange) (interest : Interest) : Option Data :=
  if x.plan.ignores (x.received + 1) then none
  else some { name := interest.name, content := answerContent (x.received + 1) }

/-- The link after something has been sent, if there is anything to send and it is not too long. -/
def reply (config : FaceConfig) (link : Link) (side : Side) : Option Data → Link
  | none => link
  | some data =>
    if config.maxPacketSize.toNat < (Packet.data data).toJson.length then link
    else link.handed side (Packet.data data).toJson

/-- What has been seen after a callback. -/
def Seen.tell (s : Seen) (call : Call ExchangeCallback) : Seen :=
  { s with
    received := s.received + (asked? call).toList.length
    registrationRefused := match call.callback, call with
      | .refused, .registerFailed .. => true
      | _, _ => s.registrationRefused
    outcomes := s.outcomes ++ (Outcome.of? call).toList }

/-- The desk of a face whose callback has done its work and has not returned yet. -/
def said (x : Exchange) (config : FaceConfig) (role : Role) (call : Call ExchangeCallback) :
    Desk ExchangeCallback :=
  { x.desk role with
    link := reply config (x.desk role).link role.side ((asked? call).bind x.answer?) }

/-- What a callback does. -/
structure Reacts (config : FaceConfig) (x : Exchange) (role : Role) (call : Call ExchangeCallback)
    (outcome : Exchange × Except CallbackError Bool) : Prop where
  tidy : outcome.1.Tidy config
  seen : outcome.1.seen = x.seen.tell call
  desk : outcome.1.desk role = x.said config role call
  other : outcome.1.desk role.other =
    { x.desk role.other with link := (outcome.1.desk role).link, host := (outcome.1.desk role).host }
  frames : (outcome.1.loop role).engine.frames = (x.loop role).engine.frames
  holds : outcome.2 = .ok true → x.isFinished = true

/-- A desk sees the link and the host that the other sees. -/
theorem Tidy.desk_other (tidy : x.Tidy config) (role : Role) : x.desk role.other =
    { x.desk role.other with link := (x.desk role).link, host := (x.desk role).host } := by
  have link := tidy.link
  have host := tidy.host
  cases role <;> simp [desk, loop, EventLoop.desk, Role.other, link, host]

/-- A callback that does nothing at its face. -/
theorem Reacts.quiet {call : Call ExchangeCallback} {after : Exchange} {verdict : Except CallbackError Bool}
    (tidy : x.Tidy config) (loops : after.consumer = x.consumer ∧ after.producer = x.producer)
    (silent : (asked? call).bind x.answer? = none) (seen : after.seen = x.seen.tell call)
    (holds : verdict = .ok true → x.isFinished = true) : Reacts config x role call (after, verdict) := by
  have same : ∀ role, after.loop role = x.loop role := fun role => by cases role; exacts [loops.1, loops.2]
  have desks : ∀ role, after.desk role = x.desk role := fun role => congrArg EventLoop.desk (same role)
  have said : x.said config role call = x.desk role := by rw [said, silent]; rfl
  exact {
    tidy := tidy.of_loops loops.1 loops.2
    seen := seen
    desk := (desks role).trans said.symm
    other := by
      rw [desks, desks]
      exact tidy.desk_other role
    frames := by rw [same]
    holds := holds }

/-- Data is sent if it is not too long and the link takes it. -/
theorem engine_putData {side : Side} (tame : l.Tame config side) (data : Data) :
    (l.engine.request (.putData data)).1 = { l.engine with
      transport := { l.engine.transport with
        link := reply config l.engine.transport.link side (some data) } } := by
  by_cases long : config.maxPacketSize.toNat < (Packet.data data).toJson.length
  · rw [Engine.request, reply, tame.encode, if_pos long, if_pos long]
  · obtain ⟨outcome, sends⟩ := tame.send (Packet.data data).toJson
    rw [Engine.request, reply, tame.encode, if_neg long, if_neg long]
    simp only [Engine.transmit, sends]

/-- The producer's callback answers an interest, or ignores it. -/
theorem Reacts.answer {entry : FilterEntry ExchangeCallback} {interest : Interest} (tidy : x.Tidy config)
    (answers : entry.onInterest = .answer) :
    Reacts config x role (.interest entry interest) (x.react role (.interest entry interest)) := by
  have asked : asked? (.interest entry interest) = some interest := by
    simp [asked?, Call.callback, answers]
  have told : x.seen.tell (.interest entry interest) =
      { x.seen with received := x.seen.received + 1 } := by
    simp [Seen.tell, asked, Outcome.of?, Call.callback, answers]
  have same : ({ x with received := x.received + 1 } : Exchange).loop role = x.loop role := by
    cases role <;> rfl
  rw [react.eq_def]
  simp only [Call.callback, answers]
  split
  · next ignores =>
    exact .quiet tidy ⟨rfl, rfl⟩ (by rw [asked]; exact if_pos ignores) (by rw [told]; rfl) nofun
  · next answered =>
    have replies : (asked? (.interest entry interest)).bind x.answer? =
        some { name := interest.name, content := answerContent (x.received + 1) } := by
      rw [asked]
      exact if_neg answered
    have sends := engine_putData (tidy.tame role)
      { name := interest.name, content := answerContent (x.received + 1) }
    rw [same]
    rcases requested : (x.loop role).engine.request
      (.putData { name := interest.name, content := answerContent (x.received + 1) }) with
      ⟨engine, result, events⟩
    rw [requested] at sends
    obtain rfl := sends
    have tame := (tidy.tame role).withEngine (e := { (x.loop role).engine with
      transport := { (x.loop role).engine.transport with
        link := reply config (x.loop role).engine.transport.link role.side
          (some { name := interest.name, content := answerContent (x.received + 1) }) } })
      ⟨rfl, rfl, rfl⟩ ⟨rfl, rfl⟩ (tidy.tame role).batches (tidy.tame role).below
    have counted : ({ x with received := x.received + 1 } : Exchange).Tidy config := tidy.of_loops rfl rfl
    exact {
      tidy := counted.setLoop tame
      seen := by
        rw [seen_setLoop, told]
        rfl
      desk := by
        rw [desk_setLoop, said, replies]
        rfl
      other := by
        rw [desk_setLoop_other, desk_setLoop]
        cases role <;> rfl
      frames := by rw [loop_setLoop]
      holds := by
        dsimp only
        split <;> nofun }

/-- A callback that was not meant for the call does nothing. -/
theorem Reacts.nothing {call : Call ExchangeCallback} (tidy : x.Tidy config)
    (outcome : x.react role call = (x, .ok false)) (silent : asked? call = none)
    (seen : x.seen = x.seen.tell call) : Reacts config x role call (x.react role call) := by
  rw [outcome]
  exact .quiet tidy ⟨rfl, rfl⟩ (by rw [silent]; rfl) seen nofun

/-- **What a callback does.** -/
theorem reacts (tidy : x.Tidy config) (role : Role) (call : Call ExchangeCallback) :
    Reacts config x role call (x.react role call) := by
  cases call with
  | interest entry interest =>
    cases own : entry.onInterest with
    | answer => exact .answer tidy own
    | refused | delivered | expired | finished =>
      exact .nothing tidy (by simp [react.eq_def, Call.callback, own])
        (by simp [asked?, Call.callback, own])
        (by simp [Seen.tell, asked?, Outcome.of?, Call.callback, own])
  | data entry data =>
    cases own : entry.onData with
    | delivered =>
      rw [react.eq_def]
      simp only [Call.callback, own]
      exact .quiet tidy ⟨rfl, rfl⟩ (by simp [asked?, Call.callback, own])
        (by simp [Seen.tell, Exchange.seen, asked?, Outcome.of?, Call.callback, own]) nofun
    | refused | answer | expired | finished =>
      exact .nothing tidy (by simp [react.eq_def, Call.callback, own])
        (by simp [asked?, Call.callback, own])
        (by simp [Seen.tell, asked?, Outcome.of?, Call.callback, own])
  | timeout entry callback =>
    cases callback with
    | expired =>
      exact .quiet tidy ⟨rfl, rfl⟩ rfl
        (by simp [Seen.tell, Exchange.seen, asked?, Outcome.of?, Call.callback]) nofun
    | refused | answer | delivered | finished =>
      exact .nothing tidy rfl rfl (by simp [Seen.tell, asked?, Outcome.of?, Call.callback])
  | registerFailed callback root =>
    cases callback with
    | refused =>
      exact .quiet tidy ⟨rfl, rfl⟩ rfl
        (by simp [Seen.tell, Exchange.seen, asked?, Outcome.of?, Call.callback]) nofun
    | expired | answer | delivered | finished =>
      exact .nothing tidy rfl rfl (by simp [Seen.tell, asked?, Outcome.of?, Call.callback])
  | poll callback index =>
    cases callback with
    | finished =>
      exact .quiet tidy ⟨rfl, rfl⟩ rfl (by simp [Seen.tell, asked?, Outcome.of?, Call.callback])
        fun holds => by simpa using holds
    | expired | answer | delivered | refused =>
      exact .nothing tidy rfl rfl (by simp [Seen.tell, asked?, Outcome.of?, Call.callback])
  | nodeDelay callback | faceDelay callback =>
    cases callback <;>
      exact .nothing tidy rfl rfl (by simp [Seen.tell, asked?, Outcome.of?, Call.callback])

/-! ## Steps -/

/-- What has been seen after a deed. -/
def Seen.after (s : Seen) : Deed ExchangeCallback → Seen
  | .tell call => s.tell call
  | .count pending => { s with stillPending := some pending }
  | .rest | .refuse | .expire _ | .leave => s

@[simp] theorem Seen.plan_after (s : Seen) (deed : Deed ExchangeCallback) : (s.after deed).plan = s.plan := by
  cases deed <;> rfl

/-- The desk of a face before a deed, when whatever a callback does has been done. -/
def before (x : Exchange) (config : FaceConfig) (role : Role) : Deed ExchangeCallback →
    Desk ExchangeCallback
  | .tell call => x.said config role call
  | .rest | .refuse | .count _ | .expire _ | .leave => x.desk role

/-- All that a callback has done by then is to send something. -/
theorem before_eq (x : Exchange) (config : FaceConfig) (role : Role) (deed : Deed ExchangeCallback) :
    ∃ link, x.before config role deed = { x.desk role with link } := by
  cases deed with
  | tell call => exact ⟨_, rfl⟩
  | rest | refuse | count | expire | leave => exact ⟨(x.desk role).link, rfl⟩

/-- What a step of a loop is to an exchange. -/
structure Stepped (config : FaceConfig) (x : Exchange) (pick : Pick) (role : Role) (deed : Deed ExchangeCallback)
    (outcome : Exchange × Turn) : Prop where
  tidy : outcome.1.Tidy config
  seen : outcome.1.seen = x.seen.after deed
  step : (x.before config role deed).Step config role.side deed (outcome.1.desk role)
  other : outcome.1.desk role.other =
    { x.desk role.other with link := (outcome.1.desk role).link, host := (outcome.1.desk role).host }
  ends : ∀ exit, outcome.2 = .exited exit → deed.Ends exit ∧ (exit = .stopped → x.isFinished = true)
  refusals : NamedData.refusals (x.shown pick role) = deed.refusals
  expires : ∀ entry, deed = .expire entry →
    ∃ onTimeout, .called (.timeout entry onTimeout) ∈ x.shown pick role

/-- What is found to be pending is noted. -/
theorem note_eq (x : Exchange) (events : List (Event ExchangeCallback)) : x.note events =
    { x with stillPending := (events.filterMap Event.pending?).getLast?.or x.stillPending } := by
  induction events generalizing x with
  | nil => rfl
  | cons event events ih =>
    rw [note, List.foldl_cons]
    change Exchange.note _ events = _
    rw [ih]
    cases event with
    | answered ticket answer =>
      cases answer with
      | pending count =>
        cases same : events.filterMap Event.pending? with
        | nil => simp [Event.pending?, same]
        | cons first rest =>
          simp [Event.pending?, same, List.getLast?_eq_some_getLast (List.cons_ne_nil first rest)]
      | flushed => simp [Event.pending?]
    | called | logged | sent | registering | closed | armed => simp [Event.pending?]

/-- What is seen when a loop has done its deed and is put back. -/
theorem Tidy.settle {deed : Deed ExchangeCallback} {outcome : EventLoop ExchangeCallback LinkEnd × _ × Turn}
    (tidy : x.Tidy config) (works : (x.loop role).Works config role.side deed outcome) :
    let after := (x.setLoop role outcome.1).note outcome.2.1
    after.Tidy config ∧ (∀ face, after.desk face = (x.setLoop role outcome.1).desk face) ∧
      after.seen = { x.seen with stillPending := deed.counts.getLast?.or x.seen.stillPending } := by
  intro after
  have noted := note_eq (x.setLoop role outcome.1) outcome.2.1
  rw [works.counts] at noted
  have kept := tidy.setLoop works.tame
  refine ⟨?_, ?_, ?_⟩
  · change ((x.setLoop role outcome.1).note outcome.2.1).Tidy config
    rw [noted]
    exact kept.of_loops rfl rfl
  · intro face
    change ((x.setLoop role outcome.1).note outcome.2.1).desk face = _
    rw [noted]
    cases face <;> rfl
  · change ((x.setLoop role outcome.1).note outcome.2.1).seen = _
    rw [noted]
    cases role <;> rfl

/-- If a callback runs, a step carries it out, and it returns. -/
theorem stepBy_of_current? {call : Call ExchangeCallback} {mid : Exchange} {verdict : Except CallbackError Bool}
    (inside : (x.loop role).engine.current? = some call) (reacted : x.react role call = (mid, verdict)) :
    x.stepBy pick role =
        ((mid.setLoop role ((mid.loop role).resume verdict).1).note ((mid.loop role).resume verdict).2.1,
          ((mid.loop role).resume verdict).2.2) ∧
      x.shown pick role = ((mid.loop role).resume verdict).2.1 := by
  simp only [stepBy, shown, inside, reacted, and_self]

/-- Otherwise the loop takes a step of its own. -/
theorem stepBy_of_some {outcome : EventLoop ExchangeCallback LinkEnd × List (Event ExchangeCallback) × Turn}
    (inside : (x.loop role).engine.current? = none) (taken : (x.loop role).stepBy? pick = some outcome) :
    x.stepBy pick role = ((x.setLoop role outcome.1).note outcome.2.1, outcome.2.2) ∧
      x.shown pick role = outcome.2.1 := by
  simp only [stepBy, shown, inside, taken, Option.map_some, Option.getD_some, and_self]

/-- A loop that cannot take one is left as it is. -/
theorem stepBy_of_none (inside : (x.loop role).engine.current? = none)
    (taken : (x.loop role).stepBy? pick = none) : x.stepBy pick role = (x, .worked) ∧ x.shown pick role = [] := by
  simp only [stepBy, shown, inside, taken, Option.map_none, Option.getD_none, and_self]

/-- A callback that runs is told, and its loop goes on with what it returns. -/
theorem stepped_of_current? {call : Call ExchangeCallback} (tidy : x.Tidy config)
    (inside : (x.loop role).engine.current? = some call) :
    Stepped config x pick role (.tell call) (x.stepBy pick role) := by
  have told := reacts tidy role call
  rcases reacted : x.react role call with ⟨mid, verdict⟩
  rw [reacted] at told
  have same : (mid.loop role).engine.current? = some call := by
    rw [Engine.current?, told.frames, ← Engine.current?, inside]
  obtain ⟨works, holds⟩ := EventLoop.Works.resume (told.tidy.tame role) same verdict
  obtain ⟨kept, desks, seen⟩ := told.tidy.settle works
  obtain ⟨outcome, shows⟩ := stepBy_of_current? inside reacted
  rw [outcome]
  exact {
    tidy := kept
    seen := by
      rw [seen, told.seen]
      rfl
    step := by
      rw [desks, desk_setLoop]
      have done := works.step
      change (mid.desk role).Step _ _ _ _ at done
      rwa [told.desk] at done
    other := by
      rw [desks, desks, desk_setLoop_other, desk_setLoop, told.other]
    ends := fun exit ended => ⟨works.ends exit ended, fun _ => told.holds (holds exit ended)⟩
    refusals := by rw [shows, works.refusals]
    expires := fun _ other => by cases other }

/-- A loop in which no callback runs takes a step of its own. -/
theorem stepped_of_stepBy? {outcome : EventLoop ExchangeCallback LinkEnd × List (Event ExchangeCallback) × Turn}
    (lawful : LawfulPick pick) (tidy : x.Tidy config) (inside : (x.loop role).engine.current? = none)
    (taken : (x.loop role).stepBy? pick = some outcome) :
    ∃ deed, Stepped config x pick role deed (x.stepBy pick role) := by
  obtain ⟨deed, silent, works⟩ := EventLoop.Works.stepBy? lawful (tidy.tame role) taken
  obtain ⟨kept, desks, seen⟩ := tidy.settle works
  obtain ⟨same, shows⟩ := stepBy_of_some inside taken
  rw [same]
  refine ⟨deed, ?_⟩
  exact {
    tidy := kept
    seen := by
      rw [seen]
      cases deed with
      | tell call => cases silent
      | rest | refuse | count | expire | leave => rfl
    step := by
      rw [desks, desk_setLoop]
      cases deed with
      | tell call => cases silent
      | rest | refuse | count | expire | leave => exact works.step
    other := by rw [desks, desks, desk_setLoop_other, desk_setLoop]
    ends := by
      intro exit ended
      refine ⟨works.ends exit ended, ?_⟩
      rintro rfl
      cases works.ends _ ended
      cases silent
    refusals := by rw [shows, works.refusals]
    expires := by
      rw [shows]
      exact works.expires }

/-- **A step of a loop is one deed.** -/
theorem stepped (lawful : LawfulPick pick) (tidy : x.Tidy config) (role : Role) :
    ∃ deed, Stepped config x pick role deed (x.stepBy pick role) := by
  cases inside : (x.loop role).engine.current? with
  | some call => exact ⟨.tell call, stepped_of_current? tidy inside⟩
  | none =>
    cases taken : (x.loop role).stepBy? pick with
    | some outcome => exact stepped_of_stepBy? lawful tidy inside taken
    | none =>
      obtain ⟨outcome, shows⟩ := stepBy_of_none inside taken
      rw [outcome]
      exact ⟨.rest, tidy, rfl, .rest, tidy.desk_other role, by simp, by rw [shows]; rfl,
        fun _ other => by cases other⟩

/-! ## Commands -/

/-- Hosts that differ in nothing that an exchange depends on. -/
structure Alike (host other : Host) : Prop where
  nonces : host.nonces = other.nonces
  drawn : host.noncesDrawn = other.noncesDrawn
  next : host.marks.next = other.marks.next

theorem Alike.refl (host : Host) : Alike host host := ⟨rfl, rfl, rfl⟩

theorem Alike.trans {a b c : Host} (first : Alike a b) (second : Alike b c) : Alike a c :=
  ⟨first.nonces.trans second.nonces, first.drawn.trans second.drawn, first.next.trans second.next⟩

/-- An exchange in which some commands have been queued at a face, and nothing else has happened. -/
structure Handed (config : FaceConfig) (x : Exchange) (role : Role)
    (commands : List (Command ExchangeCallback)) (after : Exchange) : Prop where
  tidy : after.Tidy config
  seen : after.seen = x.seen
  host : Alike (after.desk role).host (x.desk role).host
  desk : after.desk role = { x.desk role with
    queue := (x.desk role).queue ++ commands, host := (after.desk role).host }
  other : after.desk role.other = { x.desk role.other with host := (after.desk role).host }

variable {after : Exchange} {commands more : List (Command ExchangeCallback)}

theorem Handed.refl (tidy : x.Tidy config) (role : Role) : Handed config x role [] x where
  tidy := tidy
  seen := rfl
  host := .refl _
  desk := by rw [List.append_nil]
  other := by
    have same := tidy.desk_other role
    rw [same]

theorem Handed.trans {mid : Exchange} (first : Handed config x role commands mid)
    (second : Handed config mid role more after) : Handed config x role (commands ++ more) after where
  tidy := second.tidy
  seen := second.seen.trans first.seen
  host := second.host.trans first.host
  desk := by rw [second.desk, first.desk, List.append_assoc]
  other := by rw [second.other, first.other]

/-- To put back a loop with more commands is to hand it these. -/
theorem Handed.of_setLoop (tidy : x.Tidy config) (tame : l.Tame config role.side)
    (host : Alike l.engine.host (x.desk role).host)
    (same : l.desk = { x.desk role with
      queue := (x.desk role).queue ++ commands, host := l.engine.host }) :
    Handed config x role commands (x.setLoop role l) where
  tidy := tidy.setLoop tame
  seen := seen_setLoop ..
  host := by
    rw [desk_setLoop]
    exact host
  desk := by rw [desk_setLoop, same]
  other := by
    rw [desk_setLoop_other, desk_setLoop, same]
    have link := tidy.desk_other role
    rw [link]

/-- Both loops exist, so a command that is queued is put behind the others. -/
theorem Tidy.queue_eq (tidy : x.Tidy config) (role : Role) (command : Command ExchangeCallback) :
    x.queue role command = x.setLoop role { x.loop role with
      channel := { (x.loop role).channel with queue := (x.loop role).channel.queue ++ [command] } } := by
  rw [queue, Channel.handOff, if_pos (tidy.tame role).loopExists]

/-- To shut a face down for the first time clears its flag and queues a command. -/
theorem Tidy.shutdown_eq (tidy : x.Tidy config) (active : (x.loop role).channel.active = true) :
    x.shutdown role = x.setLoop role { x.loop role with
      channel := { (x.loop role).channel with
        active := false, queue := (x.loop role).channel.queue ++ [.shutdown] } } := by
  rw [shutdown, Channel.shutdown, if_pos active, Channel.handOff, if_pos (tidy.tame role).loopExists]

/-- To shut it down again does nothing. -/
theorem shutdown_eq_of_inactive (down : (x.loop role).channel.active ≠ true) :
    x.shutdown role = x.setLoop role (x.loop role) := by
  rw [shutdown, Channel.shutdown, if_neg down]

/-- A command is queued. -/
theorem handed_queue (tidy : x.Tidy config) (role : Role) (command : Command ExchangeCallback)
    (known : command.ofExchange = true) : Handed config x role [command] (x.queue role command) := by
  have tame := tidy.tame role
  rw [tidy.queue_eq]
  refine .of_setLoop tidy ?_ (.refl _) rfl
  exact { tame with
    queue := by
      intro other member
      rcases List.mem_append.mp member with old | new
      · exact tame.queue other old
      · rwa [List.mem_singleton.mp new] }

/-- An identifier is drawn. -/
theorem handed_drawId (tidy : x.Tidy config) (role : Role) :
    Handed config x role [] (x.drawId role).2 := by
  refine .of_setLoop tidy ?_ ⟨rfl, rfl, rfl⟩ ?_
  · have tame := tidy.tame role
    exact tame.withEngine ⟨rfl, rfl, rfl⟩ ⟨rfl, rfl⟩ tame.batches tame.below
  · rw [List.append_nil]
    rfl

/-- Time passes. -/
theorem handed_setNow (tidy : x.Tidy config) (now : Instant) :
    Handed config x .consumer [] (x.setNow now) := by
  have tame := tidy.tame .consumer
  refine .of_setLoop tidy ?_ ⟨rfl, rfl, rfl⟩ ?_
  · exact tame.withEngine ⟨rfl, rfl, rfl⟩ ⟨rfl, rfl⟩ tame.batches tame.below
  · rw [List.append_nil]
    rfl

/-- A loop is begun. -/
theorem handed_begin (tidy : x.Tidy config) (begun : x.begin? role = some after) :
    Handed config x role [] after := by
  have tame := tidy.tame role
  obtain ⟨l, starts, rfl⟩ := Option.map_eq_some_iff.mp begun
  have engine := EventLoop.engine_of_begin? starts
  have ready : l.Tame config role.side ∧ l.desk = x.desk role := by
    rw [EventLoop.begin?] at starts
    split at starts
    · obtain ⟨mid, armed, rfl⟩ := Option.map_eq_some_iff.mp starts
      obtain ⟨left, same, -⟩ := tame.arm rfl (by simp) armed
      exact ⟨{ left with }, same⟩
    · cases starts
      exact ⟨tame, rfl⟩
  refine .of_setLoop tidy ready.1 (by rw [engine]; exact .refl _) ?_
  rw [ready.2, List.append_nil, engine]
  rfl

/-- A face is shut down. -/
theorem handed_shutdown (tidy : x.Tidy config) (role : Role) :
    ∃ commands, (commands = [] ∨ commands = [.shutdown]) ∧
      Handed config x role commands (x.shutdown role) := by
  have tame := tidy.tame role
  by_cases active : (x.loop role).channel.active = true
  · rw [tidy.shutdown_eq active]
    refine ⟨_, .inr rfl, .of_setLoop tidy ?_ (.refl _) rfl⟩
    exact { tame with
      queue := by
        intro other member
        rcases List.mem_append.mp member with old | new
        · exact tame.queue other old
        · rw [List.mem_singleton.mp new]
          rfl }
  · rw [shutdown_eq_of_inactive active]
    refine ⟨[], .inl rfl, .of_setLoop tidy tame (.refl _) ?_⟩
    rw [List.append_nil]
    rfl

/-- The registration is asked for. -/
theorem handed_register (tidy : x.Tidy config) :
    ∃ id, Handed config x .producer
      [.request (.register id x.plan.served (some .answer) .refused {})] x.register := by
  have drawn := handed_drawId tidy .producer
  refine ⟨(x.drawId .producer).1, ?_⟩
  rw [register]
  exact drawn.trans (handed_queue drawn.tidy .producer _ rfl)

/-- An interest is expressed that is to be waited for. -/
theorem handed_express (tidy : x.Tidy config) {demand : Demand} (waits : demand.cancelled = false) :
    ∃ id, Handed config x .consumer
      [.request (.express id demand.interest .delivered (some .expired))] (x.express demand).2 := by
  have drawn := handed_drawId tidy .consumer
  refine ⟨(x.drawId .consumer).1, ?_⟩
  simp only [express, waits]
  exact drawn.trans (handed_queue drawn.tidy .consumer _ rfl)

/-! ## The beginning -/

/-- A loop that has not run yet is in order, and nothing is on its desk. -/
theorem tame_start? {side : Side} {host : Host}
    (started : EventLoop.start? { config, format := jsonFormat, scheduler := {} }
      ({ side } : LinkEnd) host = some l) :
    l.Tame config side ∧ l.desk = ⟨[], [], [], 0, [], {}, host⟩ := by
  obtain ⟨deadline, rfl⟩ := EventLoop.eq_of_arm? started
  refine ⟨?_, rfl⟩
  exact {
    config := rfl
    format := rfl
    side := rfl
    faults := rfl
    batches := rfl
    below := by simp
    calls := by simp [EventLoop.calls, Task.call?]
    tasks := by simp
    queue := by simp
    face := rfl
    loopExists := rfl
    commandsOpen := rfl }

/-- An exchange that has been started is in order, and nothing is on its desks. -/
theorem tidy_start? {plan : Plan} {host : Host} (started : start? plan config host = some x) :
    x.Tidy config ∧ x.seen = ⟨plan, 0, false, [], none⟩ ∧
      ∀ role, x.desk role = ⟨[], [], [], 0, [], {}, host⟩ := by
  rw [start?] at started
  split at started
  · next consumer producer mine theirs =>
    cases started
    obtain ⟨left, leftDesk⟩ := tame_start? mine
    obtain ⟨right, rightDesk⟩ := tame_start? theirs
    refine ⟨⟨?_, ?_, ?_⟩, rfl, ?_⟩
    · intro role
      cases role
      exacts [left, right]
    · exact (congrArg Desk.link leftDesk).trans (congrArg Desk.link rightDesk).symm
    · exact (congrArg Desk.host leftDesk).trans (congrArg Desk.host rightDesk).symm
    · intro role
      cases role
      exacts [leftDesk, rightDesk]
  · cases started

end NamedData.Exchange
