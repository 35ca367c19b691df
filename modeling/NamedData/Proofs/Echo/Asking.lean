import NamedData.Proofs.Node.Coverage
import NamedData.Proofs.Node.Reading
import NamedData.Proofs.Packet.RoundTrip

/-!
A node that asks.

A new node at one end of a link does nothing but express interests. Whatever time passes between
them, each waits on the link for whoever is at the other end, and has its entry and its timeout
(`Engine.Run.asked`).
-/
namespace NamedData

/-- A link on which some interests wait on their way from one end, and some data on its way to it. -/
def Link.carrying (side : Side) (asked : List Interest) (sent : List Data) : Link :=
  let towards : Link :=
    Link.setLane {} side { queue := asked.map fun interest => (Packet.interest interest).toJson }
  towards.setLane side.other { queue := sent.map fun data => (Packet.data data).toJson }

namespace Link

variable {side : Side} {asked : List Interest} {sent : List Data}
variable {interest : Interest} {data : Data}

theorem carrying_nil (side : Side) : carrying side [] [] = {} := by cases side <;> rfl

@[simp] theorem send?_carrying :
    (carrying side asked sent).send? side (Packet.interest interest).toJson =
      some (carrying side (asked ++ [interest]) sent) := by
  cases side <;> simp [send?, carrying, setLane, lane, isClosed, Side.other]

@[simp] theorem send?_carrying_other :
    (carrying side asked sent).send? side.other (Packet.data data).toJson =
      some (carrying side asked (sent ++ [data])) := by
  cases side <;> simp [send?, carrying, setLane, lane, isClosed, Side.other]

@[simp] theorem receive_carrying_cons : (carrying side asked (data :: sent)).receive side =
    (.element (Packet.data data).toJson, carrying side asked sent) := by cases side <;> rfl

@[simp] theorem receive_carrying_nil :
    (carrying side asked []).receive side = (.nothing, carrying side asked []) := by
  cases side <;> rfl

@[simp] theorem receive_carrying_other_cons :
    (carrying side (interest :: asked) sent).receive side.other =
      (.element (Packet.interest interest).toJson, carrying side asked sent) := by cases side <;> rfl

@[simp] theorem receive_carrying_other_nil :
    (carrying side [] sent).receive side.other = (.nothing, carrying side [] sent) := by
  cases side <;> rfl

/-- An end is handed the data that waits for it. -/
theorem yields_carrying (side : Side) (asked : List Interest) (sent : List Data) :
    Transport.Yields ({ link := carrying side asked sent, side } : LinkEnd)
      (sent.map fun data => (Packet.data data).toJson) := by
  induction sent with
  | nil => exact .nothing (by simp [Transport.receive, LinkEnd.receive])
  | cons data sent ih => exact .element (by simp [Transport.receive, LinkEnd.receive]) ih

end Link

namespace Engine

variable {κ : Type}

/-- A new node at one end of a link. -/
def atEnd (side : Side) (link : Link) (config : FaceConfig) (filters : FilterTable κ) (host : Host) :
    Engine κ DelayedCalls LinkEnd where
  node := { config, format := jsonFormat, scheduler := {}, filters }
  transport := { link, side }
  host

theorem fresh_atEnd (side : Side) (link : Link) (config : FaceConfig) (host : Host) :
    (atEnd (κ := κ) side link config {} host).Fresh := by
  refine ⟨rfl, rfl, rfl, rfl, ?_⟩
  rintro entry ⟨delayed, member, -⟩
  cases member

section express

variable {τ : Type} [Transport τ] {e : Engine κ DelayedCalls τ} {id : EntryId} {interest : Interest}
variable {onData : κ} {onTimeout : Option κ} {entry : PendingInterest κ}

omit [Transport τ] in
/-- What is sent is the packet's JSON, if that is not too long. -/
theorem encode_eq_ok_iff (json : e.node.format = jsonFormat) {packet : Packet} {element : Bytes} :
    e.encode packet = .ok element ↔
      packet.toJson.length ≤ e.node.config.maxPacketSize.toNat ∧ element = packet.toJson := by
  simp only [encode, json, jsonFormat]
  split
  · next long => simp [Nat.not_le.mpr long]
  · next fits => simp [Nat.not_lt.mp fits, eq_comm]

omit [Transport τ] in
/-- A complete interest that is not too long is expressed as it is. -/
theorem exists_expressed? (json : e.node.format = jsonFormat)
    (numbered : interest.nonce.isSome = true) (lives : interest.lifetime.isSome = true)
    (fits : (Packet.interest interest).toJson.length ≤ e.node.config.maxPacketSize.toNat) :
    ∃ entry, e.expressed? id interest onData onTimeout = some entry ∧ entry.interest = interest := by
  obtain ⟨name, least, most, exclude, child, fresh, lifetime, nonce⟩ := interest
  obtain ⟨nonce, rfl⟩ := Option.isSome_iff_exists.mp numbered
  obtain ⟨lifetime, rfl⟩ := Option.isSome_iff_exists.mp lives
  simp only [expressed?, Interest.completed, Option.getD_some,
    (encode_eq_ok_iff json).mpr ⟨fits, rfl⟩]
  exact ⟨_, rfl, rfl⟩

/-- An interest that is expressed gets its entry and its timeout, and is sent. -/
theorem express_eq {lifetime : Duration} {due : Instant} (json : e.node.format = jsonFormat)
    (makes : e.expressed? id interest onData onTimeout = some entry)
    (lives : entry.interest.lifetime = some lifetime) (ends : e.host.now.add? lifetime = some due) :
    ∃ host : Host, host.now = e.host.now ∧ e.express id interest onData onTimeout =
      let sent := transmit { e with
        host
        node := { e.node with
          pending := ⟨e.node.pending.entries ++ [entry]⟩
          scheduler := e.node.scheduler.callAt due (.timeout entry) } }
        (Packet.interest entry.interest).toJson
      (sent.1, sent.2.1, .armed lifetime (.timeout entry) :: sent.2.2) := by
  have now := Interest.now_completed interest e.node.config e.host
  have waits := Interest.lifetime_completed interest e.node.config e.host
  simp only [expressed?, express] at makes ⊢
  rcases completed : interest.completed e.node.config e.host with ⟨sent, span, host⟩
  simp only [completed] at makes now waits ⊢
  cases encoded : e.encode (.interest sent) with
  | error error => simp [encoded] at makes
  | ok element =>
    obtain ⟨-, rfl⟩ := (encode_eq_ok_iff json).mp encoded
    simp only [encoded, Option.some.injEq] at makes
    subst makes
    cases waits.symm.trans lives
    rw [← now] at ends
    simp only [PendingTable.add, Scheduler.callLater?, DelayedCalls.callLater?, ends, Option.map]
    exact ⟨{ host with marks := host.marks.issue }, now, rfl⟩

end express

variable {stages past : List (Stage κ DelayedCalls LinkEnd)} {e : Engine κ DelayedCalls LinkEnd}
variable {stage : Stage κ DelayedCalls LinkEnd} {side : Side} {config : FaceConfig} {host : Host}

/-- A node does nothing but express interests, none of which is too long to be sent. Time may pass
between them, but nobody else uses its end of the link. -/
structure Expressing (stages : List (Stage κ DelayedCalls LinkEnd)) : Prop where
  polled : Polled stages
  alone : KeepsTransport stages
  only : ∀ stage ∈ stages, stage.move = .drift ∨ ∃ id interest onData onTimeout,
    stage.move = .perform (.request (.express id interest onData onTimeout)) ∧
      (stage.before.expressed? id interest onData onTimeout).isSome = true

/-- What a node has come to that has expressed some interests. -/
structure Asked (side : Side) (config : FaceConfig) (stages : List (Stage κ DelayedCalls LinkEnd))
    (e : Engine κ DelayedCalls LinkEnd) : Prop where
  frames : e.frames = []
  node : e.node =
    { config, format := jsonFormat, scheduler := e.node.scheduler, pending := ⟨made stages⟩ }
  timeouts : ∀ c ∈ e.node.scheduler.calls, ∃ entry, c.call = .timeout entry
  transport : e.transport = { link := .carrying side ((made stages).map (·.interest)) [], side }
  silent : called (NamedData.Stage.seen stages) = []

/-- An interest that is expressed is one more. -/
theorem Asked.express {id : EntryId} {interest : Interest} {onData : κ} {onTimeout : Option κ}
    {entry : PendingInterest κ} (asked : Asked side config past e)
    (makes : e.expressed? id interest onData onTimeout = some entry)
    (shown : ∀ lifetime, entry.interest.lifetime = some lifetime →
      (e.host.now.add? lifetime).isSome = true) :
    let done := e.express id interest onData onTimeout
    Asked side config
      (past ++ [⟨e, .perform (.request (.express id interest onData onTimeout)), done.2.2, done.1⟩])
      done.1 := by
  obtain ⟨frames, node, timeouts, transport, silent⟩ := asked
  obtain ⟨lifetime, lives⟩ : ∃ lifetime, entry.interest.lifetime = some lifetime := by
    simp only [expressed?] at makes
    split at makes
    · cases makes
      exact ⟨_, Interest.lifetime_completed ..⟩
    · cases makes
  obtain ⟨due, ends⟩ := Option.isSome_iff_exists.mp (shown lifetime lives)
  obtain ⟨host, -, expressed⟩ := express_eq (by rw [node]) makes lives ends
  have more : made (past ++ [⟨e, .perform (.request (.express id interest onData onTimeout)),
      (e.express id interest onData onTimeout).2.2, (e.express id interest onData onTimeout).1⟩]) =
      made past ++ [entry] := by
    rw [made_concat]
    exact congrArg (made past ++ ·.toList) makes
  have sent : Transport.send e.transport (Packet.interest entry.interest).toJson =
      (.ok (), { link := .carrying side ((made past ++ [entry]).map (·.interest)) [], side }) := by
    simp [transport, Transport.send, LinkEnd.send]
  simp only [transmit, sent] at expressed
  rw [node] at expressed
  constructor
  case frames =>
    rw [expressed]
    exact frames
  case node =>
    rw [more, expressed]
  case timeouts =>
    rw [expressed]
    intro c member
    rcases List.mem_cons.mp ((DelayedCalls.callAt_perm ..).subset member) with rfl | old
    · exact ⟨entry, rfl⟩
    · exact timeouts c old
  case transport => rw [more, expressed]
  case silent =>
    rw [NamedData.Stage.seen_concat, called_append, silent, expressed]
    rfl

/-- Time that passes changes nothing. -/
theorem Asked.drift {after : Engine κ DelayedCalls LinkEnd} (asked : Asked side config past e)
    (drifts : e.Drifts after) (keeps : after.node.scheduler = e.node.scheduler)
    (alone : after.transport = e.transport) :
    Asked side config (past ++ [⟨e, .drift, [], after⟩]) after := by
  obtain ⟨frames, node, timeouts, transport, silent⟩ := asked
  have same : after.node = e.node := by rw [drifts.node, keeps]
  have none : made (past ++ [⟨e, .drift, [], after⟩]) = made past := by
    rw [made_concat]
    exact List.append_nil _
  refine ⟨drifts.frames.trans frames, ?_, ?_, ?_, ?_⟩
  · rw [none, same]
    exact node
  · rw [same]
    exact timeouts
  · rw [none, alone]
    exact transport
  · simpa [NamedData.Stage.seen_concat] using silent

theorem Expressing.of_subset {others : List (Stage κ DelayedCalls LinkEnd)}
    (expressing : Expressing stages) (part : others ⊆ stages) : Expressing others where
  polled := expressing.polled.of_subset part
  alone stage member := expressing.alone stage (part member)
  only stage member := expressing.only stage (part member)

/-- Every step of a node that only expresses interests does that, or lets time pass. -/
theorem Asked.step (asked : Asked side config past stage.before) (expressing : Expressing [stage])
    (step : stage.before.Step stage.move stage.events stage.after) :
    Asked side config (past ++ [stage]) stage.after := by
  have only := expressing.only stage List.mem_cons_self
  have shown := expressing.polled.shown stage List.mem_cons_self
  have keeps := expressing.polled.keeps stage List.mem_cons_self
  have alone := expressing.alone stage List.mem_cons_self
  obtain ⟨before, move, events, after⟩ := stage
  rcases only with rfl | ⟨id, interest, onData, onTimeout, rfl, makes⟩
  · cases step with
    | act acted => cases acted
    | drift drifts => exact asked.drift drifts (keeps rfl) (alone rfl)
  · obtain ⟨entry, makes⟩ := Option.isSome_iff_exists.mp makes
    change before.Step _ events after at step
    cases step with
    | act acted =>
      rw [act?] at acted
      split at acted
      · cases acted
        apply asked.express makes
        intro lifetime lives
        apply shown
        simp only [delay?, makes?, makes, Option.bind_some, lives]
      · cases acted

/-- What a new node comes to that only expresses interests. -/
theorem Run.asked (run : (atEnd side {} config {} host).Run stages e)
    (expressing : Expressing stages) : Asked side config stages e := by
  revert expressing
  apply run.invariant
  · intro _
    refine ⟨rfl, rfl, by simp [atEnd], ?_, rfl⟩
    rw [made, List.filterMap_nil, List.map_nil, Link.carrying_nil]
    rfl
  · intro past stage earlier follows asked expressing
    exact (asked (expressing.of_subset (List.subset_append_left ..))).step
      (expressing.of_subset (List.subset_append_right ..)) follows.1

/-- Every interest that was expressed has one timeout. -/
theorem Asked.timed (asked : Asked side config stages e)
    (run : (atEnd side {} config {} host).Run stages e) (expressing : Expressing stages) :
    e.Timed := by
  have covered := Run.covered (fresh_atEnd _ _ _ _) .nil run expressing.polled
  refine ⟨asked.timeouts, ?_⟩
  intro entry waits
  have once := covered.once entry waits
  rwa [timers, asked.frames, List.flatMap_nil, List.countP_nil, Nat.add_zero] at once

/-- A node that expresses interests can go on with one that is not too long. -/
theorem Run.express {id : EntryId} {interest : Interest} {onData : κ} {onTimeout : Option κ}
    {entry : PendingInterest κ} (run : (atEnd side {} config {} host).Run past e)
    (expressing : Expressing past) (makes : e.expressed? id interest onData onTimeout = some entry)
    (shown : ∀ lifetime, entry.interest.lifetime = some lifetime →
      (e.host.now.add? lifetime).isSome = true) :
    ∃ stage : Stage κ DelayedCalls LinkEnd, stage.before = e ∧
      stage.move = .perform (.request (.express id interest onData onTimeout)) ∧
      stage.after = (e.express id interest onData onTimeout).1 ∧
      (atEnd side {} config {} host).Run (past ++ [stage]) stage.after ∧
      Expressing (past ++ [stage]) := by
  have rest : e.accepts = true := by rw [accepts, (Run.asked run expressing).frames]
  have arms : (e.delay? (.perform (.request (.express id interest onData onTimeout)))).all
      (fun delay => (e.host.now.add? delay).isSome) = true := by
    simp only [delay?, makes?, makes, Option.bind_some]
    cases lives : entry.interest.lifetime with
    | none => rfl
    | some lifetime => exact shown lifetime lives
  obtain ⟨run, polled⟩ := Run.extend ⟨run, expressing.polled⟩
    (show e.act? (.perform (.request (.express id interest onData onTimeout))) = _ from if_pos rest)
    (by simp) arms
  refine ⟨_, rfl, rfl, rfl, run, polled, List.forall_mem_append.mpr ⟨expressing.alone, ?_⟩,
    List.forall_mem_append.mpr ⟨expressing.only, ?_⟩⟩
  · rw [List.forall_mem_singleton]
    intro drifts
    cases drifts
  · rw [List.forall_mem_singleton]
    exact .inr ⟨id, interest, onData, onTimeout, rfl, by rw [makes]; rfl⟩

/-- Whatever interests are complete and not too long, a new node can express them, as long as the
clock can show when their lifetimes end. -/
theorem exists_asking (side : Side) (config : FaceConfig) (host : Host) (onData : κ)
    (onTimeout : Option κ) (interests : List Interest)
    (complete : ∀ interest ∈ interests, interest.nonce.isSome = true ∧
      ∃ lifetime, interest.lifetime = some lifetime ∧ (host.now.add? lifetime).isSome = true)
    (fits : ∀ interest ∈ interests,
      (Packet.interest interest).toJson.length ≤ config.maxPacketSize.toNat) :
    ∃ (asking : List (Stage κ DelayedCalls LinkEnd)) (e : Engine κ DelayedCalls LinkEnd),
      (atEnd side {} config {} host).Run asking e ∧ Expressing asking ∧
        (made asking).map (·.interest) = interests ∧ e.host.now = host.now := by
  induction interests using List.reverseRecOn with
  | nil =>
    exact ⟨[], _, .start, ⟨.nil, List.forall_mem_nil _, List.forall_mem_nil _⟩, rfl, rfl⟩
  | append_singleton interests interest ih =>
    obtain ⟨asking, e, run, expressing, asked, clock⟩ := ih
      (fun other member => complete other (List.mem_append_left _ member))
      (fun other member => fits other (List.mem_append_left _ member))
    have last := List.mem_append_right interests (List.mem_singleton_self interest)
    obtain ⟨numbered, lifetime, lives, ends⟩ := complete interest last
    have state := (Run.asked run expressing).node
    obtain ⟨entry, makes, rfl⟩ : ∃ entry, e.expressed? .first interest onData onTimeout = some entry ∧
        entry.interest = interest :=
      exists_expressed? (by rw [state]) numbered (by rw [lives]; rfl)
        (by rw [state]; exact fits interest last)
    rw [← clock] at ends
    have shown : ∀ other, entry.interest.lifetime = some other →
        (e.host.now.add? other).isSome = true := by
      intro other same
      cases lives.symm.trans same
      exact ends
    obtain ⟨stage, rfl, moves, leads, run, expressing⟩ := run.express expressing makes shown
    have recorded : stage.before.makes? stage.move = some entry := by
      rw [moves]
      exact makes
    obtain ⟨due, ends⟩ := Option.isSome_iff_exists.mp ends
    obtain ⟨later, now, expressed⟩ := express_eq (by rw [state]) makes lives ends
    refine ⟨asking ++ [stage], stage.after, run, expressing, ?_, ?_⟩
    · simp [made_concat, recorded, asked]
    · rw [leads, expressed]
      exact now.trans clock

end Engine

end NamedData
