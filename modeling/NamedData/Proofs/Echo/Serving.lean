import NamedData.Proofs.Echo.Asking

/-!
A node that answers.

A new node at the other end of the link has filters, and every callback that is handed an interest
answers it with data before it returns. When such a node has processed events, every interest that
waited on the link has been answered (`Engine.Serves.answers`); and it comes to that
(`Engine.serves_reading`).
-/
namespace NamedData

variable {κ ι : Type}

theorem Host.Drifts.refl (table : PendingTable ι) (host : Host) : host.Drifts table host :=
  ⟨Nat.le_refl _, fun _ _ => rfl⟩

theorem Host.Drifts.trans {table : PendingTable ι} {host later last : Host}
    (drifts : host.Drifts table later) (further : later.Drifts table last) :
    host.Drifts table last where
  issued := Nat.le_trans drifts.issued further.issued
  kept entry waits := (further.kept entry waits).trans (drifts.kept entry waits)

namespace Engine

/-- A node goes on with processing events, and each callback that it hands an interest to answers that
interest with one of its replies and then returns. Time may pass at any point, but nobody else uses
the link, touches the entries of this node, or those of the table of the node at the other end.
Whether the callback on top has answered already is said first. -/
inductive Serves (replies : FilterEntry κ → Interest → Data → Prop) (table : PendingTable ι) :
    Bool → Engine κ DelayedCalls LinkEnd → List (Stage κ DelayedCalls LinkEnd) →
      Engine κ DelayedCalls LinkEnd → Prop
  | done {s : Engine κ DelayedCalls LinkEnd} (rest : s.frames = []) :
      Serves replies table false s [] s
  | advance {s mid after : Engine κ DelayedCalls LinkEnd} {events : List (Event κ)}
      {stages : List (Stage κ DelayedCalls LinkEnd)} (advanced : s.advance = some (mid, events))
      (rest : Serves replies table false mid stages after) :
      Serves replies table false s (⟨s, .advance, events, mid⟩ :: stages) after
  | wait {answered : Bool} {s after : Engine κ DelayedCalls LinkEnd} {host : Host}
      {stages : List (Stage κ DelayedCalls LinkEnd)} (own : s.host.Drifts s.node.pending host)
      (across : s.host.Drifts table host)
      (rest : Serves replies table answered { s with host } stages after) :
      Serves replies table answered s (⟨s, .drift, [], { s with host }⟩ :: stages) after
  | answer {s after : Engine κ DelayedCalls LinkEnd} {entry : FilterEntry κ} {interest : Interest}
      {data : Data} {stages : List (Stage κ DelayedCalls LinkEnd)}
      (inside : s.current? = some (.interest entry interest)) (reply : replies entry interest data)
      (rest : Serves replies table true (s.request (.putData data)).1 stages after) :
      Serves replies table false s (⟨s, .perform (.request (.putData data)),
        (s.request (.putData data)).2.2, (s.request (.putData data)).1⟩ :: stages) after
  | resume {s after : Engine κ DelayedCalls LinkEnd} {call : Call κ}
      {stages : List (Stage κ DelayedCalls LinkEnd)} (result : CallbackResult)
      (inside : s.current? = some call)
      (rest : Serves replies table false (s.resume result).1 stages after) :
      Serves replies table true s
        (⟨s, .resume result, (s.resume result).2, (s.resume result).1⟩ :: stages) after

variable {replies : FilterEntry κ → Interest → Data → Prop} {table : PendingTable ι}
variable {s after : Engine κ DelayedCalls LinkEnd} {stages : List (Stage κ DelayedCalls LinkEnd)}
variable {side : Side} {config : FaceConfig} {filters : FilterTable κ}

theorem accepts_of_current? {call : Call κ} (inside : s.current? = some call)
    (handed : call.handsNode = true) : s.accepts = true := by
  obtain ⟨outer, frames⟩ := frames_of_current? inside
  rw [accepts, frames]
  exact handed

/-- What an answering node does continues its run. -/
theorem Serves.run {start : Engine κ DelayedCalls LinkEnd}
    {past : List (Stage κ DelayedCalls LinkEnd)} {answered : Bool}
    (serves : Serves replies table answered s stages after) (run : start.Run past s) :
    start.Run (past ++ stages) after := by
  induction serves generalizing past with
  | done => simpa using run
  | @advance s mid _ events _ advanced _ ih =>
    have step : start.Follows past ⟨s, .advance, events, mid⟩ := ⟨.act advanced, by simp⟩
    simpa using ih (.step run step)
  | @wait _ s _ host _ own _ _ ih =>
    have step : start.Follows past ⟨s, .drift, [], { s with host }⟩ :=
      ⟨.drift ⟨rfl, rfl, fun _ held => held, own⟩, by simp⟩
    simpa using ih (.step run step)
  | @answer s _ entry interest data _ inside _ _ ih =>
    have step : start.Follows past ⟨s, .perform (.request (.putData data)),
        (s.request (.putData data)).2.2, (s.request (.putData data)).1⟩ :=
      ⟨.act (if_pos (accepts_of_current? inside rfl)), by simp⟩
    simpa using ih (.step run step)
  | @resume s _ call _ result inside _ ih =>
    have step : start.Follows past ⟨s, .resume result, (s.resume result).2, (s.resume result).1⟩ :=
      ⟨.act (by simp [act?, inside]), by simp⟩
    simpa using ih (.step run step)

/-- What an answering node has in progress, whether the callback on top has answered, which interests
still wait on the link, and which are still to be answered. -/
inductive Owes : List (Frame κ) → Bool → List Interest → List Interest → Prop
  | reading (left : List Interest) : Owes [.reading] false left left
  | offering (interest : Interest) (entry : FilterEntry κ) (entries : List (FilterEntry κ))
      (left : List Interest) :
      Owes [.offering interest (entry :: entries), .reading] false left (interest :: left)
  | offered (interest : Interest) (left : List Interest) :
      Owes [.offering interest [], .reading] false left left
  | inside (entry : FilterEntry κ) (interest : Interest) (entries : List (FilterEntry κ))
      (left : List Interest) :
      Owes [.inside (.interest entry interest), .offering interest entries, .reading] false left
        (interest :: left)
  | answered (entry : FilterEntry κ) (interest : Interest) (entries : List (FilterEntry κ))
      (left : List Interest) :
      Owes [.inside (.interest entry interest), .offering interest entries, .reading] true left left
  | running : Owes [.running []] false [] []
  | rest : Owes [] false [] []

/-- What callbacks reply to an interest bears the name that was asked for, and is not too long to be
sent. -/
def Echoes (config : FaceConfig) (replies : FilterEntry κ → Interest → Data → Prop) : Prop :=
  ∀ entry interest data, replies entry interest data →
    data.name = interest.name ∧ (Packet.data data).toJson.length ≤ config.maxPacketSize.toNat

/-- A new node that has come to answering interests: what it has sent, whether the callback on top has
answered, which interests wait on the link, and which are to be answered. -/
structure Serving (side : Side) (config : FaceConfig) (filters : FilterTable κ) (sent : List Data)
    (answered : Bool) (left owed : List Interest) (s : Engine κ DelayedCalls LinkEnd) : Prop where
  node : s.node = { config, format := jsonFormat, scheduler := {}, filters }
  transport : s.transport = { link := .carrying side left sent, side := side.other }
  owes : Owes s.frames answered left owed

variable {sent : List Data} {left owed : List Interest} {answered : Bool} {events : List (Event κ)}

/-- The node reads the next interest, or offers the one it has read to the next filter. -/
theorem Serving.advance (serving : Serving side config filters sent false left owed s)
    (selected : ∀ interest ∈ left, filters.matching interest.name ≠ [])
    (advanced : s.advance = some (after, events)) :
    after.host = s.host ∧
      ∃ later, later ⊆ left ∧ Serving side config filters sent false later owed after := by
  obtain ⟨node, transport, owes⟩ := serving
  obtain ⟨_, _, host, frames⟩ := s
  cases node
  cases transport
  cases owes with
  | reading =>
    cases left with
    | nil =>
      simp only [Engine.advance, Transport.receive, LinkEnd.receive,
        Link.receive_carrying_other_nil] at advanced
      cases advanced
      exact ⟨rfl, [], List.Subset.refl _, rfl, rfl, .running⟩
    | cons interest left =>
      obtain ⟨entry, entries, found⟩ :=
        List.exists_cons_of_ne_nil (selected interest List.mem_cons_self)
      simp only [Engine.advance, Transport.receive, LinkEnd.receive, Link.receive_carrying_other_cons,
        dispatch, Packet.decode_toJson, found] at advanced
      cases advanced
      exact ⟨rfl, left, List.subset_cons_self .., rfl, rfl, .offering interest entry entries left⟩
  | offering interest entry entries left =>
    cases advanced
    exact ⟨rfl, left, List.Subset.refl _, rfl, rfl, .inside entry interest entries left⟩
  | offered interest left =>
    cases advanced
    exact ⟨rfl, left, List.Subset.refl _, rfl, rfl, .reading left⟩
  | running =>
    cases advanced
    exact ⟨rfl, [], List.Subset.refl _, rfl, rfl, .rest⟩
  | inside | rest => cases advanced

/-- Data that is not too long is sent. -/
theorem putData_eq (node : s.node = { config, format := jsonFormat, scheduler := {}, filters })
    (transport : s.transport = { link := .carrying side left sent, side := side.other }) {data : Data}
    (fits : (Packet.data data).toJson.length ≤ config.maxPacketSize.toNat) :
    s.request (.putData data) =
      ({ s with transport := { link := .carrying side left (sent ++ [data]), side := side.other } },
        .done, [.sent (Packet.data data).toJson]) := by
  have encoded : s.encode (.data data) = .ok (Packet.data data).toJson :=
    (encode_eq_ok_iff (by rw [node])).mpr ⟨by rw [node]; exact fits, rfl⟩
  simp [request, encoded, transmit, transport, Transport.send, LinkEnd.send]

/-- The callback on top answers its interest. -/
theorem Serving.answer {entry : FilterEntry κ} {interest : Interest} {data : Data}
    (serving : Serving side config filters sent false left owed s)
    (inside : s.current? = some (.interest entry interest))
    (fits : (Packet.data data).toJson.length ≤ config.maxPacketSize.toNat) :
    (s.request (.putData data)).1.host = s.host ∧ ∃ others, owed = interest :: others ∧
      Serving side config filters (sent ++ [data]) true left others (s.request (.putData data)).1 := by
  obtain ⟨node, transport, owes⟩ := serving
  rw [putData_eq node transport fits]
  obtain ⟨_, _, host, frames⟩ := s
  cases owes with
  | inside entry interest entries left =>
    cases inside
    exact ⟨rfl, left, rfl, node, rfl, .answered entry interest entries left⟩
  | reading | offering | offered | running | rest => cases inside

/-- A callback that has answered returns, and the interest is offered to the next filter, if any. From
that one an answer is owed again. -/
theorem Serving.resume (serving : Serving side config filters sent true left owed s)
    (result : CallbackResult) :
    (s.resume result).1.host = s.host ∧ ∃ more, owed ⊆ more ∧
      Serving side config filters sent false left more (s.resume result).1 := by
  obtain ⟨node, transport, owes⟩ := serving
  obtain ⟨_, _, host, frames⟩ := s
  cases owes with
  | answered entry interest entries left =>
    cases entries with
    | nil => exact ⟨rfl, left, List.Subset.refl _, node, transport, .offered interest left⟩
    | cons next entries =>
      exact ⟨rfl, interest :: left, List.subset_cons_self .., node, transport,
        .offering interest next entries left⟩

/-- **Whoever asked is answered.** Whatever is owed at some point is sent from then on, and when the
node has come to rest nothing waits on the link any more. -/
theorem Serves.answers (serves : Serves replies table answered s stages after)
    (serving : Serving side config filters sent answered left owed s)
    (selected : ∀ interest ∈ left, filters.matching interest.name ≠ [])
    (echoes : Echoes config replies) :
    s.host.Drifts table after.host ∧ ∃ more,
      Serving side config filters (sent ++ more) false [] [] after ∧
      ∀ interest ∈ owed, ∃ data ∈ more, data.name = interest.name := by
  -- The path is taken from its first step on, so at each point there is only what is sent later.
  induction serves generalizing sent left owed with
  | done rest =>
    obtain ⟨node, transport, owes⟩ := serving
    rw [rest] at owes
    cases owes with
    | rest =>
      refine ⟨.refl table _, [], ⟨node, ?_, ?_⟩, by simp⟩
      · rw [List.append_nil]
        exact transport
      · rw [rest]
        exact .rest
  | advance advanced _ ih =>
    obtain ⟨still, later, part, serving⟩ := serving.advance selected advanced
    rw [← still]
    exact ih serving fun interest member => selected interest (part member)
  | wait own across _ ih =>
    obtain ⟨drifts, more⟩ := ih ⟨serving.node, serving.transport, serving.owes⟩ selected
    exact ⟨across.trans drifts, more⟩
  | @answer s _ entry interest data _ inside reply _ ih =>
    obtain ⟨own, fits⟩ := echoes entry interest data reply
    obtain ⟨still, others, rfl, sends⟩ := serving.answer inside fits
    obtain ⟨drifts, more, after, answers⟩ := ih sends selected
    rw [← still]
    refine ⟨drifts, data :: more, by simpa using after, ?_⟩
    intro asked member
    rcases List.mem_cons.mp member with rfl | other
    · exact ⟨data, List.mem_cons_self, own⟩
    · obtain ⟨found, sent, named⟩ := answers asked other
      exact ⟨found, List.mem_cons_of_mem _ sent, named⟩
  | @resume s _ _ _ result inside _ ih =>
    obtain ⟨still, more, part, serving⟩ := serving.resume result
    obtain ⟨drifts, sent, after, answers⟩ := ih serving selected
    rw [← still]
    exact ⟨drifts, sent, after, fun interest member => answers interest (part member)⟩

/-! ## Answering comes to an end -/

variable {host : Host}

/-- A node that answers, as far as it has come. -/
def servingAt (side : Side) (config : FaceConfig) (filters : FilterTable κ) (host : Host)
    (left : List Interest) (sent : List Data) (frames : List (Frame κ)) :
    Engine κ DelayedCalls LinkEnd :=
  { atEnd side.other (.carrying side left sent) config filters host with frames }

section ending

variable (echoes : Echoes config replies)

include echoes

/-- An interest is offered to one filter after the other, and each answers it. -/
theorem serves_offering {interest : Interest} {entries : List (FilterEntry κ)}
    (some : ∀ entry ∈ entries, ∃ data, replies entry interest data)
    (further : ∀ sent, ∃ stages after, Serves replies table false
      (servingAt side config filters host left sent [.reading]) stages after) :
    ∃ stages after, Serves replies table false
      (servingAt side config filters host left sent [.offering interest entries, .reading])
      stages after := by
  induction entries generalizing sent with
  | nil =>
    obtain ⟨stages, after, rest⟩ := further sent
    exact ⟨_, after, .advance rfl rest⟩
  | cons entry entries ih =>
    obtain ⟨data, reply⟩ := some entry List.mem_cons_self
    have later := fun other member => some other (List.mem_cons_of_mem _ member)
    obtain ⟨stages, after, rest⟩ := ih later
    have sends : ((servingAt side config filters host left sent [.inside (.interest entry interest),
          .offering interest entries, .reading]).request (.putData data)).1 =
        servingAt side config filters host left (sent ++ [data]) [.inside (.interest entry interest),
          .offering interest entries, .reading] := by
      rw [putData_eq rfl rfl (echoes entry interest data reply).2]
      rfl
    have returns : ∃ stages, Serves replies table true (servingAt side config filters host left
        (sent ++ [data]) [.inside (.interest entry interest), .offering interest entries, .reading])
        stages after := ⟨_, .resume (.ok ()) rfl rest⟩
    obtain ⟨stages, returns⟩ := returns
    rw [← sends] at returns
    exact ⟨_, after, .advance rfl (.answer rfl reply returns)⟩

/-- **A node that answers comes to an end,** when it has answered every interest that waits. -/
theorem serves_reading
    (some : ∀ entry ∈ filters.entries, ∀ interest ∈ left, ∃ data, replies entry interest data) :
    ∃ stages after, Serves replies table false
      (servingAt side config filters host left sent [.reading]) stages after := by
  induction left generalizing sent with
  | nil =>
    have takes : (servingAt side config filters host [] sent [.reading]).advance =
        .some (servingAt side config filters host [] sent [.running []], []) := by
      simp only [servingAt, atEnd, Engine.advance, Transport.receive, LinkEnd.receive,
        Link.receive_carrying_other_nil]
      rfl
    exact ⟨_, _, .advance takes (.advance rfl (.done rfl))⟩
  | cons interest left ih =>
    have reads : (servingAt side config filters host (interest :: left) sent [.reading]).advance =
        .some (servingAt side config filters host left sent
          [.offering interest (filters.matching interest.name), .reading], []) := by
      simp only [servingAt, atEnd, Engine.advance, Transport.receive, LinkEnd.receive,
        Link.receive_carrying_other_cons, dispatch, Packet.decode_toJson]
      rfl
    have matched : ∀ entry ∈ filters.matching interest.name, ∃ data, replies entry interest data :=
      fun entry member => some entry (List.mem_filter.mp member).1 interest List.mem_cons_self
    obtain ⟨stages, after, rest⟩ := serves_offering echoes matched fun sent =>
      ih fun entry member other waits =>
        some entry member other (List.mem_cons_of_mem _ waits)
    exact ⟨_, after, .advance reads rest⟩

end ending

end Engine

end NamedData
