import NamedData.Proofs.Echo.Serving

/-!
Two new nodes on one link, of which one asks and the other answers.

The first expresses interests, the second processes events, and then the first does. One data may answer
several interests, the others that were sent for these find none, and timeouts of interests that were
answered come to nothing; so every interest is answered, and that once
(`Engine.every_interest_is_answered`).
-/
namespace NamedData

/-- An interest is satisfied by its own name, if it asks for neither more nor less than one component
behind it. Nothing that it excludes can stand there. -/
theorem Interest.matchesName_self (i : Interest)
    (least : ∀ count, i.minSuffix = some count → count ≤ 1)
    (most : ∀ count, i.maxSuffix = some count → 1 ≤ count) : i.matchesName i.name = true := by
  have one : i.name.length + 1 - i.name.length = 1 := Nat.add_sub_cancel_left ..
  have none : i.name.get? i.name.length = none := by simp [Name.get?, Name.length]
  have self : i.name.isPrefixOf i.name = true := by simp [Name.isPrefixOf]
  simp only [matchesName, one, none, self, Bool.true_and, Bool.and_true, Bool.and_eq_true]
  constructor
  · cases given : i.minSuffix with
    | none => rfl
    | some count => exact decide_eq_true (least count given)
  · cases given : i.maxSuffix with
    | none => rfl
    | some count => exact decide_eq_true (most count given)

/-- Data that is sent arrives as it is. -/
theorem arrivals_toJson (sent : List Data) :
    jsonFormat.arrivals (sent.map fun data => (Packet.data data).toJson) = sent := by
  simp [WireFormat.arrivals, List.filterMap_map, Packet.decode_toJson]

namespace Engine

variable {κ ι : Type}

/-- A node finds the link and the host as the node at the other end has left them. -/
def follow (e : Engine κ DelayedCalls LinkEnd) (other : Engine ι DelayedCalls LinkEnd) :
    Engine κ DelayedCalls LinkEnd :=
  { e with transport := { e.transport with link := other.transport.link }, host := other.host }

/-- A node that has asked processes events when another one has answered. Nobody else uses its end of
the link. -/
structure Collects (start : Engine κ DelayedCalls LinkEnd)
    (asking : List (Stage κ DelayedCalls LinkEnd)) (e : Engine κ DelayedCalls LinkEnd)
    (served : Engine ι DelayedCalls LinkEnd) (collecting : List (Stage κ DelayedCalls LinkEnd))
    (after : Engine κ DelayedCalls LinkEnd) : Prop where
  processing : start.Processing (asking ++ [⟨e, .drift, [], e.follow served⟩]) (e.follow served)
    collecting after
  alone : KeepsTransport collecting

/-- Some entries have been answered, each of them once. Nobody has been told anything else, and no
interest waits any more. -/
structure AllAnswered (entries : List (PendingInterest κ)) (calls : List (Call κ))
    (after : Engine κ DelayedCalls LinkEnd) : Prop where
  each : ∀ entry ∈ entries, ∃ data, entry.interest.matchesName data.name = true ∧
    calls.filter (Call.resolves entry.handle) = [.data entry data]
  only : ∀ call ∈ calls, ∃ entry ∈ entries, ∃ data, call = .data entry data
  settled : after.node.pending.entries = []

variable {side : Side} {config limits : FaceConfig} {host : Host} {filters : FilterTable ι}
variable {replies : FilterEntry ι → Interest → Data → Prop}
variable {asking collecting serving : List (Stage κ DelayedCalls LinkEnd)}
variable {e after : Engine κ DelayedCalls LinkEnd} {served : Engine ι DelayedCalls LinkEnd}
variable {sent arrived : List Data} {now : Instant} {events : List (Event κ)}

/-- When data has arrived for every entry that waits, all are answered and none times out. -/
theorem Processed.allAnswered (processed : e.Processed arrived now events after)
    (answered : ∀ entry ∈ e.node.pending.entries,
      ∃ data ∈ arrived, entry.interest.matchesName data.name = true) :
    AllAnswered e.node.pending.entries (called events) after := by
  have answer (entry : PendingInterest κ) (waits : entry ∈ e.node.pending.entries) :
      ∃ data, entry.answer? arrived = some data ∧ entry.interest.matchesName data.name = true := by
    have some : (entry.answer? arrived).isSome = true := by
      rw [PendingInterest.answer?, List.find?_isSome]
      exact answered entry waits
    obtain ⟨data, found⟩ := Option.isSome_iff_exists.mp some
    rw [PendingInterest.answer?] at found
    have matched := List.find?_some found
    exact ⟨data, found, matched⟩
  have none : unanswered e.node.pending.entries arrived = [] := by
    rw [List.eq_nil_iff_forall_not_mem]
    intro entry left
    obtain ⟨waits, unanswered⟩ := mem_unanswered.mp left
    obtain ⟨data, found, -⟩ := answer entry waits
    cases found.symm.trans unanswered
  constructor
  case each =>
    intro entry waits
    obtain ⟨data, found, matched⟩ := answer entry waits
    refine ⟨data, matched, ?_⟩
    rw [processed.each entry waits, fate, found]
  case only =>
    obtain ⟨late, told, -, due⟩ := processed.calls
    rw [none, List.filter_nil, List.perm_nil] at due
    rw [told, due]
    intro call member
    exact mem_deliveries (by simpa [timeouts] using member)
  case settled => rw [processed.node, none, List.filter_nil]

/-- A node without filters has nothing to offer anyone. -/
theorem Asked.harmless (asked : Asked side config asking e) (served : Engine ι DelayedCalls LinkEnd)
    (element : Bytes) : (e.follow served).Harmless element := by
  intro interest _
  rw [follow, asked.node]
  rfl

/-- A node is handed the data that the node at the other end has sent. -/
theorem Asked.yields (asked : Asked side config asking e)
    (link : served.transport.link = .carrying side [] sent) :
    Transport.Yields (e.follow served).transport
      (sent.map fun data => (Packet.data data).toJson) := by
  rw [follow, asked.transport, link]
  exact Link.yields_carrying side [] sent

/-- A node that collects reads all data that waits on the link. -/
theorem Collects.processed (run : (atEnd side {} config {} host).Run asking e)
    (expressing : Expressing asking) (link : served.transport.link = .carrying side [] sent)
    (collects : Collects (atEnd side {} config {} host) asking e served collecting after) :
    ∃ now, (e.follow served).Processed sent now (NamedData.Stage.seen collecting) after := by
  have asked := Run.asked run expressing
  have fresh := fresh_atEnd (κ := κ) side {} config host
  have timed : (e.follow served).Timed := ⟨asked.timeouts, (asked.timed run expressing).once⟩
  have json : (e.follow served).node.format = jsonFormat := by rw [follow, asked.node]
  have kept : KeepsCalls (asking ++ [⟨e, .drift, [], e.follow served⟩]) :=
    List.forall_mem_append.mpr ⟨expressing.polled.keeps, List.forall_mem_singleton.mpr fun _ => rfl⟩
  obtain ⟨now, -, processed⟩ := collects.processing.processed fresh .nil kept timed
    fun element _ => asked.harmless served element
  have all := collects.processing.read_eq fresh .nil kept timed collects.alone
    (asked.harmless served) (asked.yields link)
  rw [all, json, arrivals_toJson] at processed
  exact ⟨now, processed⟩

/-- A node that has asked comes to have collected what was sent, whatever the callbacks return. -/
theorem exists_collecting (run : (atEnd side {} config {} host).Run asking e)
    (expressing : Expressing asking) (link : served.transport.link = .carrying side [] sent)
    (drifts : e.host.Drifts e.node.pending served.host) (answer : Call κ → CallbackResult) :
    ∃ collecting after,
      Collects (atEnd side {} config {} host) asking e served collecting after := by
  have asked := Run.asked run expressing
  obtain ⟨collecting, after, goes, finished, -⟩ :=
    goes_reading (s := (e.follow served).push .reading) answer (asked.yields link) rfl rfl
      (fun element _ => asked.harmless served element) asked.timeouts
  have follows : (atEnd side {} config {} host).Follows asking
      ⟨e, .drift, [], e.follow served⟩ :=
    ⟨.drift ⟨rfl, rfl, fun _ held => held, drifts⟩, by simp⟩
  have asks : (atEnd side {} config {} host).Follows
      (asking ++ [⟨e, .drift, [], e.follow served⟩]) (e.follow served).asked := by
    refine ⟨.act (if_pos ?_), fun call same => by cases same⟩
    change (e.follow served).accepts = true
    rw [accepts, show (e.follow served).frames = [] from asked.frames]
  refine ⟨collecting, after, ⟨?_, ?_, ?_, finished⟩, ?_⟩
  · simpa using goes.run (.step (.step run follows) asks)
  · intro stage member drifts
    exact absurd drifts (goes.mem member).2.1
  · intro stage member
    exact (goes.mem member).1
  · intro stage member drifts
    exact absurd drifts (goes.mem member).2.1

section answering

variable (asked : Asked side config asking e) (echoes : Echoes limits replies)

include asked

/-- The link on which the other node starts. -/
theorem Asked.link_eq : e.transport.link = .carrying side ((made asking).map (·.interest)) [] := by
  rw [asked.transport]

include echoes

/-- The other node comes to have processed events. -/
theorem Asked.exists_serving
    (answers : ∀ filter ∈ filters.entries, ∀ entry ∈ made asking, ∃ data,
      replies filter entry.interest data) :
    let producer := atEnd side.other e.transport.link limits filters e.host
    ∃ serving served, producer.Run (producer.asked :: serving) served ∧
      Serves replies e.node.pending false (producer.push .reading) serving served := by
  intro producer
  have some : ∀ filter ∈ filters.entries, ∀ interest ∈ (made asking).map (·.interest),
      ∃ data, replies filter interest data := by
    intro filter listed interest member
    obtain ⟨entry, expressed, rfl⟩ := List.mem_map.mp member
    exact answers filter listed entry expressed
  have begins : producer.push .reading =
      servingAt side limits filters e.host ((made asking).map (·.interest)) [] [.reading] := by
    rw [servingAt, ← asked.link_eq]
    rfl
  obtain ⟨serving, served, serves⟩ : ∃ serving served,
      Serves replies e.node.pending false (producer.push .reading) serving served := by
    rw [begins]
    exact serves_reading echoes some
  have asks : producer.Follows [] producer.asked := ⟨.act rfl, fun call same => by cases same⟩
  exact ⟨serving, served, serves.run (.step .start asks), serves⟩

/-- When the other node has processed events, there is data on the link for every interest. -/
theorem Asked.exists_sent {serving : List (Stage ι DelayedCalls LinkEnd)}
    (selected : ∀ entry ∈ made asking, ∃ filter ∈ filters.entries,
      filter.filter.matchesName entry.interest.name = true)
    (serves : Serves replies e.node.pending false
      ((atEnd side.other e.transport.link limits filters e.host).push .reading) serving served) :
    e.host.Drifts e.node.pending served.host ∧ ∃ sent, served.transport.link = .carrying side [] sent ∧
      ∀ entry ∈ made asking, ∃ data ∈ sent, data.name = entry.interest.name := by
  have offered : ∀ interest ∈ (made asking).map (·.interest),
      filters.matching interest.name ≠ [] := by
    intro interest member
    obtain ⟨entry, expressed, rfl⟩ := List.mem_map.mp member
    obtain ⟨filter, listed, selects⟩ := selected entry expressed
    exact List.ne_nil_of_mem (List.mem_filter.mpr ⟨listed, selects⟩)
  have begins : Serving side limits filters [] false ((made asking).map (·.interest))
      ((made asking).map (·.interest))
      ((atEnd side.other e.transport.link limits filters e.host).push .reading) := by
    refine ⟨rfl, ?_, .reading _⟩
    rw [← asked.link_eq]
    rfl
  obtain ⟨drifts, sent, ends, answered⟩ := serves.answers begins offered echoes
  refine ⟨drifts, sent, by rw [ends.transport, List.nil_append], ?_⟩
  intro entry expressed
  exact answered entry.interest (List.mem_map_of_mem expressed)

end answering

/-- **Every interest is answered once.** Take two new nodes on the two ends of a link. The first, which
has no filters, expresses interests, any number of them, in any order and with any lifetimes; each is
selected by some filter of the second, and asks for neither more nor less than the one component that is
counted behind its own name. The callbacks of the filters answer with data of the name that was asked
for. Then the second node comes to have processed events, and however it does, so does the first after
it; and however that does, every interest has been answered once by then, nobody has been told anything
else, and no interest waits any more. -/
theorem every_interest_is_answered (run : (atEnd side {} config {} host).Run asking e)
    (expressing : Expressing asking)
    (selected : ∀ entry ∈ made asking, ∃ filter ∈ filters.entries,
      filter.filter.matchesName entry.interest.name = true)
    (least : ∀ entry ∈ made asking, ∀ count, entry.interest.minSuffix = some count → count ≤ 1)
    (most : ∀ entry ∈ made asking, ∀ count, entry.interest.maxSuffix = some count → 1 ≤ count)
    (echoes : Echoes limits replies)
    (answers : ∀ filter ∈ filters.entries, ∀ entry ∈ made asking, ∃ data,
      replies filter entry.interest data) :
    let consumer := atEnd side {} config {} host
    let producer := atEnd side.other e.transport.link limits filters e.host
    (∃ serving served, producer.Run (producer.asked :: serving) served ∧
      Serves replies e.node.pending false (producer.push .reading) serving served) ∧
    ∀ serving served, Serves replies e.node.pending false (producer.push .reading) serving served →
      (∃ collecting after, Collects consumer asking e served collecting after) ∧
      ∀ collecting after, Collects consumer asking e served collecting after →
        AllAnswered (made asking) (called (NamedData.Stage.seen (asking ++ collecting))) after := by
  intro consumer producer
  have asked := Run.asked run expressing
  refine ⟨asked.exists_serving echoes answers, ?_⟩
  intro serving served serves
  obtain ⟨drifts, sent, link, named⟩ := asked.exists_sent echoes selected serves
  refine ⟨exists_collecting run expressing link drifts fun _ => .ok (), ?_⟩
  intro collecting after collects
  obtain ⟨now, processed⟩ := collects.processed run expressing link
  have waiting : (e.follow served).node.pending.entries = made asking := by rw [follow, asked.node]
  rw [NamedData.Stage.seen_append, called_append, asked.silent, List.nil_append, ← waiting]
  apply processed.allAnswered
  intro entry waits
  rw [waiting] at waits
  obtain ⟨data, found, same⟩ := named entry waits
  refine ⟨data, found, ?_⟩
  rw [same]
  exact entry.interest.matchesName_self (least entry waits) (most entry waits)

/-- An interest whose lifetime is over at once. -/
def briefInterest (name : Name) : Interest := { name, lifetime := some .zero, nonce := some 0 }

/-- A callback that answers with empty data of the name that was asked for, unless that is too long. -/
def repliesEmpty (_ : FilterEntry Unit) (interest : Interest) (data : Data) : Prop :=
  data = ⟨interest.name, [], none⟩ ∧
    (Packet.data data).toJson.length ≤ ({} : FaceConfig).maxPacketSize.toNat

/-- A filter that selects every interest. -/
def everything : FilterTable Unit := FilterTable.add {} .first ⟨⟨[]⟩⟩ ()

/-- Two interests, one for a name below that of the other. -/
def nestedInterests : List Interest :=
  [briefInterest ⟨[⟨[1]⟩]⟩, briefInterest ⟨[]⟩]

theorem nested_interests_are_answered :
    ∃ (asking : List (Stage Unit DelayedCalls LinkEnd)) (e : Engine Unit DelayedCalls LinkEnd),
      (atEnd .left {} {} {} untouched.host).Run asking e ∧ Expressing asking ∧
      (made asking).map (·.interest) = nestedInterests ∧
      ∃ serving served collecting after,
        Serves repliesEmpty e.node.pending false
          ((atEnd .right e.transport.link {} everything e.host).push .reading) serving served ∧
        Collects (atEnd .left {} {} {} untouched.host) asking e served collecting after ∧
        AllAnswered (made asking) (called (NamedData.Stage.seen (asking ++ collecting))) after := by
  have brief : ∀ interest ∈ nestedInterests, interest.minSuffix = none ∧ interest.maxSuffix = none ∧
      (Packet.interest interest).toJson.length ≤ ({} : FaceConfig).maxPacketSize.toNat ∧
      (Packet.data ⟨interest.name, [], none⟩).toJson.length ≤
        ({} : FaceConfig).maxPacketSize.toNat := by
    decide +kernel
  have complete : ∀ interest ∈ nestedInterests, interest.nonce.isSome = true ∧ ∃ lifetime,
      interest.lifetime = some lifetime ∧ (untouched.host.now.add? lifetime).isSome = true := by
    intro interest member
    obtain ⟨name, -, rfl⟩ := List.mem_map.mp
      (show interest ∈ [⟨[⟨[1]⟩]⟩, ⟨[]⟩].map briefInterest from member)
    exact ⟨rfl, .zero, rfl, rfl⟩
  obtain ⟨asking, e, run, expressing, asked, -⟩ := exists_asking .left {} untouched.host () (some ())
    nestedInterests complete fun interest member => (brief interest member).2.2.1
  have nested : ∀ entry ∈ made asking, entry.interest ∈ nestedInterests := by
    intro entry member
    rw [← asked]
    exact List.mem_map_of_mem member
  have free : ∀ entry ∈ made asking, ∀ count,
      (entry.interest.minSuffix = some count → count ≤ 1) ∧
        (entry.interest.maxSuffix = some count → 1 ≤ count) := by
    intro entry member count
    obtain ⟨least, most, -⟩ := brief entry.interest (nested entry member)
    simp [least, most]
  have selected : ∀ entry ∈ made asking, ∃ filter ∈ everything.entries,
      filter.filter.matchesName entry.interest.name = true :=
    fun _ _ => ⟨⟨.first, ⟨⟨[]⟩⟩, ()⟩, List.mem_cons_self, rfl⟩
  have echoes : Echoes {} repliesEmpty := by
    rintro _ interest data ⟨rfl, fits⟩
    exact ⟨rfl, fits⟩
  have answers : ∀ filter ∈ everything.entries, ∀ entry ∈ made asking, ∃ data,
      repliesEmpty filter entry.interest data :=
    fun _ _ entry member => ⟨_, rfl, (brief entry.interest (nested entry member)).2.2.2⟩
  obtain ⟨⟨serving, served, -, serves⟩, answered⟩ :=
    every_interest_is_answered run expressing selected
      (fun entry member count => (free entry member count).1)
      (fun entry member count => (free entry member count).2) echoes answers
  obtain ⟨⟨collecting, after, collects⟩, all⟩ := answered serving served serves
  exact ⟨asking, e, run, expressing, asked, serving, served, collecting, after, serves, collects,
    all collecting after collects⟩

end Engine

end NamedData
