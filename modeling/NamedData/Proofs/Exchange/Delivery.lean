import NamedData.Proofs.Exchange.Whereabouts

/-!
How the answers of a fetch get to the consumer.

Every step of either loop moves at most one interest from one place to the next (`Hold.consumer`,
`Hold.producer`).
-/
namespace NamedData.Exchange

variable {o : CommandLine.FetchOptions} {config : FaceConfig} {host : Host} {taken refused ended : Nat}
variable {left : List Interest} {c p after : Desk ExchangeCallback} {s : Seen}
variable {w : Whereabouts} {deed : Deed ExchangeCallback}

/-- A poll is not about an interest. -/
theorem asked?_poll (predicate : ExchangeCallback) (index : Nat) :
    asked? (.poll predicate index) = none := by cases predicate <;> rfl

/-- The producer listens: its filter is in place, and it is to do nothing else. -/
def Ready (o : CommandLine.FetchOptions) (d : Desk ExchangeCallback) : Prop :=
  d.queue = [] ∧ ∃ id, d.filters = [⟨id, ⟨o.root⟩, .answer⟩]

namespace Whereabouts

section arrivals

variable {received : Nat} {outcomes : List Outcome} {element : Bytes} {link : Link}

/-- What reaches the consumer is the next answer. -/
theorem Hold.arrives (hold : w.Hold o host taken received outcomes c p)
    (arrived : c.link.receive .left = (.element element, link)) :
    ∃ number rest, w.replied = number :: rest ∧
      jsonFormat.decode element = .ok (.data (o.answer number)) ∧
      link = .carrying .left (w.asked.map (o.sent host)) (rest.map o.answer) := by
  rw [hold.link] at arrived
  cases next : w.replied with
  | nil =>
    rw [next, List.map_nil, Link.receive_carrying_nil] at arrived
    cases arrived
  | cons number rest =>
    rw [next, List.map_cons, Link.receive_carrying_cons] at arrived
    cases arrived
    exact ⟨number, rest, rfl, Packet.decode_toJson _, rfl⟩

/-- What reaches the producer is the next interest. -/
theorem Hold.reaches (hold : w.Hold o host taken received outcomes c p)
    (arrived : p.link.receive .right = (.element element, link)) :
    ∃ number rest, w.asked = number :: rest ∧
      jsonFormat.decode element = .ok (.interest (o.sent host number)) ∧
      link = .carrying .left (rest.map (o.sent host)) (w.replied.map o.answer) := by
  rw [hold.shared.1, hold.link] at arrived
  change (Link.carrying ..).receive Side.left.other = _ at arrived
  cases next : w.asked with
  | nil =>
    rw [next, List.map_nil, Link.receive_carrying_other_nil] at arrived
    cases arrived
  | cons number rest =>
    rw [next, List.map_cons, Link.receive_carrying_other_cons] at arrived
    cases arrived
    exact ⟨number, rest, rfl, Packet.decode_toJson _, rfl⟩

/-- A consumer that can make nothing of what it finds has found nothing. -/
theorem Hold.nothing_arrives (hold : w.Hold o host taken received outcomes c p)
    (nothing : ∀ element, (c.link.receive .left).1 = .element element →
      ∃ error, jsonFormat.decode element = .error error) : (c.link.receive .left).2 = c.link := by
  cases next : w.replied with
  | nil =>
    rw [hold.link, next, List.map_nil, Link.receive_carrying_nil]
  | cons number rest =>
    have arrived : (c.link.receive .left).1 = .element (Packet.data (o.answer number)).toJson := by
      rw [hold.link, next, List.map_cons, Link.receive_carrying_cons]
    obtain ⟨error, failed⟩ := nothing _ arrived
    cases (Packet.decode_toJson _).symm.trans failed

/-- A producer that can make nothing of what it finds has found nothing. -/
theorem Hold.nothing_reaches (hold : w.Hold o host taken received outcomes c p)
    (nothing : ∀ element, (p.link.receive .right).1 = .element element →
      ∃ error, jsonFormat.decode element = .error error) : (p.link.receive .right).2 = p.link := by
  rw [hold.shared.1, hold.link] at nothing ⊢
  change ∀ element, ((Link.carrying ..).receive Side.left.other).1 = _ → _ at nothing
  change ((Link.carrying ..).receive Side.left.other).2 = _
  cases next : w.asked with
  | nil =>
    rw [List.map_nil, Link.receive_carrying_other_nil]
  | cons number rest =>
    rw [next, List.map_cons, Link.receive_carrying_other_cons] at nothing
    obtain ⟨error, failed⟩ := nothing _ rfl
    cases (Packet.decode_toJson _).symm.trans failed

end arrivals

/-- **A step of the consumer's loop moves at most one interest on.** -/
theorem Hold.consumer (hold : w.Hold o host taken s.received s.outcomes c p)
    (tally : Tally o config host taken refused ended left c)
    (fits : ∀ number < o.count.toNat, config.refuses (o.sent host number) = false)
    (step : c.Step config .left deed after) (stays : deed ≠ .leave)
    (silent : ∀ entry, deed = .expire entry → ∀ number ∈ w.waiting,
      entry.interest = o.sent host number → o.answers number = false) :
    ∃ (taken' : Nat) (w' : Whereabouts), w'.Hold o host taken' (s.after deed).received
      (s.after deed).outcomes after (mirror p after) := by
  cases step with
  | rest => exact ⟨taken, w, hold.still (.refl _) rfl rfl rfl rfl rfl rfl⟩
  | poll quiet idle =>
    obtain ⟨told, lapsing⟩ := hold.idle idle
    refine ⟨taken, w, { hold with across := rfl, ending := ?_, once := le_rfl, plain := ?_ }⟩
    · rw [told, lapsing, List.filterMap_cons_none (Outcome.of?_poll ..)]
      rfl
    · exact List.forall_mem_singleton.mpr (asked?_poll ..)
  | skip first other => exact ⟨taken, w, hold.still (.refl _) rfl rfl rfl rfl rfl rfl⟩
  | count first => exact ⟨taken, w, hold.still (.refl _) rfl rfl rfl rfl rfl rfl⟩
  | refuse first long =>
    obtain ⟨early, rfl, -⟩ := tally.next first
    rw [o.completed config tally.nonces tally.drawn] at long
    exact absurd (decide_eq_true long) (ne_true_of_eq_false (fits _ early))
  | @express id interest onData onTimeout queue entry other first short entry_eq host_eq =>
    obtain ⟨early, rfl, -⟩ := tally.next first
    rw [o.completed config tally.nonces tally.drawn] at entry_eq host_eq
    refine ⟨taken + 1, _, hold.express ?_ ?_ ?_ ?_⟩
    · rw [entry_eq]
    · rw [entry_eq]
    · rw [host_eq]
    · rw [host_eq]
  | register first => cases tally.known _ (first ▸ List.mem_cons_self)
  | shutdown first idle issued => exact absurd rfl stays
  | look nothing =>
    refine ⟨taken, w, hold.still (.refl _) ?_ rfl rfl rfl rfl rfl⟩
    exact hold.nothing_arrives nothing
  | read idle arrived decoded issued =>
    obtain ⟨number, rest, next, known, rfl⟩ := hold.arrives arrived
    cases known.symm.trans decoded
    exact ⟨taken, _, hold.read idle next tally.table issued⟩
  | take idle arrived decoded =>
    obtain ⟨number, rest, next, known, -⟩ := hold.arrives arrived
    cases known.symm.trans decoded
  | lapse due =>
    refine ⟨taken, w, { hold with across := rfl, owned := ?_ }⟩
    intro entry member
    exact hold.owned entry (due ▸ Multiset.mem_cons_of_mem member)
  | expire idle due own waits issued =>
    obtain ⟨_, same, expired⟩ := tally.calls _ (due ▸ Multiset.mem_cons_self ..)
    cases same
    cases own.symm.trans expired
    obtain ⟨w', moved⟩ := hold.expire idle due waits (silent _ rfl) issued
    exact ⟨taken, w', moved⟩
  | @tell call work first =>
    have plain : asked? call = none := hold.plain call (first ▸ List.mem_cons_self)
    have received : (s.after (.tell call)).received = s.received := by
      simp [Seen.after, Seen.tell, plain]
    rw [received]
    exact ⟨taken, _, hold.tell first⟩

/-- What the producer's loop does between callbacks. -/
theorem Hold.works {received : Nat} {outcomes : List Outcome}
    (hold : w.Hold o host taken received outcomes c p) (serves : Serves p)
    (ready : w.asked ≠ [] → Ready o p) (step : p.Step config .right deed after) (stays : deed ≠ .leave)
    (silent : deed.told? = none) :
    ∃ w' : Whereabouts, w'.Hold o host taken received outcomes (mirror c after) after := by
  have link := hold.shared.1.trans hold.link
  cases step with
  | rest => exact ⟨w, hold.serve (.refl _) link hold.order hold.replies hold.offered hold.single⟩
  | poll quiet idle =>
    refine ⟨w, hold.serve (.refl _) link hold.order hold.replies ?_ le_rfl⟩
    rw [hold.free idle, List.filterMap_cons_none (asked?_poll ..)]
    rfl
  | skip first other => exact ⟨w, hold.serve (.refl _) link hold.order hold.replies hold.offered hold.single⟩
  | count first => cases serves.queue _ (first ▸ List.mem_cons_self)
  | refuse first long => cases serves.queue _ (first ▸ List.mem_cons_self)
  | express first short entry_eq host_eq => cases serves.queue _ (first ▸ List.mem_cons_self)
  | register first =>
    exact ⟨w, hold.serve ⟨rfl, rfl, rfl⟩ link hold.order hold.replies hold.offered hold.single⟩
  | shutdown first idle issued => exact absurd rfl stays
  | look nothing =>
    refine ⟨w, hold.serve (.refl _) ?_ hold.order hold.replies hold.offered hold.single⟩
    exact (hold.nothing_reaches nothing).trans link
  | read idle arrived decoded issued =>
    obtain ⟨number, rest, next, known, -⟩ := hold.reaches arrived
    cases known.symm.trans decoded
  | take idle arrived decoded =>
    obtain ⟨number, rest, next, known, rfl⟩ := hold.reaches arrived
    cases known.symm.trans decoded
    obtain ⟨-, id, filters⟩ := ready (by simp [next])
    have selected : (p.filters.filter fun entry => entry.filter.matchesName (o.sent host number).name) =
        [⟨id, ⟨o.root⟩, .answer⟩] := by
      rw [filters]
      exact List.filter_eq_self.mpr (List.forall_mem_singleton.mpr o.matchesName_root)
    rw [selected]
    exact ⟨_, hold.take idle next rfl⟩
  | lapse due | expire idle due own waits issued =>
    rw [serves.calls] at due
    exact absurd due.symm Multiset.cons_ne_zero
  | tell first => cases silent

/-- **A step of the producer's loop moves at most one interest on.** -/
theorem Hold.producer {x : Exchange} (hold : w.Hold o host taken x.received x.outcomes c (x.desk .producer))
    (plan : x.plan = o.plan) (serves : Serves (x.desk .producer))
    (ready : w.asked ≠ [] → Ready o (x.desk .producer))
    (fits : ∀ number < taken, o.answers number = true →
      (Packet.data (o.answer number)).toJson.length ≤ config.maxPacketSize.toNat)
    (step : (x.before config .producer deed).Step config .right deed after) (stays : deed ≠ .leave) :
    ∃ w' : Whereabouts, w'.Hold o host taken (x.seen.after deed).received (x.seen.after deed).outcomes
      (mirror c after) after := by
  cases deed with
  | tell call =>
    cases step with
    | tell first =>
      have unseen : Outcome.of? call = none := serves.work call (first ▸ List.mem_cons_self)
      have outcomes : (x.seen.after (.tell call)).outcomes = x.outcomes := by
        simp [Seen.after, Seen.tell, unseen, Exchange.seen]
      rw [outcomes]
      exact ⟨_, hold.reply plan fits first⟩
  | rest | refuse | count | expire => exact hold.works serves ready step (by simp) rfl
  | leave => exact absurd rfl stays

/-- An interest that waits and is to be answered is under way, or its answer is. -/
theorem Hold.underWay {received : Nat} {outcomes : List Outcome} {number : Nat}
    (hold : w.Hold o host taken received outcomes c p) (waits : number ∈ w.waiting)
    (answers : o.answers number = true) : number ∈ w.asked ∨ number ∈ w.hand ∨ number ∈ w.replied := by
  have early : number ∈ List.range taken :=
    hold.all.mem_iff.mp (by simp [waits])
  rw [← hold.order, List.mem_append, List.mem_append] at early
  rcases early with reached | taking | asked
  · have answered : number ∈ (List.range received).filter o.answers := List.mem_filter.mpr ⟨reached, answers⟩
    rw [← hold.replies] at answered
    have alone := hold.nodup
    rw [← List.append_assoc, List.nodup_append] at alone
    have elsewhere : number ∉ w.answered ++ w.told := fun member =>
      alone.2.2 number member number (by simp [waits]) rfl
    simp only [List.mem_append, not_or] at answered elsewhere
    tauto
  · exact .inr (.inl taking)
  · exact .inl asked

end Whereabouts

/-- Whether an element is an interest of some name, or the data of that name. -/
def mentions (name : Name) (element : Bytes) : Bool :=
  match jsonFormat.decode element with
  | .ok (.interest interest) => decide (interest.name = name)
  | .ok (.data data) => decide (data.name = name)
  | .error _ => false

/-- Whether an interest of some name, or the data of that name, is under way: it is on the link, or the
producer has it in its hands. -/
def inTransit (x : Exchange) (name : Name) : Bool :=
  let link := x.consumer.engine.transport.link
  (link.leftLane.queue ++ link.rightLane.queue).any (mentions name) ||
    (x.producer.engine.frames.flatMap Frame.work).any fun call =>
      (asked? call).any fun interest => decide (interest.name = name)

/-- What is under way is seen to be. -/
theorem Whereabouts.Hold.inTransit {x : Exchange} {received : Nat} {outcomes : List Outcome} {number : Nat}
    (hold : w.Hold o host taken received outcomes (x.desk .consumer) (x.desk .producer))
    (moves : number ∈ w.asked ∨ number ∈ w.hand ∨ number ∈ w.replied) :
    x.inTransit (o.interest number).name = true := by
  have link : x.consumer.engine.transport.link =
      .carrying .left (w.asked.map (o.sent host)) (w.replied.map o.answer) := hold.link
  have offered : (x.producer.engine.frames.flatMap Frame.work).filterMap asked? = w.hand.map (o.sent host) :=
    hold.offered
  rw [Exchange.inTransit, Bool.or_eq_true, link]
  rcases moves with asked | taking | replied
  · refine .inl (List.any_eq_true.mpr ⟨(Packet.interest (o.sent host number)).toJson, ?_, ?_⟩)
    · exact List.mem_append_left _ (List.mem_map_of_mem (List.mem_map_of_mem asked))
    · rw [mentions, Packet.decode_toJson]
      exact decide_eq_true rfl
  · have member : o.sent host number ∈ w.hand.map (o.sent host) := List.mem_map_of_mem taking
    rw [← offered] at member
    obtain ⟨call, works, same⟩ := List.mem_filterMap.mp member
    refine .inr (List.any_eq_true.mpr ⟨call, works, ?_⟩)
    rw [same]
    exact decide_eq_true rfl
  · refine .inl (List.any_eq_true.mpr ⟨(Packet.data (o.answer number)).toJson, ?_, ?_⟩)
    · exact List.mem_append_right _ (List.mem_map_of_mem (List.mem_map_of_mem replied))
    · rw [mentions, Packet.decode_toJson]
      exact decide_eq_true rfl

/-! ## The producer's filter -/

/-- How far the producer has come when the fetch has come so far. -/
def Listens (o : CommandLine.FetchOptions) (d : Desk ExchangeCallback) : Progress → Prop
  | .starting => d.queue = [] ∧ d.filters = []
  | .registering => Ready o d ∨ d.filters = [] ∧ ∃ id onFailed options,
      d.queue = [.request (.register id o.root (some .answer) onFailed options)]
  | .expressing _ | .awaiting => Ready o d
  | .counting | .leaving | .closing | .finished => True

/-- How far the producer has come depends on its commands and its filters only. -/
theorem Listens.keep {d : Desk ExchangeCallback} {progress : Progress} (listens : Listens o d progress)
    (queue : after.queue = d.queue) (filters : after.filters = d.filters) : Listens o after progress := by
  cases progress <;> simp only [Listens, Ready, queue, filters] <;> exact listens

/-- A producer that listens goes on listening. -/
theorem Ready.step {side : Side} {d : Desk ExchangeCallback} (ready : Ready o d)
    (step : d.Step config side deed after) : Ready o after := by
  obtain ⟨none, filters⟩ := ready
  rcases step.queued with ⟨queue, same⟩ | ⟨command, first, -⟩
  · exact ⟨queue.trans none, same ▸ filters⟩
  · cases none.symm.trans first

/-- A step of the producer's loop takes it no further back. -/
theorem Listens.step {side : Side} {d : Desk ExchangeCallback} {progress : Progress}
    (listens : Listens o d progress) (step : d.Step config side deed after) : Listens o after progress := by
  cases progress with
  | starting =>
    obtain ⟨none, filters⟩ := listens
    rcases step.queued with ⟨queue, same⟩ | ⟨command, first, -⟩
    · exact ⟨queue.trans none, same.trans filters⟩
    · cases none.symm.trans first
  | registering =>
    rcases listens with ready | ⟨filters, id, onFailed, options, only⟩
    · exact .inl (ready.step step)
    · rcases step.queued with ⟨queue, same⟩ | ⟨command, first, registers⟩
      · exact .inr ⟨same.trans filters, id, onFailed, options, queue.trans only⟩
      · obtain ⟨rfl, none⟩ := List.cons.inj (only.symm.trans first)
        obtain ⟨filterId, more⟩ := registers _ _ _ _ _ rfl
        rw [filters] at more
        exact .inl ⟨none.symm, filterId, more⟩
  | expressing left => exact Ready.step listens step
  | awaiting => exact Ready.step listens step
  | counting | leaving | closing | finished => trivial

end NamedData.Exchange
