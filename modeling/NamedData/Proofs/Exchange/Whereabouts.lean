import Mathlib
import NamedData.Proofs.Echo.Asking
import NamedData.Proofs.Exchange.Summary

/-!
Where the interests of a fetch are.

The producer counts the interests that reach it and does not look at their names. That it answers the
right ones is due to their order: at every moment the interests that have been expressed lie, by their
numbers, in one line from those that the producer has counted to those that are still on their way
(`Whereabouts.Hold`).
-/
namespace NamedData

theorem utf8_injective {s t : List Char} (same : utf8 s = utf8 t) : s = t := by
  have encoded : s.utf8Encode = t.utf8Encode := congrArg List.toByteArray same
  rw [← String.toByteArray_ofList, ← String.toByteArray_ofList] at encoded
  exact String.ofList_inj.mp (String.toByteArray_inj.mp encoded)

theorem Component.ofText_injective {s t : List Char} (same : Component.ofText s = Component.ofText t) :
    s = t :=
  utf8_injective (congrArg Component.octets same)

/-- An interest without selectors for one of two names with one component more than a common one is
satisfied by the other if that is the same. -/
theorem Interest.matchesName_append {i : Interest} {n : Name} {c d : Component}
    (named : i.name = n.append c) (least : i.minSuffix = none) (most : i.maxSuffix = none) :
    i.matchesName (n.append d) = decide (c = d) := by
  have none : (n.append d).get? i.name.length = none := by
    simp [named, Name.get?, Name.length, Name.append]
  have prefixed : i.name.isPrefixOf (n.append d) = decide (c = d) := by
    rw [Bool.eq_iff_iff, named, Name.isPrefixOf, List.isPrefixOf_iff_prefix, decide_eq_true_eq]
    simp [Name.append, List.prefix_append_right_inj]
  simp [Interest.matchesName, none, least, most, prefixed]

namespace CommandLine.FetchOptions

variable {o : FetchOptions} {host : Host} {number other : Nat}

/-- The answer to the interest of some number. -/
def answer (o : FetchOptions) (number : Nat) : Data where
  name := (o.interest number).name
  content := Exchange.answerContent (number + 1)

/-- Whether the interest of some number is answered. -/
def answers (o : FetchOptions) (number : Nat) : Bool := !o.plan.ignores (number + 1)

/-- The interest of some number was answered. -/
def satisfied (o : FetchOptions) (host : Host) (number : Nat) : Exchange.Outcome :=
  .answered (o.sent host number) (o.answer number)

/-- The interest of some number has timed out. -/
def lapsed (o : FetchOptions) (host : Host) (number : Nat) : Exchange.Outcome :=
  .expired (o.sent host number)

@[simp] theorem isAnswered_satisfied : (o.satisfied host number).isAnswered = true := rfl

@[simp] theorem isAnswered_lapsed : (o.lapsed host number).isAnswered = false := rfl

/-- An answer is for the interest of its number and for no other. -/
theorem matchesName_answer :
    (o.sent host number).matchesName (o.answer other).name = decide (number = other) := by
  have numbers : Component.ofText (toString number).toList = Component.ofText (toString other).toList ↔
      number = other :=
    ⟨fun same => Nat.repr_inj.mp (String.toList_inj.mp (Component.ofText_injective same)),
      fun same => by rw [same]⟩
  simp only [answer, interest, Interest.matchesName_append (i := o.sent host number) rfl rfl rfl, numbers]

/-- The filter of the producer selects every interest of the fetch. -/
theorem matchesName_root : InterestFilter.matchesName ⟨o.root⟩ (o.sent host number).name = true := by
  simp [InterestFilter.matchesName, sent, interest, Name.isPrefixOf, Name.append]

end CommandLine.FetchOptions

namespace Exchange

/-- Where the interests of a fetch are, by their numbers. -/
structure Whereabouts where
  /-- On their way to the producer. -/
  asked : List Nat
  /-- In the hands of the producer. -/
  hand : List Nat
  /-- The answer is on its way to the consumer. -/
  replied : List Nat
  /-- The consumer is about to be told of the answer. -/
  told : List Nat
  answered : List Nat
  /-- The consumer is about to be told that the interest has timed out. -/
  lapsing : List Nat
  expired : List Nat
  /-- In the consumer's table. -/
  waiting : List Nat

/-- A desk when the loop at the other has done something. -/
def mirror (d after : Desk ExchangeCallback) : Desk ExchangeCallback :=
  { d with link := after.link, host := after.host }

/-- The interests of a fetch are there. So many have been taken from the consumer's queue. -/
structure Whereabouts.Hold (o : CommandLine.FetchOptions) (host : Host) (taken : Nat) (w : Whereabouts)
    (received : Nat) (outcomes : List Outcome) (c p : Desk ExchangeCallback) : Prop where
  drawn : c.host.noncesDrawn = host.noncesDrawn + taken
  link : c.link = .carrying .left (w.asked.map (o.sent host)) (w.replied.map o.answer)
  across : p = mirror p c
  /-- The producer counts the interests in the order of their numbers. -/
  order : List.range received ++ (w.hand ++ w.asked) = List.range taken
  /-- The answers come in the order of the interests that they are for. -/
  replies : w.answered ++ (w.told ++ w.replied) = (List.range received).filter o.answers
  /-- Each interest waits, or has left the table in one of two ways. -/
  all : (w.answered ++ (w.told ++ (w.lapsing ++ (w.expired ++ w.waiting)))).Perm (List.range taken)
  ignored : ∀ number ∈ w.lapsing ++ w.expired, o.answers number = false
  offered : p.work.filterMap asked? = w.hand.map (o.sent host)
  single : p.work.length ≤ 1
  ending : c.work.filterMap Outcome.of? = w.told.map (o.satisfied host) ++ w.lapsing.map (o.lapsed host)
  once : c.work.length ≤ 1
  plain : ∀ call ∈ c.work, asked? call = none
  satisfied : outcomes.filter Outcome.isAnswered = w.answered.map (o.satisfied host)
  lapsed : (outcomes.filter fun outcome => !outcome.isAnswered) = w.expired.map (o.lapsed host)
  table : c.table.map (·.interest) = w.waiting.map (o.sent host)
  handles : ∀ entry ∈ c.table, entry.handle < c.host.marks.next
  /-- A timeout to come is for its own entry, if that still waits. -/
  owned : ∀ entry, .timeout entry ∈ c.calls → entry.handle < c.host.marks.next ∧
    ∀ other ∈ c.table, other.handle = entry.handle → other = entry

variable {o : CommandLine.FetchOptions} {config : FaceConfig} {host : Host} {taken received : Nat}
variable {outcomes : List Outcome} {c p after : Desk ExchangeCallback} {w : Whereabouts}

namespace Whereabouts

/-- The next interest is expressed. -/
theorem Hold.express {queue : List (Command ExchangeCallback)}
    {entry : PendingInterest ExchangeCallback} {other : Host}
    (hold : w.Hold o host taken received outcomes c p) (sent : entry.interest = o.sent host taken)
    (own : entry.handle = c.host.marks.next) (drawn : other.noncesDrawn = c.host.noncesDrawn + 1)
    (issued : other.marks = c.host.marks.issue) :
    let after : Desk ExchangeCallback := { c with
      queue
      host := other
      table := c.table ++ [entry]
      calls := c.calls + {.timeout entry}
      link := c.link.handed .left (Packet.interest entry.interest).toJson }
    Hold o host (taken + 1) { w with asked := w.asked ++ [taken], waiting := w.waiting ++ [taken] }
      received outcomes after (mirror p after) := by
  intro after
  have next : after.host.marks.next = c.host.marks.next + 1 := by
    change other.marks.next = _
    rw [issued, Marks.next_issue]
  exact { hold with
    drawn := by
      change other.noncesDrawn = _
      rw [drawn, hold.drawn, Nat.add_assoc]
    link := by
      change c.link.handed .left (Packet.interest entry.interest).toJson = _
      rw [hold.link, sent, Link.handed, Link.send?_carrying, List.map_append]
      rfl
    across := rfl
    order := by
      rw [List.range_succ, ← hold.order]
      simp
    all := by
      rw [List.range_succ]
      simpa [List.append_assoc] using hold.all.append_right [taken]
    table := by
      change (c.table ++ [entry]).map _ = _
      rw [List.map_append, List.map_append, hold.table]
      exact congrArg (_ ++ [·]) sent
    handles := by
      rw [next]
      intro other member
      rcases List.mem_append.mp member with old | new
      · exact Nat.lt_succ_of_lt (hold.handles other old)
      · rw [List.mem_singleton.mp new, own]
        exact Nat.lt_succ_self _
    owned := by
      rw [next]
      intro timed member
      rcases Multiset.mem_add.mp member with old | new
      · obtain ⟨early, alone⟩ := hold.owned timed old
        refine ⟨Nat.lt_succ_of_lt early, fun other member same => ?_⟩
        rcases List.mem_append.mp member with older | newer
        · exact alone other older same
        · rw [List.mem_singleton.mp newer, own] at same
          omega
      · cases Multiset.mem_singleton.mp new
        refine ⟨own ▸ Nat.lt_succ_self _, fun other member same => ?_⟩
        rcases List.mem_append.mp member with older | newer
        · have early := hold.handles other older
          omega
        · exact List.mem_singleton.mp newer }

/-- Nobody is about to be told anything by a consumer that has nothing to do. -/
theorem Hold.idle (hold : w.Hold o host taken received outcomes c p) (idle : c.work = []) :
    w.told = [] ∧ w.lapsing = [] := by
  have ending := hold.ending
  rw [idle] at ending
  obtain ⟨told, lapsing⟩ := List.append_eq_nil_iff.mp ending.symm
  exact ⟨List.map_eq_nil_iff.mp told, List.map_eq_nil_iff.mp lapsing⟩

/-- Every interest is in one place only. -/
theorem Hold.nodup (hold : w.Hold o host taken received outcomes c p) :
    (w.answered ++ (w.told ++ (w.lapsing ++ (w.expired ++ w.waiting)))).Nodup :=
  hold.all.nodup_iff.mpr List.nodup_range

/-- An interest whose answer is on its way waits in the table. -/
theorem Hold.waits (hold : w.Hold o host taken received outcomes c p) {number : Nat} {rest : List Nat}
    (next : w.replied = number :: rest) : number ∈ w.waiting := by
  have replies := hold.replies
  rw [next] at replies
  have reached : number ∈ (List.range received).filter o.answers := by
    rw [← replies]
    simp
  obtain ⟨before, answers⟩ := List.mem_filter.mp reached
  have alone : (w.answered ++ (w.told ++ number :: rest)).Nodup :=
    replies ▸ List.nodup_range.filter _
  have early : number ∈ List.range taken := by
    rw [← hold.order]
    exact List.mem_append_left _ before
  have other : number ∉ w.lapsing ++ w.expired := fun member =>
    Bool.false_ne_true ((hold.ignored number member).symm.trans answers)
  have place := hold.all.mem_iff.mpr early
  rw [← List.append_assoc, List.nodup_middle, List.nodup_cons] at alone
  simp only [List.mem_append, not_or] at place alone other
  tauto

/-- The consumer reads an answer. -/
theorem Hold.read {number : Nat} {rest : List Nat} {marks : Marks}
    (hold : w.Hold o host taken received outcomes c p) (idle : c.work = [])
    (next : w.replied = number :: rest) (delivered : ∀ entry ∈ c.table, entry.onData = .delivered)
    (issued : marks.next = c.host.marks.next) :
    let after : Desk ExchangeCallback := { c with
      link := .carrying .left (w.asked.map (o.sent host)) (rest.map o.answer)
      table := c.table.filter fun entry => !entry.interest.matchesName (o.answer number).name
      work := (c.table.filter fun entry => entry.interest.matchesName (o.answer number).name).reverse.map
        fun entry => .data entry (o.answer number)
      host := { c.host with marks } }
    Hold o host taken
      { w with replied := rest, told := [number], waiting := w.waiting.filter fun other => other != number }
      received outcomes after (mirror p after) := by
  intro after
  obtain ⟨told, lapsing⟩ := hold.idle idle
  have waits := hold.waits next
  have alone : w.waiting.Nodup := hold.nodup.sublist (by
    iterate 4 apply List.Sublist.trans _ (List.sublist_append_right ..)
    exact List.Sublist.refl _)
  -- Of the entries exactly the one for this interest matches.
  obtain ⟨entry, matched, own⟩ : ∃ entry, (c.table.filter fun entry =>
      entry.interest.matchesName (o.answer number).name) = [entry] ∧ entry.interest = o.sent host number := by
    have found := congrArg (List.filter fun interest =>
      interest.matchesName (o.answer number).name) hold.table
    rw [List.filter_map, List.filter_map] at found
    have one : w.waiting.filter ((fun interest =>
        interest.matchesName (o.answer number).name) ∘ o.sent host) = [number] := by
      simp only [Function.comp_def, CommandLine.FetchOptions.matchesName_answer]
      rw [List.filter_eq, List.count_eq_one_of_mem alone waits]
      rfl
    rw [one] at found
    obtain ⟨entry, same, own⟩ := List.map_eq_singleton_iff.mp found
    exact ⟨entry, same, own⟩
  have member : entry ∈ c.table :=
    (List.mem_filter.mp (matched ▸ List.mem_singleton_self entry : entry ∈ c.table.filter _)).1
  have work : after.work = [.data entry (o.answer number)] := by
    change (c.table.filter _).reverse.map _ = _
    rw [matched]
    rfl
  have staying : after.table.Sublist c.table := List.filter_sublist
  exact { hold with
    drawn := hold.drawn
    link := rfl
    across := rfl
    replies := by
      rw [← hold.replies, told, next]
      rfl
    all := by
      have parts : w.waiting.Perm (number :: w.waiting.filter fun other => other != number) :=
        alone.erase_eq_filter number ▸ List.perm_cons_erase waits
      refine List.Perm.trans ?_ hold.all
      rw [told, lapsing]
      refine .append_left _ (List.Perm.trans ?_ (parts.append_left _).symm)
      change (number :: (w.expired ++ _)).Perm _
      exact List.perm_middle.symm
    ending := by
      rw [work, lapsing]
      have ended : Outcome.of? (.data entry (o.answer number)) =
          some (.answered entry.interest (o.answer number)) := by
        simp [Outcome.of?, Call.callback, delivered entry member]
      rw [List.filterMap_cons_some ended, own]
      rfl
    once := by
      rw [work]
      exact le_rfl
    plain := by
      rw [work]
      refine List.forall_mem_singleton.mpr ?_
      cases own : entry.onData <;> simp [asked?, Call.callback, own]
    table := by
      have kept := congrArg (List.filter fun interest =>
        !interest.matchesName (o.answer number).name) hold.table
      rw [List.filter_map, List.filter_map] at kept
      refine kept.trans (congrArg _ (List.filter_congr fun other _ => ?_))
      rw [Function.comp, CommandLine.FetchOptions.matchesName_answer]
      rfl
    handles := by
      intro entry member
      exact lt_of_lt_of_eq (hold.handles entry (staying.subset member)) issued.symm
    owned := by
      intro timed member
      obtain ⟨early, alone⟩ := hold.owned timed member
      exact ⟨lt_of_lt_of_eq early issued.symm, fun other member => alone other (staying.subset member)⟩ }

/-- The lifetime of an interest is over that is not answered. -/
theorem Hold.expire {entry : PendingInterest ExchangeCallback} {calls : Multiset (NodeCall ExchangeCallback)}
    {marks : Marks} (hold : w.Hold o host taken received outcomes c p) (idle : c.work = [])
    (due : c.calls = .timeout entry ::ₘ calls) (waits : ∃ other ∈ c.table, other.handle = entry.handle)
    (silent : ∀ number ∈ w.waiting, entry.interest = o.sent host number → o.answers number = false)
    (issued : marks.next = c.host.marks.next) :
    let after : Desk ExchangeCallback := { c with
      calls
      table := c.table.eraseP fun other => other.handle == entry.handle
      work := [.timeout entry .expired]
      host := { c.host with marks } }
    ∃ w' : Whereabouts, w'.Hold o host taken received outcomes after (mirror p after) := by
  intro after
  obtain ⟨told, lapsing⟩ := hold.idle idle
  obtain ⟨-, alone⟩ := hold.owned entry (due ▸ Multiset.mem_cons_self ..)
  obtain ⟨other, member, same⟩ := waits
  obtain ⟨found, earlier, later, -, same, parts, left⟩ :=
    List.exists_of_eraseP (p := fun other => other.handle == entry.handle) member (beq_iff_eq.mpr same)
  obtain rfl : found = entry := alone found (by simp [parts]) (beq_iff_eq.mp same)
  have table := hold.table
  rw [parts, List.map_append, List.map_cons] at table
  obtain ⟨before, rest, split, named, others⟩ := List.map_eq_append_iff.mp table.symm
  obtain ⟨number, behind, rfl, own, others⟩ := List.map_eq_cons_iff.mp others
  have member : number ∈ w.waiting := by simp [split]
  have staying : after.table.Sublist c.table := List.eraseP_sublist
  refine ⟨{ w with lapsing := [number], waiting := before ++ behind }, ?_⟩
  exact { hold with
    across := rfl
    all := by
      refine List.Perm.trans ?_ hold.all
      rw [lapsing, split]
      refine .append_left _ (.append_left _ ?_)
      change (number :: (w.expired ++ (before ++ behind))).Perm (w.expired ++ (before ++ number :: behind))
      rw [← List.append_assoc, ← List.append_assoc]
      exact List.perm_middle.symm
    ignored := by
      have silent := silent number member own.symm
      have ignored := hold.ignored
      rw [lapsing] at ignored
      exact List.forall_mem_cons.mpr ⟨silent, ignored⟩
    ending := by
      rw [told]
      change [Outcome.expired _] = [Outcome.expired _]
      rw [own]
    once := le_rfl
    plain := List.forall_mem_singleton.mpr rfl
    table := by
      change (c.table.eraseP _).map _ = _
      rw [left, List.map_append, List.map_append, named, others]
    handles := by
      intro entry member
      exact lt_of_lt_of_eq (hold.handles entry (staying.subset member)) issued.symm
    owned := by
      intro timed member
      obtain ⟨early, alone⟩ := hold.owned timed (due ▸ Multiset.mem_cons_of_mem member)
      exact ⟨lt_of_lt_of_eq early issued.symm, fun other member => alone other (staying.subset member)⟩ }

/-- The consumer has been told how an interest has ended. -/
theorem Hold.tell {call : Call ExchangeCallback} {work : List (Call ExchangeCallback)}
    (hold : w.Hold o host taken received outcomes c p) (first : c.work = call :: work) :
    Hold o host taken
      { w with
        answered := w.answered ++ w.told
        told := []
        expired := w.expired ++ w.lapsing
        lapsing := [] }
      received (outcomes ++ (Outcome.of? call).toList) { c with work } (mirror p { c with work }) := by
  have once := hold.once
  rw [first] at once
  obtain rfl : work = [] := List.eq_nil_of_length_eq_zero (by simpa using once)
  have ending : (Outcome.of? call).toList =
      w.told.map (o.satisfied host) ++ w.lapsing.map (o.lapsed host) := by
    rw [← hold.ending, first]
    cases ended : Outcome.of? call <;> simp [ended]
  exact { hold with
    across := rfl
    replies := by
      rw [← hold.replies, List.append_assoc]
      rfl
    all := by
      refine List.Perm.trans ?_ hold.all
      simp only [List.append_assoc, List.nil_append]
      refine .append_left _ (.append_left _ ?_)
      rw [← List.append_assoc, ← List.append_assoc]
      exact .append_right _ List.perm_append_comm
    ignored := by
      intro number member
      exact hold.ignored number (by simpa [or_comm] using member)
    ending := rfl
    once := Nat.zero_le _
    plain := List.forall_mem_nil _
    satisfied := by
      rw [List.filter_append, ending, hold.satisfied]
      simp [List.filter_map, Function.comp_def]
    lapsed := by
      rw [List.filter_append, ending, hold.lapsed]
      simp [List.filter_map, Function.comp_def] }

/-- Nothing happens that has to do with an interest. -/
theorem Hold.still {other server : Desk ExchangeCallback}
    (hold : w.Hold o host taken received outcomes c p) (alike : Alike other.host c.host)
    (link : other.link = c.link) (table : other.table = c.table) (calls : other.calls = c.calls)
    (work : other.work = c.work) (theirs : server.work = p.work) (across : server = mirror server other) :
    w.Hold o host taken received outcomes other server := by
  exact { hold with
    drawn := alike.drawn.trans hold.drawn
    link := link.trans hold.link
    across := across
    offered := theirs ▸ hold.offered
    single := theirs ▸ hold.single
    ending := work ▸ hold.ending
    once := work ▸ hold.once
    plain := work ▸ hold.plain
    table := table ▸ hold.table
    handles := by
      rw [table, alike.next]
      exact hold.handles
    owned := by
      rw [table, calls, alike.next]
      exact hold.owned }

/-- The consumer and the producer share the link and the host. -/
theorem Hold.shared (hold : w.Hold o host taken received outcomes c p) :
    p.link = c.link ∧ p.host = c.host := by
  rw [hold.across]
  exact ⟨rfl, rfl⟩

/-- Whatever the producer does with interests and answers, those of the consumer stay where they are. -/
theorem Hold.serve {asked hand replied : List Nat} {reached : Nat}
    (hold : w.Hold o host taken received outcomes c p) (alike : Alike after.host p.host)
    (link : after.link = .carrying .left (asked.map (o.sent host)) (replied.map o.answer))
    (order : List.range reached ++ (hand ++ asked) = List.range taken)
    (replies : w.answered ++ (w.told ++ replied) = (List.range reached).filter o.answers)
    (offered : after.work.filterMap asked? = hand.map (o.sent host)) (single : after.work.length ≤ 1) :
    Hold o host taken { w with asked, hand, replied } reached outcomes (mirror c after) after := by
  rw [hold.shared.2] at alike
  exact { hold with
    drawn := alike.drawn.trans hold.drawn
    link := link
    across := rfl
    order := order
    replies := replies
    offered := offered
    single := single
    handles := fun entry member => lt_of_lt_of_eq (hold.handles entry member) alike.next.symm
    owned := fun entry member =>
      ⟨lt_of_lt_of_eq (hold.owned entry member).1 alike.next.symm, (hold.owned entry member).2⟩ }

/-- The producer has nothing in its hands when it has nothing to do. -/
theorem Hold.free (hold : w.Hold o host taken received outcomes c p) (idle : p.work = []) : w.hand = [] := by
  have offered := hold.offered
  rw [idle] at offered
  exact List.map_eq_nil_iff.mp offered.symm

/-- The producer takes an interest. -/
theorem Hold.take {number : Nat} {rest : List Nat} {entry : FilterEntry ExchangeCallback}
    (hold : w.Hold o host taken received outcomes c p) (idle : p.work = [])
    (next : w.asked = number :: rest) (answers : entry.onInterest = .answer) :
    let after : Desk ExchangeCallback := { p with
      link := .carrying .left (rest.map (o.sent host)) (w.replied.map o.answer)
      work := [.interest entry (o.sent host number)] }
    Hold o host taken { w with asked := rest, hand := [number] } received outcomes
      (mirror c after) after := by
  intro after
  refine hold.serve (.refl _) rfl ?_ hold.replies ?_ le_rfl
  · rw [← hold.order, hold.free idle, next]
    rfl
  · change [Call.interest entry (o.sent host number)].filterMap asked? = _
    simp [asked?, Call.callback, answers]

/-- The interest that is answered next has the number of the answer. -/
theorem Hold.next {number : Nat} {more : List Nat} (hold : w.Hold o host taken received outcomes c p)
    (taking : w.hand = number :: more) : number = received ∧ received < taken := by
  have order := congrArg (·[received]?) hold.order
  simp only [taking, List.cons_append] at order
  rw [List.getElem?_append_right (by simp), List.length_range, Nat.sub_self, List.getElem?_cons_zero] at order
  obtain ⟨early, same⟩ := List.getElem?_eq_some_iff.mp order.symm
  exact ⟨by simpa using same.symm, by simpa using early⟩

/-- What the producer says to the next interest. -/
theorem answer?_sent {x : Exchange} (plan : x.plan = o.plan) :
    x.answer? (o.sent host x.received) =
      if o.answers x.received = true then some (o.answer x.received) else none := by
  rw [answer?, CommandLine.FetchOptions.answers, plan]
  cases o.plan.ignores (x.received + 1) <;> rfl

/-- The producer answers an interest, or does not. -/
theorem Hold.reply {x : Exchange} {call : Call ExchangeCallback} {work : List (Call ExchangeCallback)}
    (hold : w.Hold o host taken x.received outcomes c p) (plan : x.plan = o.plan)
    (fits : ∀ number < taken, o.answers number = true →
      (Packet.data (o.answer number)).toJson.length ≤ config.maxPacketSize.toNat)
    (first : p.work = call :: work) :
    let after : Desk ExchangeCallback := { p with
      link := reply config p.link .right ((asked? call).bind x.answer?)
      work }
    Hold o host taken { w with hand := [], replied := w.replied ++ w.hand.filter o.answers }
      (x.received + (asked? call).toList.length) outcomes (mirror c after) after := by
  intro after
  have single := hold.single
  rw [first] at single
  obtain rfl : work = [] := List.eq_nil_of_length_eq_zero (by simpa using single)
  have link := hold.shared.1.trans hold.link
  have offered : (asked? call).toList = w.hand.map (o.sent host) := by
    rw [← hold.offered, first]
    cases asked : asked? call <;> simp [asked]
  cases taking : w.hand with
  | nil =>
    rw [taking] at offered
    have none : asked? call = none := Option.toList_eq_nil_iff.mp offered
    refine hold.serve (.refl _) ?_ ?_ ?_ rfl (Nat.zero_le _)
    · change Exchange.reply config p.link .right ((asked? call).bind x.answer?) = _
      rw [none, link, List.filter_nil, List.append_nil]
      rfl
    · rw [← hold.order, none, taking]
      rfl
    · rw [none, List.filter_nil, List.append_nil]
      exact hold.replies
  | cons number more =>
    rw [taking] at offered
    obtain ⟨rfl, early⟩ := hold.next taking
    have asked : asked? call = some (o.sent host x.received) ∧ more = [] := by
      cases asked : asked? call with
      | none => simp [asked] at offered
      | some interest => simpa [asked] using offered
    obtain ⟨asked, rfl⟩ := asked
    have counted : List.range (x.received + (asked? call).toList.length) =
        List.range x.received ++ [x.received] := by
      rw [asked]
      exact List.range_succ
    refine hold.serve (.refl _) ?_ ?_ ?_ rfl (Nat.zero_le _)
    · change Exchange.reply config p.link .right ((asked? call).bind x.answer?) = _
      rw [asked, Option.bind_some, answer?_sent plan, link]
      by_cases answers : o.answers x.received = true
      · rw [if_pos answers, Exchange.reply, if_neg (Nat.not_lt.mpr (fits _ early answers)), Link.handed]
        change ((Link.carrying ..).send? Side.left.other _).getD _ = _
        rw [Link.send?_carrying_other]
        simp [answers]
      · rw [if_neg answers]
        simp [answers, Exchange.reply]
    · rw [counted, ← hold.order, taking, List.append_assoc]
      rfl
    · rw [counted, List.filter_append, ← hold.replies]
      simp only [List.append_assoc]

end Whereabouts

end Exchange

end NamedData
