import NamedData.Fetch
import NamedData.Proofs.Exchange.Desks

/-!
What becomes of the interests of a fetch, counted at the consumer.

Of the interests that have been taken from the queue some were refused because they are too long; each of
the others waits in the table, or has ended, or a callback is about to be told how it has ended
(`Tally.step`).
-/
namespace NamedData

/-- The interest of some number as it is sent, with the nonce that a host draws for it. -/
def CommandLine.FetchOptions.sent (o : CommandLine.FetchOptions) (host : Host) (number : Nat) : Interest :=
  { o.interest number with nonce := some (host.nonces (host.noncesDrawn + number)) }

/-- Whether an interest is too long to be sent. -/
def FaceConfig.refuses (config : FaceConfig) (interest : Interest) : Bool :=
  decide (config.maxPacketSize.toNat < (Packet.interest interest).toJson.length)

/-- Numbered interests are completed with the nonces in their order. -/
theorem CommandLine.FetchOptions.completed (o : CommandLine.FetchOptions) (config : FaceConfig)
    {host drawn : Host} {number : Nat} (nonces : drawn.nonces = host.nonces)
    (before : drawn.noncesDrawn = host.noncesDrawn + number) :
    (o.interest number).completed config drawn =
      (o.sent host number, .ofMillis o.lifetimeMillis,
        { drawn with noncesDrawn := drawn.noncesDrawn + 1 }) := by
  simp only [Interest.completed, interest, sent, Host.drawNonce, nonces, before, Option.getD_some]

namespace Exchange

/-- Whether a callback is told how an interest has ended. -/
def resolves (call : Call ExchangeCallback) : Bool := (Outcome.of? call).isSome

/-- The interest that a command is to express. -/
def wanted? : Command ExchangeCallback → Option Interest
  | .request (.express _ interest _ _) => some interest
  | _ => none

/-- The commands of a face that fetches. -/
def fetches : Command ExchangeCallback → Bool
  | .request (.express _ _ .delivered (some .expired)) | .stopWhen _ | .countPending _ | .shutdown => true
  | _ => false

/-- What is to become of the interests of a fetch: so many have been taken from the queue, so many of these
were refused and so many have ended, and these have still to be queued. -/
structure Tally (o : CommandLine.FetchOptions) (config : FaceConfig) (host : Host)
    (taken refused ended : Nat) (left : List Interest) (d : Desk ExchangeCallback) : Prop where
  early : taken ≤ o.count.toNat
  waiting : d.queue.filterMap wanted? ++ left = ((List.range o.count.toNat).drop taken).map o.interest
  known : ∀ command ∈ d.queue, fetches command = true
  nonces : d.host.nonces = host.nonces
  drawn : d.host.noncesDrawn = host.noncesDrawn + taken
  filters : d.filters = []
  table : ∀ entry ∈ d.table, entry.onData = .delivered
  calls : ∀ call ∈ d.calls, ∃ entry, call = .timeout entry ∧ entry.onTimeout = some .expired
  sum : ended + d.work.countP resolves + d.table.length + refused = taken
  long : refused = (List.range taken).countP fun number => config.refuses (o.sent host number)

variable {o : CommandLine.FetchOptions} {config : FaceConfig} {host : Host} {side : Side}
variable {taken refused ended : Nat} {left : List Interest} {d after : Desk ExchangeCallback}

/-- How many interests have ended with a deed. -/
def endings (deed : Deed ExchangeCallback) : Nat := (deed.told?.bind Outcome.of?).toList.length

/-- The next interest that is taken from the queue. -/
theorem Tally.next {interest : Interest} {rest : List (Command ExchangeCallback)} {id : EntryId}
    {onData : ExchangeCallback} {onTimeout : Option ExchangeCallback}
    (tally : Tally o config host taken refused ended left d)
    (first : d.queue = .request (.express id interest onData onTimeout) :: rest) :
    taken < o.count.toNat ∧ interest = o.interest taken ∧
      rest.filterMap wanted? ++ left = ((List.range o.count.toNat).drop (taken + 1)).map o.interest := by
  have waiting := tally.waiting
  rw [first, List.filterMap_cons_some (f := wanted?) rfl, List.cons_append] at waiting
  have some : taken < o.count.toNat := by
    by_contra late
    rw [List.drop_of_length_le (by simpa using late)] at waiting
    cases waiting
  rw [List.drop_eq_getElem_cons (by simpa using some), List.map_cons, List.getElem_range] at waiting
  obtain ⟨named, others⟩ := List.cons.inj waiting
  exact ⟨some, named, others⟩

/-- A command that is not to express an interest is taken from the queue. -/
theorem Tally.skip {command : Command ExchangeCallback} {rest : List (Command ExchangeCallback)}
    (tally : Tally o config host taken refused ended left d) (first : d.queue = command :: rest)
    (other : wanted? command = none) :
    rest.filterMap wanted? ++ left = ((List.range o.count.toNat).drop taken).map o.interest ∧
      ∀ command ∈ rest, fetches command = true := by
  have waiting := tally.waiting
  have known := tally.known
  rw [first] at waiting known
  rw [List.filterMap_cons_none other] at waiting
  exact ⟨waiting, (List.forall_mem_cons.mp known).2⟩

/-- Commands are queued. -/
theorem Tally.hand {commands : List (Command ExchangeCallback)} {rest : List Interest} {other : Host}
    (tally : Tally o config host taken refused ended left d) (alike : Alike other d.host)
    (known : ∀ command ∈ commands, fetches command = true)
    (split : left = commands.filterMap wanted? ++ rest) :
    Tally o config host taken refused ended rest { d with queue := d.queue ++ commands, host := other } :=
  { tally with
    waiting := by
      rw [List.filterMap_append, List.append_assoc, ← split]
      exact tally.waiting
    known := by
      intro command member
      rcases List.mem_append.mp member with old | new
      · exact tally.known command old
      · exact known command new
    nonces := alike.nonces.trans tally.nonces
    drawn := alike.drawn.trans tally.drawn }

/-- The callbacks of an interest that is fetched. -/
theorem callbacks_of_fetches {id : EntryId} {interest : Interest} {onData : ExchangeCallback}
    {onTimeout : Option ExchangeCallback}
    (known : fetches (.request (.express id interest onData onTimeout)) = true) :
    onData = .delivered ∧ onTimeout = some .expired := by
  rw [fetches.eq_def] at known
  split at known
  · next same =>
    cases same
    exact ⟨rfl, rfl⟩
  · next same => cases same
  · next same => cases same
  · next same => cases same
  · cases known

/-- One more interest that was taken is refused or not. -/
theorem countP_range_succ (p : Nat → Bool) (n : Nat) :
    (List.range (n + 1)).countP p = (List.range n).countP p + if p n then 1 else 0 := by
  rw [List.range_succ, List.countP_append, List.countP_singleton]

section taken

variable {id : EntryId} {interest : Interest} {onData : ExchangeCallback}
variable {onTimeout : Option ExchangeCallback} {queue : List (Command ExchangeCallback)}

/-- An interest that is too long is taken from the queue. -/
theorem Tally.refuse (tally : Tally o config host taken refused ended left d)
    (first : d.queue = .request (.express id interest onData onTimeout) :: queue)
    (long : config.refuses (interest.completed config d.host).1 = true) :
    Tally o config host (taken + 1) (refused + 1) ended left
      { d with queue, host := (interest.completed config d.host).2.2 } := by
  obtain ⟨early, rfl, waiting⟩ := tally.next first
  rw [o.completed config tally.nonces tally.drawn] at long ⊢
  exact { tally with
    early := early
    waiting := waiting
    known := fun command member => tally.known command (first ▸ List.mem_cons_of_mem _ member)
    drawn := congrArg (· + 1) tally.drawn
    sum := congrArg (· + 1) tally.sum
    long := by
      rw [countP_range_succ, ← tally.long, if_pos long] }

/-- An interest that can be sent is taken from the queue, and is kept in the table. -/
theorem Tally.express {link : Link} (tally : Tally o config host taken refused ended left d)
    (first : d.queue = .request (.express id interest onData onTimeout) :: queue)
    (fits : config.refuses (interest.completed config d.host).1 = false)
    {entry : PendingInterest ExchangeCallback} {next : Host}
    (entry_eq : entry = ⟨d.host.marks.next, id, (interest.completed config d.host).1, onData, onTimeout⟩)
    (host_eq : next = { (interest.completed config d.host).2.2 with marks := d.host.marks.issue }) :
    Tally o config host (taken + 1) refused ended left
      { d with queue, link, host := next, table := d.table ++ [entry], calls := d.calls + {.timeout entry} } := by
  obtain ⟨early, rfl, waiting⟩ := tally.next first
  rw [o.completed config tally.nonces tally.drawn] at fits host_eq
  obtain ⟨rfl, rfl⟩ := callbacks_of_fetches (tally.known _ (first ▸ List.mem_cons_self))
  have sum := tally.sum
  exact { tally with
    early := early
    waiting := waiting
    known := fun command member => tally.known command (first ▸ List.mem_cons_of_mem _ member)
    nonces := by
      rw [host_eq]
      exact tally.nonces
    drawn := by
      rw [host_eq]
      exact congrArg (· + 1) tally.drawn
    table := by
      intro other member
      rcases List.mem_append.mp member with old | new
      · exact tally.table other old
      · rw [List.mem_singleton.mp new, entry_eq]
    calls := by
      intro call member
      rcases Multiset.mem_add.mp member with old | new
      · exact tally.calls call old
      · exact ⟨entry, Multiset.mem_singleton.mp new, by rw [entry_eq]⟩
    sum := by
      change ended + d.work.countP resolves + (d.table ++ [entry]).length + refused = taken + 1
      rw [List.length_append, List.length_singleton]
      omega
    long := by
      rw [countP_range_succ, ← tally.long, fits]
      rfl }

end taken

/-- A data is read: each entry that it matches leaves the table, and its callback is to be told. -/
theorem Tally.read {link : Link} {data : Data} {marks : Marks}
    (tally : Tally o config host taken refused ended left d) (idle : d.work = []) :
    Tally o config host taken refused ended left
      { d with
        link
        table := d.table.filter fun entry => !entry.interest.matchesName data.name
        work := (d.table.filter fun entry => entry.interest.matchesName data.name).reverse.map
          fun entry => .data entry data
        host := { d.host with marks } } := by
  let matched := d.table.filter fun entry => entry.interest.matchesName data.name
  let staying := d.table.filter fun entry => !entry.interest.matchesName data.name
  have told : (matched.reverse.map fun entry => Call.data entry data).countP resolves = matched.length := by
    rw [List.countP_map, ← List.length_reverse, List.countP_eq_length]
    intro entry member
    have delivered := tally.table entry (List.mem_filter.mp (List.mem_reverse.mp member)).1
    simp [resolves, Outcome.of?, Call.callback, delivered]
  have parts : d.table.length = matched.length + staying.length := List.length_eq_length_filter_add _
  have sum := tally.sum
  rw [idle, List.countP_nil, parts] at sum
  refine { tally with table := ?_, sum := ?_ }
  · exact fun entry member => tally.table entry (List.mem_filter.mp member).1
  · change ended + (matched.reverse.map _).countP resolves + staying.length + refused = taken
    rw [told, ← sum]
    omega

/-- A timeout is due: its entry leaves the table, and its callback is to be told. -/
theorem Tally.expire {entry : PendingInterest ExchangeCallback}
    {calls : Multiset (NodeCall ExchangeCallback)} {onTimeout : ExchangeCallback} {marks : Marks}
    (tally : Tally o config host taken refused ended left d) (idle : d.work = [])
    (due : d.calls = .timeout entry ::ₘ calls) (own : entry.onTimeout = some onTimeout)
    (waits : ∃ other ∈ d.table, other.handle = entry.handle) :
    Tally o config host taken refused ended left
      { d with
        calls
        table := d.table.eraseP fun other => other.handle == entry.handle
        work := [.timeout entry onTimeout]
        host := { d.host with marks } } := by
  obtain ⟨_, same, expired⟩ := tally.calls _ (due ▸ Multiset.mem_cons_self ..)
  cases same
  cases own.symm.trans expired
  obtain ⟨other, member, same⟩ := waits
  have shorter := List.length_eraseP_of_mem (p := fun other : PendingInterest ExchangeCallback =>
    other.handle == entry.handle) member (beq_iff_eq.mpr same)
  have some := List.length_pos_of_mem member
  have told : [Call.timeout entry ExchangeCallback.expired].countP resolves = 1 := rfl
  have sum := tally.sum
  rw [idle, List.countP_nil] at sum
  refine { tally with table := ?_, calls := ?_, sum := ?_ }
  · exact fun entry member => tally.table entry (List.mem_of_mem_eraseP member)
  · exact fun call member => tally.calls call (due ▸ Multiset.mem_cons_of_mem member)
  · rw [told, shorter, ← sum]
    omega

/-- **Each interest that was taken from the queue is accounted for.** -/
theorem Tally.step {deed : Deed ExchangeCallback} (tally : Tally o config host taken refused ended left d)
    (step : d.Step config side deed after) (kept : deed = .leave → d.table = []) :
    ∃ taken', Tally o config host taken' (refused + deed.refusals) (ended + endings deed) left after := by
  have sum := tally.sum
  cases step with
  | rest => exact ⟨taken, tally⟩
  | poll quiet idle =>
    refine ⟨taken, { tally with sum := ?_ }⟩
    simpa [idle, resolves, Outcome.of?, endings, Deed.refusals, Deed.told?] using sum
  | @skip command queue first other =>
    have silent : wanted? command = none := by
      cases command with
      | request => cases other
      | stopWhen | callLater | countPending | flush | shutdown => rfl
    obtain ⟨waiting, known⟩ := tally.skip first silent
    exact ⟨taken, { tally with waiting, known }⟩
  | count first =>
    obtain ⟨waiting, known⟩ := tally.skip first rfl
    exact ⟨taken, { tally with waiting, known }⟩
  | refuse first long => exact ⟨taken + 1, tally.refuse first (decide_eq_true long)⟩
  | express first fits entry_eq host_eq =>
    exact ⟨taken + 1, tally.express first (decide_eq_false (Nat.not_lt.mpr fits)) entry_eq host_eq⟩
  | register first => cases tally.known _ (first ▸ List.mem_cons_self)
  | shutdown first idle issued =>
    obtain ⟨waiting, known⟩ := tally.skip first rfl
    refine ⟨taken, { tally with waiting, known, filters := rfl, table := by simp, sum := ?_ }⟩
    simpa [kept rfl, endings, Deed.told?, Deed.refusals] using sum
  | look nothing => exact ⟨taken, { tally with }⟩
  | read idle arrived decoded issued => exact ⟨taken, tally.read idle⟩
  | take idle arrived decoded =>
    refine ⟨taken, { tally with sum := ?_ }⟩
    simpa [idle, tally.filters, endings, Deed.told?, Deed.refusals] using sum
  | lapse due =>
    exact ⟨taken, { tally with
      calls := fun call member => tally.calls call (due ▸ Multiset.mem_cons_of_mem member) }⟩
  | expire idle due own waits issued => exact ⟨taken, tally.expire idle due own waits⟩
  | @tell call work first =>
    refine ⟨taken, { tally with sum := ?_ }⟩
    rw [first, List.countP_cons] at sum
    cases ended : Outcome.of? call <;>
      simp [endings, Deed.told?, Deed.refusals, resolves, ended] at sum ⊢ <;> omega

end Exchange

end NamedData
