import NamedData.Proofs.Exchange.Delivery

/-!
The answers of a fetch, in the order of the interests.

At every moment of a session the interests are where `Whereabouts` has them, as long as no answer comes too
late (`Session.InTime`, `Delivers.step`). So when the last of them has ended, those that the producer
answers were answered, in their order (`Concluded`).
-/
namespace NamedData.Exchange

variable {o : CommandLine.FetchOptions} {config : FaceConfig} {host : Host} {taken refused : Nat}
variable {s next : Session} {w : Whereabouts} {outcomes : List Outcome}

/-- What a fetch has come to when all of its interests have ended. -/
structure Concluded (o : CommandLine.FetchOptions) (host : Host) (outcomes : List Outcome) : Prop where
  satisfied : outcomes.filter Outcome.isAnswered =
    ((List.range o.count.toNat).filter o.answers).map (o.satisfied host)
  lapsed : (outcomes.filter fun outcome => !outcome.isAnswered).Perm
    (((List.range o.count.toNat).filter fun number => !o.answers number).map (o.lapsed host))

/-- The parts of a list that is made of what has a property and of what has not. -/
theorem perm_filter_of_split {α : Type} {q : α → Bool} {some others whole : List α}
    (parts : (some ++ others).Perm whole) (holds : ∀ a ∈ some, q a = true)
    (fails : ∀ a ∈ others, q a = false) :
    some.Perm (whole.filter q) ∧ others.Perm (whole.filter fun a => !q a) := by
  have none : others.filter q = [] :=
    List.filter_eq_nil_iff.mpr fun a member => by simp [fails a member]
  have all : (some.filter fun a => !q a) = [] :=
    List.filter_eq_nil_iff.mpr fun a member => by simp [holds a member]
  constructor
  · have first := parts.filter q
    rwa [List.filter_append, none, List.append_nil, List.filter_eq_self.mpr holds] at first
  · have second := parts.filter fun a => !q a
    rwa [List.filter_append, all, List.nil_append,
      List.filter_eq_self.mpr fun a member => by simp [fails a member]] at second

/-- When all interests have ended, those that the producer answers were answered, in their order. -/
theorem Whereabouts.Hold.concluded {received : Nat} {c p : Desk ExchangeCallback}
    (hold : w.Hold o host o.count.toNat received outcomes c p)
    (all : outcomes.length = o.count.toNat) : Concluded o host outcomes := by
  have places := hold.all.length_eq
  have ended : outcomes.length = w.answered.length + w.expired.length := by
    rw [List.length_eq_length_filter_add Outcome.isAnswered, hold.satisfied, hold.lapsed]
    simp
  simp only [List.length_append, List.length_range] at places
  have none : w.told = [] ∧ w.lapsing = [] ∧ w.waiting = [] := by
    refine ⟨?_, ?_, ?_⟩ <;> exact List.eq_nil_of_length_eq_zero (by omega)
  obtain ⟨told, lapsing, waiting⟩ := none
  have parts := hold.all
  have replies := hold.replies
  have ignored := hold.ignored
  rw [told, lapsing, waiting] at parts
  rw [told] at replies
  rw [lapsing] at ignored
  simp only [List.nil_append, List.append_nil] at parts replies ignored
  have answers : ∀ number ∈ w.answered, o.answers number = true := by
    intro number member
    have reached : number ∈ (List.range received).filter o.answers :=
      replies ▸ List.mem_append_left _ member
    exact (List.mem_filter.mp reached).2
  obtain ⟨answered, expired⟩ := perm_filter_of_split parts answers ignored
  -- What has been answered was answered in the order in which it was asked for.
  have order : w.answered.Sublist ((List.range o.count.toNat).filter o.answers) := by
    have reached : List.range received <+: List.range o.count.toNat := ⟨_, hold.order⟩
    refine List.Sublist.trans ?_ (reached.sublist.filter o.answers)
    rw [← replies]
    exact List.sublist_append_left ..
  exact {
    satisfied := by rw [hold.satisfied, order.eq_of_length answered.length_eq]
    lapsed := by
      rw [hold.lapsed]
      exact expired.map _ }

/-! ## Sessions -/

/-- The interest whose lifetime is over, when its callback is called. -/
def lapsed? : Event ExchangeCallback → Option Interest
  | .called (.timeout entry _) => some entry.interest
  | _ => none

theorem eq_called_of_lapsed? {event : Event ExchangeCallback} {interest : Interest}
    (lapses : lapsed? event = some interest) :
    ∃ entry onTimeout, event = .called (.timeout entry onTimeout) ∧ entry.interest = interest := by
  rw [lapsed?.eq_def] at lapses
  split at lapses
  · exact ⟨_, _, rfl, Option.some.inj lapses⟩
  · cases lapses

/-- Every answer reaches the consumer in time: when the lifetime of an interest ends that the producer
answers, neither the interest nor its answer is under way any more. `Session.Run.inTime` derives this from
the lifetimes of the interests and the times that the clock shows. -/
def Session.InTime (o : CommandLine.FetchOptions) (host : Host) (stages : List Session.Stage) : Prop :=
  ∀ stage ∈ stages, ∀ event ∈ stage.events, ∀ number < o.count.toNat,
    lapsed? event = some (o.sent host number) → o.answers number = true →
      stage.before.exchange.inTransit (o.interest number).name = false

instance (o : CommandLine.FetchOptions) (host : Host) (stages : List Session.Stage) :
    Decidable (Session.InTime o host stages) :=
  inferInstanceAs (Decidable (∀ stage ∈ stages, ∀ event ∈ stage.events, ∀ number < o.count.toNat,
    lapsed? event = some (o.sent host number) → o.answers number = true →
      stage.before.exchange.inTransit (o.interest number).name = false))

/-- What holds of a fetch at every moment if every answer reaches the consumer in time. -/
structure Delivers (o : CommandLine.FetchOptions) (host : Host) (s : Session) : Prop where
  early : s.progress.late = false →
    (∃ taken w, Whereabouts.Hold o host taken w s.exchange.received s.exchange.outcomes
      (s.exchange.desk .consumer) (s.exchange.desk .producer)) ∧
    Listens o (s.exchange.desk .producer) s.progress
  late : s.progress.late = true → Concluded o host s.exchange.outcomes

theorem Delivers.of_early (early : s.progress.late = false)
    (hold : w.Hold o host taken s.exchange.received s.exchange.outcomes (s.exchange.desk .consumer)
      (s.exchange.desk .producer))
    (listens : Listens o (s.exchange.desk .producer) s.progress) : Delivers o host s where
  early _ := ⟨⟨taken, w, hold⟩, listens⟩
  late late := absurd (early.symm.trans late) Bool.false_ne_true

/-- What the callbacks have seen of outcomes after a deed. -/
theorem Seen.outcomes_after (seen : Seen) (deed : Deed ExchangeCallback) :
    (seen.after deed).outcomes = seen.outcomes ++ (deed.told?.bind Outcome.of?).toList := by
  cases deed with
  | tell call => rfl
  | rest | refuse | count | expire | leave => exact (List.append_nil _).symm

/-- Whatever happens to an exchange that is not a step of a loop only queues commands. -/
theorem Accounts.handed {move : SessionMove} {events : List (Event ExchangeCallback)}
    (accounts : Accounts o config host taken refused s) (step : s.Step move events next) :
    (∃ role, move = .step role) ∨ ∃ role commands, Handed config s.exchange role commands next.exchange := by
  have tidy := accounts.tidy
  cases step with
  | step begun lawful => exact .inl ⟨_, rfl⟩
  | pass later => exact .inr ⟨_, _, handed_setNow tidy _⟩
  | begin resting time begun =>
    have handed := handed_begin tidy begun
    rename_i role exchange
    cases role <;> exact .inr ⟨_, _, handed⟩
  | register first =>
    obtain ⟨id, handed⟩ := handed_register tidy
    exact .inr ⟨_, _, handed⟩
  | express nextOne =>
    have waited := accounts.waited
    rw [nextOne] at waited
    obtain ⟨id, handed⟩ := handed_express tidy (waited _ List.mem_cons_self)
    exact .inr ⟨_, _, handed⟩
  | watch all => exact .inr ⟨_, _, handed_queue tidy .consumer _ rfl⟩
  | ask awaited ended =>
    have first := handed_queue tidy .consumer (.stopWhen none) rfl
    exact .inr ⟨_, _, first.trans (handed_queue first.tidy .consumer _ rfl)⟩
  | leave asked =>
    obtain ⟨commands, -, handed⟩ := handed_shutdown tidy .consumer
    exact .inr ⟨_, _, handed⟩
  | close left ended =>
    obtain ⟨commands, -, handed⟩ := handed_shutdown tidy .producer
    exact .inr ⟨_, _, handed⟩
  | proceed asked done granted => exact .inr ⟨_, _, Handed.refl tidy .producer⟩
  | finish closed ended => exact .inr ⟨_, _, Handed.refl tidy .producer⟩

/-- Outcomes are only ever added. -/
theorem Accounts.outcomes_prefix {move : SessionMove} {events : List (Event ExchangeCallback)}
    (accounts : Accounts o config host taken refused s) (step : s.Step move events next) :
    s.exchange.outcomes <+: next.exchange.outcomes := by
  rcases accounts.handed step with ⟨role, rfl⟩ | ⟨role, commands, handed⟩
  · cases step with
    | @step _ pick begun lawful =>
      obtain ⟨deed, stepped⟩ := Exchange.stepped lawful accounts.tidy role
      have outcomes : (s.exchange.stepBy pick role).1.outcomes = (s.exchange.seen.after deed).outcomes :=
        congrArg Seen.outcomes stepped.seen
      rw [Seen.outcomes_after] at outcomes
      have same : (Session.setTurn { s with exchange := (s.exchange.stepBy pick role).1 } role
          (some (s.exchange.stepBy pick role).2)).exchange = (s.exchange.stepBy pick role).1 := by
        cases role <;> rfl
      rw [same, outcomes]
      exact List.prefix_append ..
  · have outcomes : next.exchange.outcomes = s.exchange.outcomes := congrArg Seen.outcomes handed.seen
    rw [outcomes]

/-- What has ended stays ended. -/
theorem Session.Step.late {move : SessionMove} {events : List (Event ExchangeCallback)}
    (step : s.Step move events next) (late : s.progress.late = true) : next.progress.late = true := by
  cases step with
  | @step role pick begun lawful => cases role <;> exact late
  | @begin role exchange resting time begun => cases role <;> exact late
  | pass later => exact late
  | register first => simp [first, Progress.late] at late
  | proceed asked done granted => simp [asked, Progress.late] at late
  | express nextOne => simp [nextOne, Progress.late] at late
  | watch all => simp [all, Progress.late] at late
  | ask | leave | close | finish => rfl

/-- Nothing changes after the last interest has ended. -/
theorem Concluded.step {move : SessionMove} {events : List (Event ExchangeCallback)}
    (concluded : Concluded o host s.exchange.outcomes) (accounts : Accounts o config host taken refused s)
    (step : s.Step move events next) (late : s.progress.late = true) :
    Concluded o host next.exchange.outcomes := by
  obtain ⟨taken', more⟩ := accounts.step step
  have before := (accounts.tally.complete (accounts.late late)).1
  have after := (more.tally.complete (more.late (step.late late))).1
  have same := (accounts.outcomes_prefix step).eq_of_length (before.trans after.symm)
  rwa [← same]

section early

variable {role : Role} {commands : List (Command ExchangeCallback)} {x after : Exchange} {progress : Progress}

/-- To queue commands moves no interest. -/
theorem Whereabouts.Hold.handed
    (hold : w.Hold o host taken x.received x.outcomes (x.desk .consumer) (x.desk .producer))
    (handed : Handed config x role commands after) :
    w.Hold o host taken after.received after.outcomes (after.desk .consumer) (after.desk .producer) := by
  have received : after.received = x.received := congrArg Seen.received handed.seen
  have outcomes : after.outcomes = x.outcomes := congrArg Seen.outcomes handed.seen
  have across : after.desk .producer = mirror (after.desk .producer) (after.desk .consumer) :=
    handed.tidy.desk_other .consumer
  rw [received, outcomes]
  cases role with
  | consumer =>
    have desk := handed.desk
    have other : after.desk .producer = { x.desk .producer with host := (after.desk .consumer).host } :=
      handed.other
    refine hold.still handed.host ?_ ?_ ?_ ?_ ?_ across
    · rw [desk]
    · rw [desk]
    · rw [desk]
    · rw [desk]
    · rw [other]
  | producer =>
    have desk := handed.desk
    have other : after.desk .consumer = { x.desk .consumer with host := (after.desk .producer).host } :=
      handed.other
    have alike : Alike (after.desk .consumer).host (x.desk .consumer).host := by
      rw [other, ← hold.shared.2]
      exact handed.host
    refine hold.still alike ?_ ?_ ?_ ?_ ?_ across
    · rw [other]
    · rw [other]
    · rw [other]
    · rw [other]
    · rw [desk]

/-- A producer that is handed nothing goes on listening. -/
theorem Listens.handed (listens : Listens o (x.desk .producer) progress)
    (handed : Handed config x role commands after) (none : role = .producer → commands = []) :
    Listens o (after.desk .producer) progress := by
  cases role with
  | consumer =>
    have other : after.desk .producer = { x.desk .producer with host := (after.desk .consumer).host } :=
      handed.other
    exact listens.keep (by rw [other]) (by rw [other])
  | producer =>
    have desk := handed.desk
    rw [none rfl, List.append_nil] at desk
    exact listens.keep (by rw [desk]) (by rw [desk])

end early

/-- How many interests have been taken shows in the nonces that were drawn. -/
theorem Accounts.taken_unique {taken' received : Nat} {p : Desk ExchangeCallback}
    (accounts : Accounts o config host taken refused s)
    (hold : w.Hold o host taken' received outcomes (s.exchange.desk .consumer) p) : taken' = taken :=
  Nat.add_left_cancel (hold.drawn.symm.trans accounts.tally.drawn)

/-- No interest has been taken from the consumer's queue before interests are expressed. -/
theorem Accounts.taken_eq_zero (accounts : Accounts o config host taken refused s)
    (none : s.progress.left o.plan = o.plan.demands) : taken = 0 := by
  have early := accounts.tally.early
  have waiting := congrArg List.length accounts.tally.waiting
  rw [none] at waiting
  simp [CommandLine.FetchOptions.plan] at waiting
  omega

/-- The interests that are on their way to the producer find its filter. -/
theorem Accounts.ready (accounts : Accounts o config host taken refused s) {received : Nat}
    {c p : Desk ExchangeCallback} (hold : w.Hold o host taken received outcomes c p)
    (listens : Listens o p s.progress) (early : s.progress.late = false) (asked : w.asked ≠ []) :
    Ready o p := by
  have begun : taken ≠ 0 := by
    rintro rfl
    obtain ⟨-, none⟩ := List.append_eq_nil_iff.mp hold.order
    exact asked (List.append_eq_nil_iff.mp none).2
  cases progress : s.progress with
  | starting | registering => exact absurd (accounts.taken_eq_zero (by rw [progress]; rfl)) begun
  | expressing | awaiting =>
    rw [progress] at listens
    exact listens
  | counting | leaving | closing | finished =>
    rw [progress] at early
    cases early

/-- A producer that listens has not been told to leave. -/
theorem Listens.stays {side : Side} {d after : Desk ExchangeCallback} {progress : Progress}
    (listens : Listens o d progress) (early : progress.late = false) : ¬ d.Step config side .leave after := by
  intro step
  cases step with
  | shutdown first idle issued =>
    have only : d.queue = [] ∨ ∃ id onFailed options,
        d.queue = [.request (.register id o.root (some .answer) onFailed options)] := by
      cases progress with
      | starting | expressing | awaiting => exact .inl listens.1
      | registering => exact listens.imp And.left And.right
      | counting | leaving | closing | finished => cases early
    rcases only with none | ⟨id, onFailed, options, one⟩
    · cases none.symm.trans first
    · cases one.symm.trans first

/-- A callback of the consumer has sent nothing. -/
theorem Whereabouts.Hold.before {x : Exchange} {received : Nat} {p after : Desk ExchangeCallback}
    {deed : Deed ExchangeCallback} (hold : w.Hold o host taken received outcomes (x.desk .consumer) p)
    (step : (x.before config .consumer deed).Step config .left deed after) :
    x.before config .consumer deed = x.desk .consumer := by
  cases deed with
  | tell call =>
    cases step with
    | tell first =>
      have plain : asked? call = none := hold.plain call (first ▸ List.mem_cons_self)
      rw [Exchange.before, said, plain]
      rfl
  | rest | refuse | count | expire | leave => rfl

/-- A step of the consumer's loop before the last interest has ended. -/
theorem Delivers.consumer {pick : Pick} {deed : Deed ExchangeCallback} {outcome : Exchange × Turn}
    (delivers : Delivers o host s) (accounts : Accounts o config host taken refused s)
    (early : s.progress.late = false)
    (fits : ∀ number < o.count.toNat, config.refuses (o.sent host number) = false)
    (stepped : Stepped config s.exchange pick .consumer deed outcome)
    (inTime : ∀ event ∈ s.exchange.shown pick .consumer, ∀ number < o.count.toNat,
      lapsed? event = some (o.sent host number) → o.answers number = true →
        s.exchange.inTransit (o.interest number).name = false) :
    Delivers o host { s with exchange := outcome.1, consumer := some outcome.2 } := by
  obtain ⟨⟨taken', w, hold⟩, listens⟩ := delivers.early early
  obtain rfl := accounts.taken_unique hold
  have step := stepped.step
  rw [hold.before step] at step
  have stays : deed ≠ .leave := by
    rintro rfl
    exact Bool.false_ne_true (early.symm.trans (accounts.closes.late_of_leave step))
  have silent : ∀ entry, deed = .expire entry → ∀ number ∈ w.waiting,
      entry.interest = o.sent host number → o.answers number = false := by
    intro entry expires number waits same
    obtain ⟨onTimeout, told⟩ := stepped.expires entry expires
    by_contra answers
    have answers := eq_true_of_ne_false answers
    have asked : number < taken' := List.mem_range.mp (hold.all.mem_iff.mp (by simp [waits]))
    have arrived := inTime _ told number (asked.trans_le accounts.tally.early) (congrArg some same) answers
    exact Bool.false_ne_true (arrived.symm.trans (hold.inTransit (hold.underWay waits answers)))
  have other : outcome.1.desk .producer = mirror (s.exchange.desk .producer) (outcome.1.desk .consumer) :=
    stepped.other
  obtain ⟨taken', w', moved⟩ := hold.consumer (s := s.exchange.seen) accounts.tally fits step stays silent
  rw [← other, ← stepped.seen] at moved
  exact .of_early early moved (listens.keep (by rw [other]; rfl) (by rw [other]; rfl))

/-- A step of the producer's loop before the last interest has ended. -/
theorem Delivers.producer {pick : Pick} {deed : Deed ExchangeCallback} {outcome : Exchange × Turn}
    (delivers : Delivers o host s) (accounts : Accounts o config host taken refused s)
    (early : s.progress.late = false)
    (fits : ∀ number < o.count.toNat, o.answers number = true →
      (Packet.data (o.answer number)).toJson.length ≤ config.maxPacketSize.toNat)
    (stepped : Stepped config s.exchange pick .producer deed outcome) :
    Delivers o host { s with exchange := outcome.1, producer := some outcome.2 } := by
  obtain ⟨⟨taken', w, hold⟩, listens⟩ := delivers.early early
  obtain rfl := accounts.taken_unique hold
  obtain ⟨link, before⟩ := s.exchange.before_eq config .producer deed
  have listening : Listens o (s.exchange.before config .producer deed) s.progress :=
    listens.keep (by rw [before]) (by rw [before])
  have stays : deed ≠ .leave := by
    rintro rfl
    exact listening.stays early stepped.step
  have other : outcome.1.desk .consumer = mirror (s.exchange.desk .consumer) (outcome.1.desk .producer) :=
    stepped.other
  obtain ⟨w', moved⟩ := hold.producer accounts.plan accounts.serves (accounts.ready hold listens early)
    (fun number asked => fits number (asked.trans_le accounts.tally.early)) stepped.step stays
  rw [← other, ← stepped.seen] at moved
  exact .of_early early moved (listening.step stepped.step)

/-- Commands are queued before the last interest has ended. -/
theorem Delivers.handed {role : Role} {commands : List (Command ExchangeCallback)}
    (delivers : Delivers o host s) (early : s.progress.late = false) (still : next.progress.late = false)
    (handed : Handed config s.exchange role commands next.exchange)
    (listens : Listens o (next.exchange.desk .producer) next.progress) : Delivers o host next := by
  obtain ⟨⟨taken, w, hold⟩, -⟩ := delivers.early early
  exact .of_early still (hold.handed handed) listens

/-- The last interest has ended. -/
theorem Delivers.ask {role : Role} {commands : List (Command ExchangeCallback)} {after : Exchange}
    {exit : LoopExit} (delivers : Delivers o host s) (accounts : Accounts o config host taken refused s)
    (awaited : s.progress = .awaiting) (ended : s.consumer = some (.exited exit))
    (handed : Handed config s.exchange role commands after) : Concluded o host after.outcomes := by
  obtain ⟨⟨taken', w, hold⟩, -⟩ := delivers.early (by rw [awaited]; rfl)
  obtain rfl := accounts.taken_unique hold
  obtain ⟨all, -, -, rfl⟩ := accounts.tally.complete (accounts.ended exit ended).1
  have outcomes : after.outcomes = s.exchange.outcomes := congrArg Seen.outcomes handed.seen
  rw [outcomes]
  exact hold.concluded all

/-- **Whatever happens, the interests are where they belong.** -/
theorem Delivers.step {move : SessionMove} {events : List (Event ExchangeCallback)}
    (delivers : Delivers o host s) (accounts : Accounts o config host taken refused s)
    (fits : ∀ number < o.count.toNat, config.refuses (o.sent host number) = false)
    (answersFit : ∀ number < o.count.toNat, o.answers number = true →
      (Packet.data (o.answer number)).toJson.length ≤ config.maxPacketSize.toNat)
    (inTime : ∀ event ∈ events, ∀ number < o.count.toNat,
      lapsed? event = some (o.sent host number) → o.answers number = true →
        s.exchange.inTransit (o.interest number).name = false)
    (step : s.Step move events next) : Delivers o host next := by
  cases early : s.progress.late with
  | true =>
    exact {
      early := fun none => absurd (none.symm.trans (step.late early)) Bool.false_ne_true
      late := fun _ => (delivers.late early).step accounts step early }
  | false =>
    obtain ⟨-, listens⟩ := delivers.early early
    have tidy := accounts.tidy
    cases step with
    | @step role pick begun lawful =>
      obtain ⟨deed, stepped⟩ := Exchange.stepped lawful tidy role
      cases role with
      | consumer => exact delivers.consumer accounts early fits stepped inTime
      | producer => exact delivers.producer accounts early answersFit stepped
    | @pass now later =>
      have handed := handed_setNow tidy now
      exact delivers.handed early early handed (listens.handed handed nofun)
    | @begin role exchange resting time begun =>
      have handed := handed_begin tidy begun
      cases role <;> exact delivers.handed early early handed (listens.handed handed fun _ => rfl)
    | register first =>
      obtain ⟨id, handed⟩ := handed_register tidy
      rw [first] at listens
      refine delivers.handed early rfl handed (.inr ?_)
      have desk := handed.desk
      rw [desk, listens.1, accounts.plan]
      exact ⟨listens.2, id, _, _, rfl⟩
    | proceed asked done granted =>
      rw [asked] at listens
      refine delivers.handed early rfl (Handed.refl tidy .producer) ?_
      rcases listens with ready | ⟨-, id, onFailed, options, only⟩
      · exact ready
      · cases only.symm.trans done
    | express first =>
      have waited := accounts.waited
      rw [first] at waited listens
      obtain ⟨id, handed⟩ := handed_express tidy (waited _ List.mem_cons_self)
      exact delivers.handed early rfl handed (listens.handed handed nofun)
    | watch all =>
      have handed := handed_queue tidy .consumer (.stopWhen (some .finished)) rfl
      rw [all] at listens
      exact delivers.handed early rfl handed (listens.handed handed nofun)
    | ask awaited ended =>
      have first := handed_queue tidy .consumer (.stopWhen none) rfl
      have handed := first.trans (handed_queue first.tidy .consumer (.countPending (some 0)) rfl)
      exact ⟨nofun, fun _ => delivers.ask accounts awaited ended handed⟩
    | leave asked =>
      rw [asked] at early
      cases early
    | close left ended =>
      rw [left] at early
      cases early
    | finish closed ended =>
      rw [closed] at early
      cases early

/-! ## Runs -/

/-- A fetch that has not been begun has no interests. -/
theorem Delivers.open? {start : Session} (opened : Session.open? o.plan config host = some start) :
    Delivers o host start := by
  obtain ⟨x, started, rfl⟩ := Option.map_eq_some_iff.mp opened
  obtain ⟨tidy, seen, desks⟩ := tidy_start? started
  have outcomes : x.outcomes = [] := congrArg Seen.outcomes seen
  have received : x.received = 0 := congrArg Seen.received seen
  refine ⟨fun _ => ⟨⟨0, ⟨[], [], [], [], [], [], [], []⟩, ?_⟩, ?_⟩, nofun⟩
  · rw [desks, desks, outcomes, received]
    exact {
      drawn := rfl
      link := (Link.carrying_nil .left).symm
      across := rfl
      order := rfl
      replies := rfl
      all := .refl _
      ignored := List.forall_mem_nil _
      offered := rfl
      single := Nat.zero_le _
      ending := rfl
      once := Nat.zero_le _
      plain := List.forall_mem_nil _
      satisfied := rfl
      lapsed := rfl
      table := rfl
      handles := List.forall_mem_nil _
      owned := fun entry member => absurd member (Multiset.notMem_zero _) }
  · rw [desks]
    exact ⟨rfl, rfl⟩

/-- The interests are where they belong in the course of every run in which no answer comes too late. -/
theorem Session.Run.delivers {start : Session} {stages : List Session.Stage}
    (opened : Session.open? o.plan config host = some start) (run : start.Run stages s)
    (fits : ∀ number < o.count.toNat, config.refuses (o.sent host number) = false)
    (answersFit : ∀ number < o.count.toNat, o.answers number = true →
      (Packet.data (o.answer number)).toJson.length ≤ config.maxPacketSize.toNat)
    (inTime : Session.InTime o host stages) : Delivers o host s := by
  revert inTime
  apply run.invariant
  · intro _
    exact Delivers.open? opened
  · intro past stage earlier step delivers inTime
    obtain ⟨taken, accounts⟩ := Session.Run.accounts opened earlier
    have before := delivers fun stage member => inTime stage (List.mem_append_left _ member)
    exact before.step accounts fits answersFit
      (inTime stage (List.mem_append_right _ (List.mem_singleton_self stage))) step

end NamedData.Exchange
