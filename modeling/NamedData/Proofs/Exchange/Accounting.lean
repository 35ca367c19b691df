import NamedData.Proofs.Exchange.Closing
import NamedData.Proofs.Exchange.Tally

/-!
What a fetch comes to.
-/
namespace NamedData.Exchange

/-- What holds of a fetch at every moment. So many interests have been taken from the consumer's queue,
and so many of these were refused because they are too long. -/
structure Accounts (o : CommandLine.FetchOptions) (config : FaceConfig) (host : Host)
    (taken refused : Nat) (s : Session) : Prop where
  tidy : s.exchange.Tidy config
  plan : s.exchange.plan = o.plan
  serves : Serves (s.exchange.desk .producer)
  waited : ∀ demand ∈ s.progress.left o.plan, demand.cancelled = false
  tally : Tally o config host taken refused s.exchange.outcomes.length
    ((s.progress.left o.plan).map (·.interest)) (s.exchange.desk .consumer)
  closes : Closes s.progress s.exchange.stillPending (s.exchange.desk .consumer)
  late : s.progress.late = true → o.count.toNat ≤ s.exchange.outcomes.length
  ended : ∀ exit, s.consumer = some (.exited exit) → o.count.toNat ≤ s.exchange.outcomes.length ∧
    (s.exchange.desk .consumer).work.countP polls = 0 ∧
    (s.progress.late = true → true ∉ settling (s.exchange.desk .consumer).queue)
  told : s.progress.closed = true → s.exchange.stillPending = some 0

variable {o : CommandLine.FetchOptions} {config : FaceConfig} {host : Host} {taken refused : Nat}
variable {s : Session}

/-- So many interests are waited for as are asked for. -/
theorem awaited_plan (o : CommandLine.FetchOptions) : o.plan.awaited = o.count.toNat := by
  rw [Plan.awaited, CommandLine.FetchOptions.plan, List.countP_map, List.countP_eq_length.mpr]
  · exact List.length_range
  · exact fun _ _ => rfl

/-- When as many interests have ended as are asked for nothing waits any more. -/
theorem Tally.complete {ended : Nat} {left : List Interest} {d : Desk ExchangeCallback}
    (tally : Tally o config host taken refused ended left d) (all : o.count.toNat ≤ ended) :
    ended = o.count.toNat ∧ d.table = [] ∧ refused = 0 ∧ taken = o.count.toNat := by
  have sum := tally.sum
  have early := tally.early
  refine ⟨by omega, List.eq_nil_of_length_eq_zero (by omega), by omega, by omega⟩

/-- What has been seen of outcomes only grows. -/
theorem Seen.length_outcomes_after (s : Seen) (deed : Deed ExchangeCallback) :
    (s.after deed).outcomes.length = s.outcomes.length + endings deed := by
  cases deed with
  | tell call => simp [Seen.after, Seen.tell, endings, Deed.told?]
  | rest | refuse | count | expire | leave => rfl

/-- A step of the consumer's loop. -/
theorem Accounts.consumer {pick : Pick} {outcome : Exchange × Turn} {deed : Deed ExchangeCallback}
    (accounts : Accounts o config host taken refused s)
    (stepped : Stepped config s.exchange pick .consumer deed outcome) :
    ∃ taken', Accounts o config host taken' (refused + deed.refusals)
      { s with exchange := outcome.1, consumer := some outcome.2 } := by
  obtain ⟨link, before⟩ := s.exchange.before_eq config .consumer deed
  have step := stepped.step
  rw [before] at step
  have empty (late : s.progress.late = true) : (s.exchange.desk .consumer).table = [] :=
    (accounts.tally.complete (accounts.late late)).2.1
  have outcomes : outcome.1.outcomes.length = s.exchange.outcomes.length + endings deed :=
    (congrArg (·.outcomes.length) stepped.seen).trans (Seen.length_outcomes_after ..)
  have still : outcome.1.stillPending = (s.exchange.seen.after deed).stillPending :=
    congrArg Seen.stillPending stepped.seen
  have tally : Tally o config host taken refused s.exchange.outcomes.length
      ((s.progress.left o.plan).map (·.interest)) { s.exchange.desk .consumer with link } :=
    { accounts.tally with }
  have closes : Closes s.progress s.exchange.seen.stillPending { s.exchange.desk .consumer with link } :=
    { accounts.closes with }
  obtain ⟨taken', more⟩ := tally.step step fun leaves =>
    empty (closes.late_of_leave (leaves ▸ step))
  have other : outcome.1.desk .producer = { s.exchange.desk .producer with
    link := (outcome.1.desk .consumer).link, host := (outcome.1.desk .consumer).host } := stepped.other
  have later (late : s.progress.late = true) : o.count.toNat ≤ outcome.1.outcomes.length := by
    rw [outcomes]
    exact (accounts.late late).trans (Nat.le_add_right ..)
  refine ⟨taken', ?_⟩
  exact {
    tidy := stepped.tidy
    plan := ((congrArg Seen.plan stepped.seen).trans (Seen.plan_after ..)).trans accounts.plan
    serves := by
      rw [other]
      exact { accounts.serves with }
    waited := accounts.waited
    tally := by
      rw [outcomes]
      exact more
    closes := by
      rw [still]
      exact closes.step step empty
    late := later
    ended := by
      intro exit ended
      obtain ⟨ends, stops⟩ := stepped.ends exit (Option.some.inj ended)
      refine ⟨?_, closes.of_ends step ends⟩
      cases ends with
      | leave => exact later (closes.late_of_leave step)
      | stop predicate index =>
        have finished := stops rfl
        rw [isFinished, accounts.plan, awaited_plan, decide_eq_true_iff] at finished
        rw [outcomes]
        exact finished.trans (Nat.le_add_right ..)
    told := fun closed => by
      rw [still]
      exact (closes.step step empty).told (accounts.told closed) }

/-- A step of the producer's loop. -/
theorem Accounts.producer {pick : Pick} {outcome : Exchange × Turn} {deed : Deed ExchangeCallback}
    (accounts : Accounts o config host taken refused s)
    (stepped : Stepped config s.exchange pick .producer deed outcome) :
    Accounts o config host taken (refused + deed.refusals)
      { s with exchange := outcome.1, producer := some outcome.2 } := by
  obtain ⟨link, before⟩ := s.exchange.before_eq config .producer deed
  have step := stepped.step
  rw [before] at step
  have serving : Serves { s.exchange.desk .producer with link } := { accounts.serves with }
  obtain ⟨serves, alike, unseen⟩ := serving.step step
  have other : outcome.1.desk .consumer = { s.exchange.desk .consumer with
    link := (outcome.1.desk .producer).link, host := (outcome.1.desk .producer).host } := stepped.other
  have outcomes : outcome.1.outcomes = s.exchange.outcomes :=
    (congrArg Seen.outcomes stepped.seen).trans (unseen.seen _).1
  have still : outcome.1.stillPending = s.exchange.stillPending :=
    (congrArg Seen.stillPending stepped.seen).trans (unseen.seen _).2
  have host : Alike (outcome.1.desk .producer).host (s.exchange.desk .consumer).host := by
    have same : (s.exchange.desk .producer).host = (s.exchange.desk .consumer).host :=
      accounts.tidy.host.symm
    change Alike _ (s.exchange.desk .producer).host at alike
    rwa [same] at alike
  rw [unseen.refusals]
  exact {
    tidy := stepped.tidy
    plan := ((congrArg Seen.plan stepped.seen).trans (Seen.plan_after ..)).trans accounts.plan
    serves := serves
    waited := accounts.waited
    tally := by
      rw [outcomes, other]
      exact { accounts.tally with
        nonces := host.nonces.trans accounts.tally.nonces
        drawn := host.drawn.trans accounts.tally.drawn }
    closes := by
      rw [still, other]
      exact { accounts.closes with }
    late := by
      rw [outcomes]
      exact accounts.late
    ended := by
      rw [outcomes, other]
      exact accounts.ended
    told := by
      rw [still]
      exact accounts.told }

variable {after : Exchange} {commands : List (Command ExchangeCallback)}

/-- Commands are queued at the consumer. -/
theorem Accounts.hand_consumer {p : Progress} {turn : Option Turn}
    (accounts : Accounts o config host taken refused s)
    (handed : Handed config s.exchange .consumer commands after)
    (known : ∀ command ∈ commands, fetches command = true)
    (split : (s.progress.left o.plan).map (·.interest) =
      commands.filterMap wanted? ++ (p.left o.plan).map (·.interest))
    (waited : p.left o.plan ⊆ s.progress.left o.plan)
    (closes : Closes p s.exchange.stillPending { s.exchange.desk .consumer with
      queue := (s.exchange.desk .consumer).queue ++ commands, host := (after.desk .consumer).host })
    (late : p.late = true → o.count.toNat ≤ s.exchange.outcomes.length)
    (ended : ∀ exit, turn = some (.exited exit) → o.count.toNat ≤ s.exchange.outcomes.length ∧
      (s.exchange.desk .consumer).work.countP polls = 0 ∧
      (p.late = true → true ∉ settling ((s.exchange.desk .consumer).queue ++ commands)))
    (told : p.closed = true → s.exchange.stillPending = some 0) :
    Accounts o config host taken refused { s with exchange := after, progress := p, consumer := turn } := by
  have outcomes : after.outcomes = s.exchange.outcomes := congrArg Seen.outcomes handed.seen
  have still : after.stillPending = s.exchange.stillPending := congrArg Seen.stillPending handed.seen
  have other : after.desk .producer = { s.exchange.desk .producer with
    host := (after.desk .consumer).host } := handed.other
  exact {
    tidy := handed.tidy
    plan := (congrArg Seen.plan handed.seen).trans accounts.plan
    serves := by
      rw [other]
      exact { accounts.serves with }
    waited := fun demand member => accounts.waited demand (waited member)
    tally := by
      rw [outcomes, handed.desk]
      exact accounts.tally.hand handed.host known split
    closes := by
      rw [still, handed.desk]
      exact closes
    late := by rwa [outcomes]
    ended := by
      rw [outcomes, handed.desk]
      exact ended
    told := by rwa [still] }

/-- Commands are queued at the producer. -/
theorem Accounts.hand_producer {p : Progress} {turn : Option Turn}
    (accounts : Accounts o config host taken refused s)
    (handed : Handed config s.exchange .producer commands after)
    (known : ∀ command ∈ commands, forServer command = true)
    (left : p.left o.plan = s.progress.left o.plan) (late : p.late = s.progress.late)
    (goesOn : p.settling = s.progress.settling)
    (told : p.closed = true → s.exchange.stillPending = some 0) :
    Accounts o config host taken refused { s with exchange := after, progress := p, producer := turn } := by
  have outcomes : after.outcomes = s.exchange.outcomes := congrArg Seen.outcomes handed.seen
  have still : after.stillPending = s.exchange.stillPending := congrArg Seen.stillPending handed.seen
  have other : after.desk .consumer = { s.exchange.desk .consumer with
    host := (after.desk .producer).host } := handed.other
  have alike : Alike (after.desk .producer).host (s.exchange.desk .consumer).host := by
    have same : (s.exchange.desk .producer).host = (s.exchange.desk .consumer).host :=
      accounts.tidy.host.symm
    rw [← same]
    exact handed.host
  exact {
    tidy := handed.tidy
    plan := (congrArg Seen.plan handed.seen).trans accounts.plan
    serves := by
      rw [handed.desk]
      refine { accounts.serves with queue := ?_ }
      intro command member
      rcases List.mem_append.mp member with old | new
      · exact accounts.serves.queue command old
      · exact known command new
    waited := fun demand member => accounts.waited demand (left ▸ member)
    tally := by
      rw [outcomes, other, left]
      exact { accounts.tally with
        nonces := alike.nonces.trans accounts.tally.nonces
        drawn := alike.drawn.trans accounts.tally.drawn }
    closes := by
      rw [still, other]
      have closes := accounts.closes
      exact ⟨goesOn ▸ closes.order, closes.once, fun some after => closes.unasked some (late ▸ after),
        fun after => closes.asked (late ▸ after), closes.counted⟩
    late := by
      rw [outcomes, late]
      exact accounts.late
    ended := by
      rw [outcomes, other, late]
      exact accounts.ended
    told := by rwa [still] }

/-- Nothing is queued, and the run of the consumer's loop goes on or has not begun. -/
theorem Accounts.still {turn : Option Turn} (accounts : Accounts o config host taken refused s)
    (handed : Handed config s.exchange .consumer [] after)
    (same : ∀ exit, turn = some (.exited exit) → s.consumer = some (.exited exit)) :
    Accounts o config host taken refused { s with exchange := after, consumer := turn } := by
  refine accounts.hand_consumer handed (List.forall_mem_nil _) rfl (List.Subset.refl _) ?_ accounts.late ?_
    accounts.told
  · exact accounts.closes.hand rfl rfl (List.Sublist.refl _)
  · intro exit ended
    rw [List.append_nil]
    exact accounts.ended exit (same exit ended)

/-- The next interest is queued. -/
theorem Accounts.express {demand : Demand} {left : List Demand}
    (accounts : Accounts o config host taken refused s) (next : s.progress = .expressing (demand :: left)) :
    Accounts o config host taken refused
      { s with exchange := (s.exchange.express demand).2, progress := .expressing left } := by
  have waited := accounts.waited
  have closes := accounts.closes
  have ended := accounts.ended
  rw [next] at waited closes ended
  obtain ⟨id, handed⟩ := handed_express accounts.tidy (waited demand List.mem_cons_self)
  refine accounts.hand_consumer handed ?_ ?_ ?_ ?_ nofun ?_ nofun
  · exact List.forall_mem_singleton.mpr rfl
  · rw [next]
    rfl
  · rw [next]
    exact List.subset_cons_self ..
  · exact closes.hand rfl rfl (List.Sublist.refl _)
  · intro exit exited
    obtain ⟨all, idle, -⟩ := ended exit exited
    exact ⟨all, idle, nofun⟩

/-- Every interest is queued, and the consumer is to stop when as many have ended. -/
theorem Accounts.watch (accounts : Accounts o config host taken refused s)
    (all : s.progress = .expressing []) :
    Accounts o config host taken refused
      { s with
        exchange := s.exchange.queue .consumer (.stopWhen (some .finished))
        progress := .awaiting } := by
  have handed := handed_queue accounts.tidy .consumer (.stopWhen (some .finished)) rfl
  have closes := accounts.closes
  rw [all] at closes
  refine accounts.hand_consumer handed ?_ ?_ ?_ ?_ nofun ?_ nofun
  · exact List.forall_mem_singleton.mpr rfl
  · rw [all]
    rfl
  · exact List.nil_subset _
  · exact closes.hand rfl rfl (List.Sublist.refl _)
  · intro exit exited
    obtain ⟨all, idle, -⟩ := accounts.ended exit exited
    exact ⟨all, idle, nofun⟩

/-- The consumer has stopped, and is asked how many interests still wait. -/
theorem Accounts.ask {exit : LoopExit} (accounts : Accounts o config host taken refused s)
    (awaited : s.progress = .awaiting) (ended : s.consumer = some (.exited exit)) :
    Accounts o config host taken refused
      { s with
        exchange := (s.exchange.queue .consumer (.stopWhen none)).queue .consumer (.countPending (some 0))
        progress := .counting
        consumer := none } := by
  have first := handed_queue accounts.tidy .consumer (.stopWhen none) rfl
  have handed := first.trans (handed_queue first.tidy .consumer (.countPending (some 0)) rfl)
  obtain ⟨all, idle, -⟩ := accounts.ended exit ended
  have closes := accounts.closes
  rw [awaited] at closes
  refine accounts.hand_consumer handed ?_ ?_ ?_ ?_ (fun _ => all) nofun nofun
  · simp [fetches]
  · rw [awaited]
    rfl
  · exact List.nil_subset _
  · exact closes.ask idle

/-- The consumer is told to leave, if it has not left already. -/
theorem Accounts.leave (accounts : Accounts o config host taken refused s) (asked : s.progress = .counting) :
    Accounts o config host taken refused
      { s with exchange := s.exchange.shutdown .consumer, progress := .leaving } := by
  obtain ⟨commands, part, handed⟩ := handed_shutdown accounts.tidy .consumer
  have closes := accounts.closes
  have late := accounts.late (by rw [asked]; rfl)
  rw [asked] at closes
  have unanswered (exit : LoopExit) (exited : s.consumer = some (.exited exit)) :
      true ∉ settling (s.exchange.desk .consumer).queue :=
    (accounts.ended exit exited).2.2 (by rw [asked]; rfl)
  rcases part with rfl | rfl
  · refine accounts.hand_consumer handed (List.forall_mem_nil _) ?_ (List.nil_subset _) ?_
      (fun _ => late) ?_ nofun
    · rw [asked]
      rfl
    · exact closes.hand rfl rfl (by decide)
    · intro exit exited
      rw [List.append_nil]
      exact ⟨late, (accounts.ended exit exited).2.1, fun _ => unanswered exit exited⟩
  · refine accounts.hand_consumer handed ?_ ?_ (List.nil_subset _) closes.leave (fun _ => late) ?_ nofun
    · exact List.forall_mem_singleton.mpr rfl
    · rw [asked]
      rfl
    · intro exit exited
      refine ⟨late, (accounts.ended exit exited).2.1, fun _ member => ?_⟩
      rw [settling, List.filterMap_append] at member
      exact unanswered exit exited (by simpa [settles?, settling] using member)

/-- The consumer has left, and the producer is told to leave. -/
theorem Accounts.close {exit : LoopExit} (accounts : Accounts o config host taken refused s)
    (left : s.progress = .leaving) (ended : s.consumer = some (.exited exit)) :
    Accounts o config host taken refused
      { s with exchange := s.exchange.shutdown .producer, progress := .closing } := by
  obtain ⟨commands, part, handed⟩ := handed_shutdown accounts.tidy .producer
  have late : s.progress.late = true := by rw [left]; rfl
  have told : s.exchange.stillPending = some 0 :=
    (accounts.closes.asked late).resolve_left ((accounts.ended _ ended).2.2 late)
  refine accounts.hand_producer handed ?_ ?_ ?_ ?_ fun _ => told
  · rcases part with rfl | rfl
    · exact List.forall_mem_nil _
    · exact List.forall_mem_singleton.mpr rfl
  · rw [left]
    rfl
  · rw [left]
    rfl
  · rw [left]
    rfl

/-- **Whatever happens, the accounts are kept.** -/
theorem Accounts.step {move : SessionMove} {events : List (Event ExchangeCallback)} {next : Session}
    (accounts : Accounts o config host taken refused s) (step : s.Step move events next) :
    ∃ taken', Accounts o config host taken' (refused + refusals events) next := by
  cases step with
  | @step role pick begun lawful =>
    obtain ⟨deed, stepped⟩ := Exchange.stepped lawful accounts.tidy role
    rw [stepped.refusals]
    cases role with
    | consumer => exact accounts.consumer stepped
    | producer => exact ⟨taken, accounts.producer stepped⟩
  | @pass now later =>
    exact ⟨taken, accounts.still (handed_setNow accounts.tidy now) fun _ ended => ended⟩
  | @begin role exchange resting time begun =>
    have handed := handed_begin accounts.tidy begun
    cases role with
    | consumer => exact ⟨taken, accounts.still handed nofun⟩
    | producer =>
      exact ⟨taken, accounts.hand_producer handed (List.forall_mem_nil _) rfl rfl rfl accounts.told⟩
  | register first =>
    obtain ⟨id, handed⟩ := handed_register accounts.tidy
    refine ⟨taken, accounts.hand_producer handed ?_ ?_ ?_ ?_ nofun⟩
    · exact List.forall_mem_singleton.mpr rfl
    · rw [first]
      rfl
    · rw [first]
      rfl
    · rw [first]
      rfl
  | proceed asked done granted =>
    have handed := Handed.refl accounts.tidy .producer
    refine ⟨taken, accounts.hand_producer handed (List.forall_mem_nil _) ?_ ?_ ?_ nofun⟩
    · rw [asked, accounts.plan]
      rfl
    · rw [asked]
      rfl
    · rw [asked]
      rfl
  | express next => exact ⟨taken, accounts.express next⟩
  | watch all => exact ⟨taken, accounts.watch all⟩
  | ask awaited ended => exact ⟨taken, accounts.ask awaited ended⟩
  | leave asked => exact ⟨taken, accounts.leave asked⟩
  | close left ended => exact ⟨taken, accounts.close left ended⟩
  | finish closed ended =>
    have handed := Handed.refl accounts.tidy .producer
    have told := accounts.told (by rw [closed]; rfl)
    refine ⟨taken, accounts.hand_producer handed (List.forall_mem_nil _) ?_ ?_ ?_ fun _ => told⟩
    · rw [closed]
      rfl
    · rw [closed]
      rfl
    · rw [closed]
      rfl

/-! ## Runs -/

/-- A fetch that has not been begun owes nothing. -/
theorem Accounts.open? {start : Session} (opened : Session.open? o.plan config host = some start) :
    Accounts o config host 0 0 start := by
  obtain ⟨x, started, rfl⟩ := Option.map_eq_some_iff.mp opened
  obtain ⟨tidy, seen, desks⟩ := tidy_start? started
  have outcomes : x.outcomes = [] := congrArg Seen.outcomes seen
  have still : x.stillPending = none := congrArg Seen.stillPending seen
  exact {
    tidy := tidy
    plan := congrArg Seen.plan seen
    serves := by
      rw [desks]
      exact ⟨List.forall_mem_nil _, rfl, rfl, List.forall_mem_nil _⟩
    waited := by
      intro demand member
      obtain ⟨number, -, rfl⟩ := List.mem_map.mp member
      rfl
    tally := by
      rw [desks, outcomes]
      exact {
        early := Nat.zero_le _
        waiting := by
          simp [Progress.left, CommandLine.FetchOptions.plan, Function.comp_def]
        known := List.forall_mem_nil _
        nonces := rfl
        drawn := rfl
        filters := rfl
        table := List.forall_mem_nil _
        calls := fun call member => absurd member (Multiset.notMem_zero call)
        sum := rfl
        long := rfl }
    closes := by
      rw [desks, still]
      exact ⟨List.Sublist.refl _, Nat.zero_le _, nofun, nofun, nofun⟩
    late := nofun
    ended := nofun
    told := nofun }

variable {start : Session} {stages : List Session.Stage}

/-- The accounts are kept in the course of every run. -/
theorem Session.Run.accounts (opened : Session.open? o.plan config host = some start)
    (run : start.Run stages s) :
    ∃ taken, Accounts o config host taken (refusals (Stage.seen stages)) s := by
  apply run.invariant
  · exact ⟨0, Accounts.open? opened⟩
  · rintro past stage - step ⟨taken, accounts⟩
    rw [Stage.seen_concat, refusals, List.countP_append]
    exact accounts.step step

end NamedData.Exchange
