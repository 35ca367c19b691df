import NamedData.Proofs.Exchange.Desks

/-!
How an exchange comes to its end.

The producer's desk holds nothing that has to do with how interests end (`Serves.step`). At the consumer,
the question what is still pending stays in front of the shutdown, and neither a run that the predicate
stops nor one that is shut down passes the question over (`Closes.step`, `Closes.of_ends`).
-/
namespace NamedData.Exchange

variable {config : FaceConfig} {side : Side} {d after : Desk ExchangeCallback} {deed : Deed ExchangeCallback}

/-- No interest ends with a poll. -/
theorem Outcome.of?_poll (predicate : ExchangeCallback) (index : Nat) :
    Outcome.of? (.poll predicate index) = none := by cases predicate <;> rfl

/-- No interest ends with one that has arrived. -/
theorem Outcome.of?_interest (entry : FilterEntry ExchangeCallback) (interest : Interest) :
    Outcome.of? (.interest entry interest) = none := by
  cases own : entry.onInterest <;> simp [Outcome.of?, Call.callback, own]

/-! ## The producer -/

/-- The commands of a face that serves. -/
def forServer : Command ExchangeCallback → Bool
  | .request (.register ..) | .shutdown => true
  | _ => false

/-- The desk of a face that serves. -/
structure Serves (d : Desk ExchangeCallback) : Prop where
  queue : ∀ command ∈ d.queue, forServer command = true
  table : d.table = []
  calls : d.calls = 0
  work : ∀ call ∈ d.work, Outcome.of? call = none

/-- What a face that serves does changes nothing that the consumer has seen. -/
structure Unseen (deed : Deed ExchangeCallback) : Prop where
  refusals : deed.refusals = 0
  seen : ∀ s : Seen, (s.after deed).outcomes = s.outcomes ∧ (s.after deed).stillPending = s.stillPending

/-- A face that serves goes on serving. -/
theorem Serves.step (serving : Serves d) (step : d.Step config side deed after) :
    Serves after ∧ Alike after.host d.host ∧ Unseen deed := by
  have unseen : Unseen (.rest : Deed ExchangeCallback) := ⟨rfl, fun _ => ⟨rfl, rfl⟩⟩
  have later {command : Command ExchangeCallback} {rest : List (Command ExchangeCallback)}
      (first : d.queue = command :: rest) :
      forServer command = true ∧ ∀ other ∈ rest, forServer other = true :=
    List.forall_mem_cons.mp (first ▸ serving.queue)
  cases step with
  | rest => exact ⟨serving, .refl _, unseen⟩
  | poll quiet idle =>
    refine ⟨{ serving with work := ?_ }, .refl _, unseen⟩
    intro call member
    rw [List.mem_singleton.mp member, Outcome.of?_poll]
  | @skip command rest first other =>
    have known := (later first).1
    cases command with
    | stopWhen | flush => cases known
    | request | callLater | countPending | shutdown => cases other
  | count first => cases (later first).1
  | refuse first long => cases (later first).1
  | express first fits entry_eq host_eq => cases (later first).1
  | register first => exact ⟨{ serving with queue := (later first).2 }, ⟨rfl, rfl, rfl⟩, unseen⟩
  | shutdown first idle issued =>
    exact ⟨{ serving with queue := (later first).2, table := rfl }, ⟨rfl, rfl, issued⟩,
      rfl, fun _ => ⟨rfl, rfl⟩⟩
  | look nothing => exact ⟨{ serving with }, .refl _, unseen⟩
  | read idle arrived decoded issued =>
    refine ⟨{ serving with table := ?_, work := ?_ }, ⟨rfl, rfl, issued⟩, unseen⟩
    · rw [serving.table]
      rfl
    · rw [serving.table]
      exact List.forall_mem_nil _
  | take idle arrived decoded =>
    refine ⟨{ serving with work := ?_ }, .refl _, unseen⟩
    intro call member
    obtain ⟨entry, -, rfl⟩ := List.mem_map.mp member
    exact Outcome.of?_interest entry _
  | lapse due | expire idle due own waits issued =>
    rw [serving.calls] at due
    exact absurd due.symm (Multiset.cons_ne_zero)
  | @tell call work first =>
    have told := List.forall_mem_cons.mp (first ▸ serving.work)
    refine ⟨{ serving with work := told.2 }, .refl _, rfl, fun s => ⟨?_, rfl⟩⟩
    simp [Seen.after, Seen.tell, told.1]

/-! ## The consumer -/

/-- Whether a call is a poll of the stop predicate. -/
def polls : Call ExchangeCallback → Bool
  | .poll .. => true
  | _ => false

/-- Whether a command asks what is pending (`true`) or shuts the face down (`false`). -/
def settles? : Command ExchangeCallback → Option Bool
  | .countPending _ => some true
  | .shutdown => some false
  | _ => none

/-- The commands with which a fetch closes, as far as they are queued. -/
def settling (queue : List (Command ExchangeCallback)) : List Bool := queue.filterMap settles?

/-- The commands with which a fetch has closed that has come so far. -/
def Progress.settling : Progress → List Bool
  | .starting | .registering | .expressing _ | .awaiting => []
  | .counting => [true]
  | .leaving | .closing | .finished => [true, false]

/-- Whether the second run of the consumer's loop has ended. -/
def Progress.closed : Progress → Bool
  | .closing | .finished => true
  | _ => false

/-- The consumer is asked what is pending only after its first run. -/
theorem Progress.late_of_settling {p : Progress} {asks : Bool} (member : asks ∈ p.settling) :
    p.late = true := by
  cases p <;> first | rfl | cases member

/-- What closes a fetch, at the consumer: the answer to the question what is pending has come or is still
to come, and a poll that is under way was begun when it had come. -/
structure Closes (p : Progress) (still : Option Nat) (d : Desk ExchangeCallback) : Prop where
  order : (settling d.queue).Sublist p.settling
  once : d.work.countP polls ≤ 1
  unasked : 0 < d.work.countP polls → p.late = true → true ∉ settling d.queue
  asked : p.late = true → true ∈ settling d.queue ∨ still = some 0
  counted : ∀ pending, still = some pending → pending = 0

variable {p : Progress} {still : Option Nat} {s : Seen}

/-- A command is taken from the queue that has nothing to do with the end. -/
theorem settling_of_skip {command : Command ExchangeCallback} {queue rest : List (Command ExchangeCallback)}
    (first : queue = command :: rest) (other : settles? command = none) : settling rest = settling queue := by
  rw [first, settling, settling, List.filterMap_cons_none other]

/-- A command is taken from the queue that belongs to the end. -/
theorem settling_of_taken {command : Command ExchangeCallback} {queue rest : List (Command ExchangeCallback)}
    {asks : Bool} (first : queue = command :: rest) (is : settles? command = some asks) :
    settling queue = asks :: settling rest := by
  rw [first, settling, settling, List.filterMap_cons_some is]

/-- Work that has nothing to do with the end is done. -/
theorem Closes.keep (closes : Closes p still d) (queue : settling after.queue = settling d.queue)
    (work : after.work.countP polls ≤ d.work.countP polls) : Closes p still after where
  order := queue ▸ closes.order
  once := work.trans closes.once
  unasked some := queue ▸ closes.unasked (some.trans_le work)
  asked := queue ▸ closes.asked
  counted := closes.counted

/-- **The question what is pending stays in front of the shutdown.** -/
theorem Closes.step (closes : Closes p s.stillPending d) (step : d.Step config side deed after)
    (none : p.late = true → d.table = []) : Closes p (s.after deed).stillPending after := by
  cases step with
  | rest | look nothing | lapse due => exact closes.keep rfl le_rfl
  | poll quiet idle =>
    exact { closes with
      once := le_rfl
      unasked := by
        intro _ _
        rw [quiet]
        exact List.not_mem_nil }
  | @skip command rest first other =>
    refine closes.keep (settling_of_skip first ?_) le_rfl
    cases command with
    | stopWhen | flush => rfl
    | request | callLater | countPending | shutdown => cases other
  | refuse first long => exact closes.keep (settling_of_skip first rfl) le_rfl
  | express first fits entry_eq host_eq => exact closes.keep (settling_of_skip first rfl) le_rfl
  | register first => exact closes.keep (settling_of_skip first rfl) le_rfl
  | count first =>
    have taken := settling_of_taken first rfl
    have asked : true ∈ settling d.queue := taken ▸ List.mem_cons_self
    have late := Progress.late_of_settling (closes.order.subset asked)
    have zero : d.table.length = 0 := by rw [none late]; rfl
    have order := closes.order
    rw [taken] at order
    exact {
      order := (List.sublist_cons_self ..).trans order
      once := closes.once
      unasked := fun some late => absurd asked (closes.unasked some late)
      asked := fun _ => .inr (congrArg _ zero)
      counted := by
        rintro pending ⟨⟩
        exact zero }
  | shutdown first idle issued =>
    have taken := settling_of_taken first rfl
    have order := closes.order
    have asked := closes.asked
    have unasked := closes.unasked
    rw [taken] at order asked unasked
    exact {
      order := (List.sublist_cons_self ..).trans order
      once := closes.once
      unasked := fun some late member => unasked some late (List.mem_cons_of_mem _ member)
      asked := fun late => (asked late).imp_left fun member => by simpa using member
      counted := closes.counted }
  | read idle arrived decoded issued =>
    refine closes.keep rfl (le_of_eq_of_le (List.countP_eq_zero.mpr ?_) (Nat.zero_le _))
    intro call member
    obtain ⟨entry, -, rfl⟩ := List.mem_map.mp member
    exact Bool.false_ne_true
  | take idle arrived decoded =>
    refine closes.keep rfl (le_of_eq_of_le (List.countP_eq_zero.mpr ?_) (Nat.zero_le _))
    intro call member
    obtain ⟨entry, -, rfl⟩ := List.mem_map.mp member
    exact Bool.false_ne_true
  | expire idle due own waits issued => exact closes.keep rfl (Nat.zero_le _)
  | @tell call work first =>
    refine closes.keep rfl ?_
    rw [first]
    exact (List.sublist_cons_self ..).countP_le

/-- Commands are queued that have nothing to do with the end. -/
theorem Closes.hand {later : Progress} {commands : List (Command ExchangeCallback)} {host : Host}
    (closes : Closes p still d) (others : settling commands = []) (late : later.late = p.late)
    (goesOn : p.settling.Sublist later.settling) :
    Closes later still { d with queue := d.queue ++ commands, host } := by
  have same : settling (d.queue ++ commands) = settling d.queue := by
    rw [settling, List.filterMap_append]
    exact (congrArg _ others).trans (List.append_nil _)
  exact {
    order := same ▸ closes.order.trans goesOn
    once := closes.once
    unasked := fun some after => same ▸ closes.unasked some (late ▸ after)
    asked := fun after => same ▸ closes.asked (late ▸ after)
    counted := closes.counted }

/-- The consumer is asked what is pending. -/
theorem Closes.ask {host : Host} (closes : Closes .awaiting still d) (idle : d.work.countP polls = 0) :
    Closes .counting still
      { d with queue := d.queue ++ [.stopWhen none, .countPending (some 0)], host } := by
  have same : settling (d.queue ++ [.stopWhen none, .countPending (some 0)]) = [true] := by
    rw [settling, List.filterMap_append]
    exact congrArg (· ++ [true]) (List.eq_nil_of_sublist_nil closes.order)
  exact {
    order := same ▸ List.Sublist.refl _
    once := closes.once
    unasked := fun some => absurd some (by simp [idle])
    asked := fun _ => .inl (same ▸ List.mem_cons_self)
    counted := closes.counted }

/-- The consumer is shut down. -/
theorem Closes.leave {host : Host} (closes : Closes .counting still d) :
    Closes .leaving still { d with queue := d.queue ++ [.shutdown], host } := by
  have same : settling (d.queue ++ [.shutdown]) = settling d.queue ++ [false] := by
    rw [settling, List.filterMap_append]
    rfl
  exact {
    order := same ▸ closes.order.append (List.Sublist.refl [false])
    once := closes.once
    unasked := fun some _ => by simpa [same] using closes.unasked some rfl
    asked := fun _ => by simpa [same] using closes.asked rfl
    counted := closes.counted }

/-- An answer that was right is not replaced by a wrong one. -/
theorem Closes.told {deed : Deed ExchangeCallback} (closes : Closes p (s.after deed).stillPending after)
    (told : s.stillPending = some 0) : (s.after deed).stillPending = some 0 := by
  cases deed with
  | count pending => exact congrArg some (closes.counted pending rfl)
  | rest | refuse | expire | leave | tell => exact told

/-- The consumer is shut down only after its first run. -/
theorem Closes.late_of_leave (closes : Closes p still d) (step : d.Step config side .leave after) :
    p.late = true := by
  cases step with
  | shutdown first idle issued =>
    have head : false ∈ settling d.queue := settling_of_taken first rfl ▸ List.mem_cons_self
    exact Progress.late_of_settling (closes.order.subset head)

/-- **When a run of the consumer ends nothing is under way, and a question that was asked is answered.** -/
theorem Closes.of_ends {exit : LoopExit} (closes : Closes p still d) (step : d.Step config side deed after)
    (ends : deed.Ends exit) :
    after.work.countP polls = 0 ∧ (p.late = true → true ∉ settling after.queue) := by
  cases ends with
  | leave =>
    cases step with
    | shutdown first idle issued =>
      refine ⟨by rw [idle]; rfl, fun _ member => ?_⟩
      have order := closes.order
      rw [settling_of_taken first rfl] at order
      -- The question would stand behind the shutdown.
      have behind : [false, true].Sublist p.settling :=
        ((List.singleton_sublist.mpr member).cons_cons false).trans order
      cases p with
      | expressing left => cases behind
      | starting | registering | awaiting | counting | leaving | closing | finished =>
        exact absurd behind (by decide)
  | stop predicate index =>
    cases step with
    | tell first =>
      have once := closes.once
      have unasked := closes.unasked
      rw [first, List.countP_cons] at once unasked
      simp only [polls, if_true] at once unasked
      exact ⟨by simpa using once, fun late => unasked (Nat.succ_pos _) late⟩

/-- The first run of the consumer ends only with a poll. -/
theorem Closes.polled_of_ends {exit : LoopExit} (closes : Closes p still d)
    (step : d.Step config side deed after) (ends : deed.Ends exit) (early : p.late = false) :
    0 < d.work.countP polls := by
  cases ends with
  | leave => exact absurd (closes.late_of_leave step) (by simp [early])
  | stop predicate index =>
    cases step with
    | tell first =>
      rw [first]
      exact List.countP_pos_iff.mpr ⟨_, List.mem_cons_self, rfl⟩

/-- The stop predicate is not polled while a command waits. -/
theorem unpolled_of_step (step : d.Step config side deed after) (waits : d.queue ≠ [])
    (none : d.work.countP polls = 0) : after.work.countP polls = 0 := by
  cases step with
  | rest | look nothing | lapse due | skip first other | refuse first long
  | express first fits entry_eq host_eq | register first | count first | shutdown first idle issued => exact none
  | poll quiet idle => exact absurd quiet waits
  | read idle arrived decoded issued =>
    refine List.countP_eq_zero.mpr fun call member => ?_
    obtain ⟨entry, -, rfl⟩ := List.mem_map.mp member
    exact Bool.false_ne_true
  | take idle arrived decoded =>
    refine List.countP_eq_zero.mpr fun call member => ?_
    obtain ⟨entry, -, rfl⟩ := List.mem_map.mp member
    exact Bool.false_ne_true
  | expire idle due own waits issued => rfl
  | @tell call work first =>
    rw [first] at none
    exact Nat.le_zero.mp (none ▸ (List.sublist_cons_self ..).countP_le)

end NamedData.Exchange
