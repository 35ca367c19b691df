import NamedData.Proofs.Exchange.Arranged

/-!
The summary of a fetch.

At every moment of every session the interests that were expressed have been satisfied, or have timed out,
or are pending, or are on their way to a callback, or were refused because they are too long; so a fetch
with an interest that is too long does not end (`every_fetched_interest_is_accounted_for`).
-/
namespace NamedData

namespace Exchange

/-- Whether an interest was answered. -/
def Outcome.isAnswered : Outcome → Bool
  | .answered .. => true
  | .expired _ => false

/-- What has come of the interests so far. -/
def summary (x : Exchange) : FetchSummary where
  expressed := x.plan.demands.length
  satisfied := x.outcomes.countP Outcome.isAnswered
  timedOut := x.outcomes.countP fun outcome => !outcome.isAnswered
  stillPending := x.stillPending.getD 0

/-- The number of interests that have left the table and of which a callback has still to be told. -/
def underWay (x : Exchange) : Nat :=
  (x.consumer.engine.frames.flatMap Frame.work).countP resolves

/-- Whether every command to express an interest has run. -/
def Session.AllTaken (s : Session) : Prop :=
  s.progress.left s.exchange.plan = [] ∧
    ∀ command ∈ s.exchange.consumer.channel.queue, wanted? command = none

instance (s : Session) : Decidable s.AllTaken :=
  inferInstanceAs (Decidable (s.progress.left s.exchange.plan = [] ∧
    ∀ command ∈ s.exchange.consumer.channel.queue, wanted? command = none))

variable {o : CommandLine.FetchOptions} {config : FaceConfig} {host : Host} {taken refused : Nat}
variable {s : Session}

/-- Every interest that has ended was answered or timed out. -/
theorem satisfied_add_timedOut (x : Exchange) :
    x.summary.satisfied + x.summary.timedOut = x.outcomes.length := by
  rw [List.length_eq_countP_add_countP Outcome.isAnswered]
  simp [summary]

theorem Report.answered_eq (r : Report) : r.answered = r.outcomes.countP Outcome.isAnswered :=
  congrArg (List.countP · _) (funext fun outcome => by cases outcome <;> rfl)

theorem Report.expired_eq (r : Report) : r.expired = r.outcomes.countP fun outcome => !outcome.isAnswered :=
  congrArg (List.countP · _) (funext fun outcome => by cases outcome <;> rfl)

/-- When every command to express an interest has run, all interests are accounted for. -/
theorem Accounts.taken_eq (accounts : Accounts o config host taken refused s) (all : s.AllTaken) :
    taken = o.count.toNat := by
  have waiting := accounts.tally.waiting
  have none : (s.exchange.desk .consumer).queue.filterMap wanted? = [] :=
    List.filterMap_eq_nil_iff.mpr all.2
  have left := all.1
  rw [accounts.plan] at left
  rw [none, left] at waiting
  have early := accounts.tally.early
  have lengths := congrArg List.length waiting
  simp at lengths
  omega

/-- No interest that was taken from the queue was too long, if none was refused. -/
theorem Accounts.refuses_eq_false (accounts : Accounts o config host taken 0 s) {number : Nat}
    (early : number < taken) : config.refuses (o.sent host number) = false := by
  have none := List.countP_eq_zero.mp accounts.tally.long.symm
  simpa using none number (List.mem_range.mpr early)

/-- The accounts of a fetch whose consumer's first run has ended. -/
theorem Accounts.complete (accounts : Accounts o config host taken refused s)
    (late : s.progress.late = true) :
    s.exchange.summary.satisfied + s.exchange.summary.timedOut = o.count.toNat ∧
      s.exchange.summary.stillPending = 0 ∧
      ∀ number < o.count.toNat, config.refuses (o.sent host number) = false := by
  obtain ⟨ended, -, rfl, rfl⟩ := accounts.tally.complete (accounts.late late)
  refine ⟨(satisfied_add_timedOut _).trans ended, ?_, fun number early => accounts.refuses_eq_false early⟩
  cases still : s.exchange.stillPending with
  | none => rw [summary, still]; rfl
  | some pending =>
    rw [summary, still, accounts.closes.counted pending still]
    rfl

/-- **What a fetch reports is what a session comes to.** -/
theorem session_of_fetch {fuel : Nat} {lines : List String} {summary : FetchSummary}
    (fetched : fetch fuel o config host = .ok (lines, summary)) :
    ∃ (start s : Session) (stages : List Session.Stage), Session.open? o.plan config host = some start ∧
      start.Run stages s ∧ s.progress = .finished ∧ lines = s.exchange.outcomes.map (·.line) ∧
      summary = s.exchange.summary := by
  rw [fetch] at fetched
  split at fetched
  · cases fetched
  · next report ran =>
    cases fetched
    obtain ⟨start, s, stages, opened, run, finished, outcomes, still⟩ := session_of_run ran
    obtain ⟨taken, accounts⟩ := Session.Run.accounts opened run
    refine ⟨start, s, stages, opened, run, finished, by rw [outcomes], ?_⟩
    rw [Report.answered_eq, Report.expired_eq, outcomes, still, Exchange.summary, accounts.plan]
    simp [CommandLine.FetchOptions.plan]

/-- Interests that are too long are refused, so that not all can end. -/
theorem Accounts.unfinished (accounts : Accounts o config host taken refused s) {number : Nat}
    (asked : number < o.count.toNat) (long : config.refuses (o.sent host number) = true) :
    s.exchange.isFinished = false := by
  have sum := accounts.tally.sum
  have early := accounts.tally.early
  rw [isFinished, accounts.plan, awaited_plan, decide_eq_false_iff_not, Nat.not_le]
  rcases Nat.lt_or_ge number taken with before | later
  · have some : 0 < refused := by
      rw [accounts.tally.long]
      exact List.countP_pos_iff.mpr ⟨number, List.mem_range.mpr before, long⟩
    omega
  · omega

end Exchange

open Exchange

/-- **The interests of a fetch are accounted for.** A fetch that comes to its end has expressed as many
interests as it was asked for, each was satisfied or timed out, and none is pending. In every session, from
the time when the commands to express them have run, the interests have been satisfied, or have timed out,
or are pending, or are under way to a callback, or were refused because they are too long; and none is
under way when the node is at rest. And if only one of them is too long the stop predicate never holds. -/
theorem every_fetched_interest_is_accounted_for (o : CommandLine.FetchOptions) (config : FaceConfig)
    (host : Host) :
    (∀ fuel lines summary, fetch fuel o config host = .ok (lines, summary) →
      summary.expressed = o.count.toNat ∧ summary.satisfied + summary.timedOut = o.count.toNat ∧
        summary.stillPending = 0 ∧
        ∀ number < o.count.toNat, config.refuses (o.sent host number) = false) ∧
    ∀ (start s : Session) (stages : List Session.Stage),
      Session.open? o.plan config host = some start → start.Run stages s →
      (s.progress = .finished →
        s.exchange.summary.expressed = o.count.toNat ∧
        s.exchange.summary.satisfied + s.exchange.summary.timedOut = o.count.toNat ∧
        s.exchange.stillPending = some 0) ∧
      (s.AllTaken →
        s.exchange.summary.satisfied + s.exchange.summary.timedOut +
          s.exchange.consumer.engine.node.pending.size + s.exchange.underWay +
          refusals (Stage.seen stages) = o.count.toNat) ∧
      (s.exchange.consumer.engine.frames = [] → s.exchange.underWay = 0) ∧
      ((∃ number < o.count.toNat, config.refuses (o.sent host number) = true) →
        s.exchange.isFinished = false ∧ s.progress.late = false) := by
  constructor
  · intro fuel lines summary fetched
    obtain ⟨start, s, stages, opened, run, finished, -, rfl⟩ := session_of_fetch fetched
    obtain ⟨taken, accounts⟩ := Session.Run.accounts opened run
    obtain ⟨all, none, fit⟩ := accounts.complete (by rw [finished]; rfl)
    exact ⟨by rw [Exchange.summary, accounts.plan]; simp [CommandLine.FetchOptions.plan], all, none, fit⟩
  · intro start s stages opened run
    obtain ⟨taken, accounts⟩ := Session.Run.accounts opened run
    refine ⟨?_, ?_, ?_, ?_⟩
    · intro finished
      obtain ⟨all, none, -⟩ := accounts.complete (by rw [finished]; rfl)
      refine ⟨?_, all, accounts.told (by rw [finished]; rfl)⟩
      rw [summary, accounts.plan]
      simp [CommandLine.FetchOptions.plan]
    · intro expressed
      have sum := accounts.tally.sum
      rw [accounts.taken_eq expressed] at sum
      rw [satisfied_add_timedOut]
      change s.exchange.outcomes.length + s.exchange.underWay +
        s.exchange.consumer.engine.node.pending.size + _ = _ at sum
      omega
    · intro rest
      rw [underWay, rest]
      rfl
    · rintro ⟨number, asked, long⟩
      refine ⟨accounts.unfinished asked long, ?_⟩
      by_contra late
      obtain ⟨-, -, fit⟩ := accounts.complete (eq_true_of_ne_false late)
      exact Bool.false_ne_true ((fit number asked).symm.trans long)

/-- The moves of a fetch of two interests until what can be answered has been answered. -/
def twoExpressed : List SessionMove := List.flatten [
  [.register, .begin .producer], Session.steps .producer 1,
  [.proceed, .express, .express, .watch, .begin .consumer], Session.steps .consumer 3,
  Session.steps .producer 11, Session.steps .consumer 13]

/-- The moves from there to the end, if both were answered. -/
def twoAnswered : List SessionMove := List.flatten [
  twoExpressed, [.ask, .leave, .begin .consumer], Session.steps .consumer 3,
  [.close], Session.steps .producer 1, [.finish]]

/-- Two interests are fetched: what the program comes to, a session that comes to its end, and one in which
the second is refused because its longer nonce makes it too long. -/
theorem accounts_of_two_interests :
    let o : CommandLine.FetchOptions := { root := ⟨[]⟩, count := 2 }
    let host : Host := { now := ⟨0⟩, nonces := fun number => UInt32.ofNat (1000 * number) }
    let tight : FaceConfig := { maxPacketSize := 210 }
    (∃ lines summary, fetch 1000 o {} host = .ok (lines, summary) ∧ summary.expressed = 2 ∧
      summary.satisfied + summary.timedOut = 2 ∧ summary.stillPending = 0) ∧
    (∃ (start s : Session) (stages : List Session.Stage), Session.open? o.plan {} host = some start ∧
      start.Run stages s ∧ s.progress = .finished ∧ s.exchange.stillPending = some 0) ∧
    ∃ (start s : Session) (stages : List Session.Stage), Session.open? o.plan tight host = some start ∧
      start.Run stages s ∧ refusals (Stage.seen stages) = 1 ∧ s.exchange.outcomes.length = 1 ∧
      s.exchange.summary.satisfied + s.exchange.summary.timedOut +
        s.exchange.consumer.engine.node.pending.size + s.exchange.underWay + 1 = 2 ∧
      s.exchange.isFinished = false := by
  intro o host tight
  have accounts := every_fetched_interest_is_accounted_for o {} host
  refine ⟨?_, ?_, ?_⟩
  · have comes : (fetch 1000 o {} host).toOption.isSome = true := by decide +kernel
    cases fetched : fetch 1000 o {} host with
    | error failure =>
      rw [fetched] at comes
      cases comes
    | ok result =>
      obtain ⟨expressed, all, none, -⟩ := accounts.1 1000 result.1 result.2 fetched
      exact ⟨result.1, result.2, rfl, expressed, all, none⟩
  · have plays : (Session.open? o.plan {} host).map (fun start => (start.play twoAnswered).2.progress) =
        some .finished := by decide +kernel
    obtain ⟨start, opened, finished⟩ := Option.map_eq_some_iff.mp plays
    have run := start.run_play twoAnswered
    obtain ⟨-, -, told⟩ := (accounts.2 start _ _ opened run).1 finished
    exact ⟨start, _, _, opened, run, finished, told⟩
  · have plays : (Session.open? o.plan tight host).map (fun start =>
        (decide (start.play twoExpressed).2.AllTaken, refusals (Stage.seen (start.play twoExpressed).1),
          (start.play twoExpressed).2.exchange.outcomes.length)) = some (true, 1, 1) := by decide +kernel
    obtain ⟨start, opened, played⟩ := Option.map_eq_some_iff.mp plays
    simp only [Prod.mk.injEq] at played
    obtain ⟨taken, one, answered⟩ := played
    have run := start.run_play twoExpressed
    have long : tight.refuses (o.sent host 1) = true := by decide +kernel
    obtain ⟨-, sum, -, unfinished⟩ :=
      (every_fetched_interest_is_accounted_for o tight host).2 start _ _ opened run
    have whole := sum (of_decide_eq_true taken)
    rw [one] at whole
    exact ⟨start, _, _, opened, run, one, answered, whole, (unfinished ⟨1, by decide, long⟩).1⟩

end NamedData
