import NamedData.Proofs.Exchange.Answers

/-!
Which interests of a fetch are answered, and which time out.

The producer drops every interest whose number, counted from one, is a multiple of what it was told. If no
answer comes too late, exactly the interests that it drops time out; the others are answered, in their
order (`every_fetched_interest_is_answered_unless_dropped`).
-/
namespace NamedData

namespace CommandLine.FetchOptions

variable {o : FetchOptions}

/-- The number of interests that the producer drops. -/
def dropped (o : FetchOptions) : Nat :=
  match o.dropEvery with
  | none => 0
  | some k => o.count.toNat / k.toNat

/-- An interest is dropped if what the producer was told divides its number. -/
theorem answers_eq_false_iff {number : Nat} :
    o.answers number = false ↔ ∃ k, o.dropEvery = some k ∧ k.toNat ∣ number + 1 := by
  have positive {k : UInt64} (divides : k.toNat ∣ number + 1) : 0 < k.toNat :=
    Nat.pos_of_dvd_of_pos divides (Nat.succ_pos _)
  rw [answers, Bool.not_eq_false', Exchange.Plan.ignores]
  cases every : o.dropEvery with
  | none => simp [plan, every]
  | some k =>
    simp only [plan, every, Option.map_some, decide_eq_true_eq, Option.some.injEq, exists_eq_left']
    rw [← Nat.dvd_iff_mod_eq_zero]
    exact and_iff_right_of_imp positive

/-- The interests that are answered. -/
theorem answers_iff {number : Nat} : o.answers number = true ↔
    o.dropEvery = none ∨ o.dropEvery = some 0 ∨ ∃ k, o.dropEvery = some k ∧ ¬ k.toNat ∣ number + 1 := by
  rw [← Bool.not_eq_false, answers_eq_false_iff]
  cases every : o.dropEvery with
  | none => simp
  | some k =>
    by_cases zero : k = 0
    · simp [zero]
    · simp [zero]

/-- Of the first `n` numbers, counted from one, every `k`-th is a multiple of `k`. -/
theorem countP_multiples (k n : Nat) :
    (List.range n).countP (fun number => decide (k ∣ number + 1)) = n / k := by
  induction n with
  | zero => rw [Nat.zero_div]; rfl
  | succ n ih =>
    rw [Exchange.countP_range_succ, ih, Nat.succ_div]
    simp only [decide_eq_true_eq]

/-- So many interests are not answered. -/
theorem length_dropped (o : FetchOptions) :
    ((List.range o.count.toNat).filter fun number => !o.answers number).length = o.dropped := by
  rw [← List.countP_eq_length_filter]
  cases every : o.dropEvery with
  | none =>
    rw [dropped, every]
    refine List.countP_eq_zero.mpr fun number _ => ?_
    simp [answers_iff, every]
  | some k =>
    rw [dropped, every]
    refine Eq.trans (List.countP_congr fun number _ => ?_) (countP_multiples k.toNat o.count.toNat)
    simp [answers_eq_false_iff, every]
end CommandLine.FetchOptions

namespace Exchange

variable {o : CommandLine.FetchOptions} {host : Host} {x : Exchange}

/-- A fetch that has concluded has satisfied all interests but the dropped ones. -/
theorem Concluded.summary (concluded : Concluded o host x.outcomes) :
    x.summary.satisfied = o.count.toNat - o.dropped ∧ x.summary.timedOut = o.dropped := by
  have timedOut : x.summary.timedOut = o.dropped := by
    change x.outcomes.countP _ = _
    rw [List.countP_eq_length_filter, concluded.lapsed.length_eq, List.length_map, o.length_dropped]
  have satisfied : x.summary.satisfied = ((List.range o.count.toNat).filter o.answers).length := by
    change x.outcomes.countP _ = _
    rw [List.countP_eq_length_filter, concluded.satisfied, List.length_map]
  have all := List.length_eq_length_filter_add (l := List.range o.count.toNat) o.answers
  rw [List.length_range, o.length_dropped] at all
  exact ⟨by omega, timedOut⟩

end Exchange

open Exchange

/-- **The interests of a fetch are answered unless they are dropped.** If nothing is too long to be sent and
no answer comes too late, then in every session that comes to its end the interest of some number is
satisfied by the data with the next number, in the order of the numbers, exactly when the producer was not
told to drop any, or was told zero, or something that does not divide the next number. All others time out. -/
theorem every_fetched_interest_is_answered_unless_dropped (o : CommandLine.FetchOptions)
    (config : FaceConfig) (host : Host) {start s : Session} {stages : List Session.Stage}
    (opened : Session.open? o.plan config host = some start) (run : start.Run stages s)
    (finished : s.progress = .finished)
    (fits : ∀ number < o.count.toNat, o.answers number = true →
      (Packet.data (o.answer number)).toJson.length ≤ config.maxPacketSize.toNat)
    (inTime : Session.InTime o host stages) :
    (∀ number, o.answers number = true ↔
      o.dropEvery = none ∨ o.dropEvery = some 0 ∨ ∃ k, o.dropEvery = some k ∧ ¬ k.toNat ∣ number + 1) ∧
    s.exchange.outcomes.filter Outcome.isAnswered =
      ((List.range o.count.toNat).filter o.answers).map (fun number => .answered (o.sent host number)
        { name := o.root.append (.ofText (toString number).toList)
          content := utf8 ("Data #" ++ toString (number + 1)).toList }) ∧
    (s.exchange.outcomes.filter fun outcome => !outcome.isAnswered).Perm
      (((List.range o.count.toNat).filter fun number => !o.answers number).map fun number =>
        .expired (o.sent host number)) ∧
    s.exchange.summary.satisfied =
      o.count.toNat - (match o.dropEvery with | none => 0 | some k => o.count.toNat / k.toNat) ∧
    s.exchange.summary.timedOut =
      (match o.dropEvery with | none => 0 | some k => o.count.toNat / k.toNat) := by
  have late : s.progress.late = true := by rw [finished]; rfl
  obtain ⟨taken, accounts⟩ := Session.Run.accounts opened run
  obtain ⟨-, -, short⟩ := accounts.complete late
  have concluded := (run.delivers opened short fits inTime).late late
  obtain ⟨satisfied, timedOut⟩ := concluded.summary
  exact ⟨fun number => o.answers_iff, concluded.satisfied, concluded.lapsed, satisfied, timedOut⟩

/-- The moves of a fetch of two interests, the second of which is dropped. -/
def secondDropped : List SessionMove := List.flatten [
  [.register, .begin .producer], Session.steps .producer 1,
  [.proceed, .express, .express, .watch, .begin .consumer], Session.steps .consumer 3,
  Session.steps .producer 12, Session.steps .consumer 11, [.pass (.ofMillis 1000)],
  Session.steps .consumer 8, [.pass (.ofMillis 1500)], Session.steps .consumer 5,
  [.ask, .leave, .begin .consumer], Session.steps .consumer 3,
  [.close], Session.steps .producer 1, [.finish]]

/-- Two interests are fetched, and every second is dropped. -/
theorem second_interest_is_dropped :
    let o : CommandLine.FetchOptions := { root := ⟨[]⟩, count := 2, dropEvery := some 2 }
    let host : Host := { now := ⟨0⟩, nonces := fun number => UInt32.ofNat number }
    ∃ (start s : Session) (stages : List Session.Stage), Session.open? o.plan {} host = some start ∧
      start.Run stages s ∧ s.progress = .finished ∧ Session.InTime o host stages ∧
      s.exchange.summary.satisfied = 1 ∧ s.exchange.summary.timedOut = 1 := by
  intro o host
  have plays : (Session.open? o.plan {} host).map (fun start =>
      decide ((start.play secondDropped).2.progress = .finished ∧
        Session.InTime o host (start.play secondDropped).1)) = some true := by decide +kernel
  obtain ⟨start, opened, played⟩ := Option.map_eq_some_iff.mp plays
  obtain ⟨finished, inTime⟩ := of_decide_eq_true played
  have run := start.run_play secondDropped
  have fits : ∀ number < o.count.toNat, o.answers number = true →
      (Packet.data (o.answer number)).toJson.length ≤ ({} : FaceConfig).maxPacketSize.toNat := by
    decide +kernel
  obtain ⟨-, -, -, satisfied, timedOut⟩ :=
    every_fetched_interest_is_answered_unless_dropped o {} host opened run finished fits inTime
  exact ⟨start, _, _, opened, run, finished, inTime, satisfied.trans (by decide), timedOut.trans (by decide)⟩

end NamedData
