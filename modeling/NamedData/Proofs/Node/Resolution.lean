import Mathlib.Data.List.Nodup
import NamedData.Proofs.Node.Effect

/-!
How the interests of a node are resolved.

Over a run, what stands on the ledger under a handle and what was called under it come to at most one
(`Engine.Run.accounts`), and everything that waits, is to be delivered or may time out was made
earlier in the run (`Engine.Run.known`). From these two invariants it follows that no interest is
resolved twice, and that none is resolved after it has been withdrawn.
-/
namespace NamedData

theorem resolutions_append {κ : Type} (events others : List (Event κ)) :
    resolutions (events ++ others) = resolutions events ++ resolutions others :=
  List.filterMap_append ..

theorem invocations_append {κ : Type} (handle : Nat) (events others : List (Event κ)) :
    invocations handle (events ++ others) =
      invocations handle events + invocations handle others := by
  simp only [invocations, resolutions_append, List.filterMap_append, List.countP_append]

namespace Engine

variable {κ τ : Type} {σ : Type → Type}
variable {start e : Engine κ σ τ} {stages past future : List (Stage κ σ τ)} {stage : Stage κ σ τ}

/-- The entries that were made in the course of some stages. -/
def made (stages : List (Stage κ σ τ)) : List (PendingInterest κ) :=
  stages.filterMap fun stage => stage.before.makes? stage.move

theorem made_concat (stages : List (Stage κ σ τ)) (stage : Stage κ σ τ) :
    made (stages ++ [stage]) = made stages ++ (stage.before.makes? stage.move).toList := by
  rw [made, List.filterMap_append]
  cases found : stage.before.makes? stage.move <;> simp [made, found]

theorem mem_made_concat {entry : PendingInterest κ} :
    entry ∈ made (stages ++ [stage]) ↔
      entry ∈ made stages ∨ stage.before.makes? stage.move = some entry := by
  rw [made_concat, List.mem_append, Option.mem_toList]

/-- Handles are given to one entry each, and an entry is called on only while its handle stands on the
ledger. -/
structure Accounts (stages : List (Stage κ σ τ)) (e : Engine κ σ τ) : Prop where
  owed : ∀ handle, e.ledger.owed handle + invocations handle (Stage.seen stages) ≤
    if handle < e.ledger.issued then 1 else 0
  issued : ∀ entry ∈ made stages, entry.handle < e.ledger.issued
  distinct : ((made stages).map (·.handle)).Nodup

variable [Scheduler σ] [Scheduler.Faithful σ] [Transport τ]

theorem Accounts.step (accounts : Accounts stages stage.before)
    (step : stage.before.Step stage.move stage.events stage.after) :
    Accounts (stages ++ [stage]) stage.after := by
  have moved := step.effect.moved
  have grown := moved.owed_le
  have recorded := made_concat stages stage
  cases makes : stage.before.makes? stage.move with
  | none =>
    rw [makes] at moved grown
    rw [makes, Option.toList_none, List.append_nil] at recorded
    have later := moved.issued_le
    constructor
    · intro handle
      have before := accounts.owed handle
      have after := grown handle
      rw [Stage.seen_concat, invocations_append]
      simp only [Option.toList_none, List.countP_nil] at after
      simp only [invocations] at before ⊢
      split at before <;> split <;> omega
    · intro entry member
      rw [recorded] at member
      exact Nat.lt_of_lt_of_le (accounts.issued entry member) later
    · rw [recorded]
      exact accounts.distinct
  | some entry =>
    rw [makes] at moved grown
    rw [makes, Option.toList_some] at recorded
    obtain ⟨numbered, issued, -⟩ := moved.issued_of_made
    constructor
    · intro handle
      have before := accounts.owed handle
      have after := grown handle
      rw [Stage.seen_concat, invocations_append]
      simp only [Option.toList_some, List.countP_singleton, beq_iff_eq] at after
      simp only [invocations] at before ⊢
      split at before <;> split at after <;> split <;> omega
    · intro other member
      rw [recorded] at member
      rcases List.mem_append.mp member with old | new
      · have earlier := accounts.issued other old
        omega
      · rw [List.mem_singleton.mp new]
        omega
    · rw [recorded, List.map_append, List.nodup_append]
      refine ⟨accounts.distinct, List.nodup_singleton _, ?_⟩
      intro handle old other new
      obtain ⟨earlier, member, rfl⟩ := List.mem_map.mp old
      rw [List.map_singleton, List.mem_singleton] at new
      have before := accounts.issued earlier member
      omega

/-- Every run of a node that has done nothing yet keeps its accounts. -/
theorem Run.accounts (fresh : start.Fresh) (run : start.Run stages e) : Accounts stages e := by
  apply run.invariant
  · constructor
    · intro handle
      simp [Ledger.owed, ledger, fresh.pending, fresh.frames, invocations, resolutions, Stage.seen]
    · intro entry member
      cases member
    · exact List.nodup_nil
  · intro past stage _ follows accounts
    exact accounts.step follows.1

/-- Everything that waits, is to be delivered or may time out was made earlier. -/
structure Known (start : Engine κ σ τ) (stages : List (Stage κ σ τ)) (e : Engine κ σ τ) : Prop where
  waiting : ∀ entry ∈ e.ledger.waiting, entry ∈ made stages
  delivering : ∀ data entry, (data, entry) ∈ e.ledger.delivering →
    entry ∈ made stages ∧ entry.interest.matchesName data.name = true
  armed : ∀ entry, e.Armed (.timeout entry) → entry ∈ made stages
  available : ∀ entry, start.Available stages (.timeout entry) → entry ∈ made stages

theorem Known.step (known : Known start stages stage.before)
    (follows : start.Follows stages stage) : Known start (stages ++ [stage]) stage.after := by
  obtain ⟨step, given⟩ := follows
  have effect := step.effect
  have old : ∀ {entry}, entry ∈ made stages → entry ∈ made (stages ++ [stage]) :=
    fun member => mem_made_concat.mpr (.inl member)
  have new : ∀ {delay entry}, .armed delay (.timeout entry) ∈ stage.events →
      entry ∈ made (stages ++ [stage]) :=
    fun armed => mem_made_concat.mpr (.inr (effect.arms _ _ armed))
  constructor
  case waiting =>
    intro entry waits
    rcases effect.moved.mem_waiting waits with before | makes
    · exact old (known.waiting entry before)
    · exact mem_made_concat.mpr (.inr makes)
  case delivering =>
    intro data entry delivering
    rcases effect.moved.mem_delivering delivering with before | ⟨waited, matching⟩
    · obtain ⟨member, matching⟩ := known.delivering data entry before
      exact ⟨old member, matching⟩
    · exact ⟨old (known.waiting entry waited), matching⟩
  case armed =>
    intro entry armed
    rcases effect.armed _ armed with before | ⟨delay, now⟩
    · exact old (known.armed entry before)
    · exact new now
  case available =>
    intro entry available
    rcases available with held | ⟨delay, armed⟩
    · exact old (known.available entry (.inl held))
    · rw [Stage.seen_concat, List.mem_append] at armed
      rcases armed with before | now
      · exact old (known.available entry (.inr ⟨delay, before⟩))
      · exact new now

/-- Over every run of a node that has done nothing yet, nothing waits that was not made. -/
theorem Run.known (fresh : start.Fresh) (run : start.Run stages e) : Known start stages e := by
  apply run.invariant
  · constructor
    · intro entry waits
      rw [ledger, fresh.pending] at waits
      cases waits
    · intro data entry delivering
      rw [ledger, fresh.frames] at delivering
      cases delivering
    · intro entry armed
      rcases armed with held | running
      · exact absurd held (fresh.scheduler entry)
      · rw [fresh.frames] at running
        cases running
    · intro entry available
      rcases available with held | ⟨delay, armed⟩
      · exact absurd held (fresh.scheduler entry)
      · cases armed
  · intro past stage _ follows known
    exact known.step follows

/-- Data is delivered to an entry made before, which it matches, and an entry made before times out
by its own callback. -/
structure Genuine (past : List (Stage κ σ τ)) (event : Event κ) : Prop where
  data : ∀ entry data, event = .called (.data entry data) →
    entry ∈ made past ∧ entry.interest.matchesName data.name = true
  timeout : ∀ entry callback, event = .called (.timeout entry callback) →
    entry ∈ made past ∧ entry.onTimeout = some callback

theorem Run.genuine (fresh : start.Fresh) (run : start.Run (past ++ stage :: future) e)
    {event : Event κ} (member : event ∈ stage.events) : Genuine past event := by
  obtain ⟨earlier, step, given⟩ := run.at_stage
  have known := Run.known fresh earlier
  have effect := step.effect
  constructor
  · rintro entry data rfl
    have resolved := effect.moved.resolves (mem_resolutions.mpr ⟨member, rfl⟩)
    rcases resolved with ⟨_, _, same, delivering⟩ | ⟨_, _, same, -⟩
    · cases same
      exact known.delivering data entry delivering
    · cases same
  · rintro entry callback rfl
    have resolved := effect.moved.resolves (mem_resolutions.mpr ⟨member, rfl⟩)
    rcases resolved with ⟨_, _, same, -⟩ | ⟨_, _, same, own⟩
    · cases same
    · cases same
      refine ⟨?_, own⟩
      rcases effect.expires entry callback member with armed | asked
      · exact known.armed entry armed
      · exact known.available entry (given _ (Move.given?_eq_some asked))

/-- Once a handle is off the ledger nothing is called under it. -/
theorem Run.silent_since {handle : Nat} (run : start.Run (past ++ future) e)
    (spent : ∀ mid, start.Run past mid →
      mid.ledger.owed handle = 0 ∧ handle < mid.ledger.issued) :
    invocations handle (Stage.seen future) = 0 := by
  have silent : invocations handle (Stage.seen future) = 0 ∧
      e.ledger.owed handle = 0 ∧ handle < e.ledger.issued := by
    apply run.since
    · intro mid earlier
      exact ⟨rfl, spent mid earlier⟩
    · intro later stage _ follows before
      obtain ⟨before, off, issued⟩ := before
      obtain ⟨now, off, issued⟩ := follows.1.effect.moved.spent off issued
      refine ⟨?_, off, issued⟩
      rw [Stage.seen_concat, invocations_append, before, invocations, now]
  exact silent.1

/-- An operation that a step starts is carried out. -/
theorem Step.perform_eq {after : Engine κ σ τ} {operation : Operation κ} {events : List (Event κ)}
    (step : e.Step (.perform operation) events after) :
    after = (e.perform operation).1 ∧ events = (e.perform operation).2.2 := by
  cases step with
  | act done =>
    rw [act?] at done
    split at done
    · cases done
      exact ⟨rfl, rfl⟩
    · cases done

/-- Whether a move takes an entry out of the table without resolving it. -/
def withdraws (entry : PendingInterest κ) (move : Move κ) : Prop :=
  move = .perform (.request (.removePending entry.id)) ∨ move = .perform .shutdown

/-- An entry that is withdrawn is off the ledger, unless it was on it twice. -/
theorem Step.withdraw {entry : PendingInterest κ} {after : Engine κ σ τ} {move : Move κ}
    {events : List (Event κ)} (step : e.Step move events after) (withdraws : withdraws entry move)
    (waits : entry ∈ e.ledger.waiting) :
    resolutions events = [] ∧ after.ledger.owed entry.handle < e.ledger.owed entry.handle ∧
      after.ledger.issued = e.ledger.issued := by
  rcases withdraws with rfl | rfl
  · obtain ⟨rfl, rfl⟩ := step.perform_eq
    exact ⟨resolutions_logged _, Ledger.owed_withdraw_lt waits (beq_self_eq_true entry.id),
      Marks.next_removeAll ..⟩
  · obtain ⟨rfl, rfl⟩ := step.perform_eq
    have fewer : Ledger.owed { e.ledger with waiting := e.ledger.waiting.filter fun _ => !true }
        entry.handle < e.ledger.owed entry.handle := Ledger.owed_withdraw_lt waits rfl
    rw [Bool.not_true, List.filter_false] at fewer
    exact ⟨rfl, fewer, Marks.next_removeAll ..⟩

/-- Nothing is called on an entry that waited when it was withdrawn. -/
theorem Run.silent_of_withdrawn {entry : PendingInterest κ} (fresh : start.Fresh)
    (run : start.Run (past ++ stage :: future) e)
    (waits : entry ∈ stage.before.node.pending.entries) (withdrawn : withdraws entry stage.move) :
    invocations entry.handle (Stage.seen (stage :: future)) = 0 := by
  obtain ⟨earlier, follows⟩ := run.at_stage
  have accounts := Run.accounts fresh earlier
  obtain ⟨silent, fewer, issued⟩ := follows.1.withdraw withdrawn waits
  have once := accounts.owed entry.handle
  have numbered := accounts.issued entry ((Run.known fresh earlier).waiting entry waits)
  rw [if_pos numbered] at once
  have since : invocations entry.handle (Stage.seen future) = 0 := by
    rw [List.append_cons] at run
    apply run.silent_since
    intro mid through
    rw [through.of_concat.2.2, issued]
    omega
  change invocations entry.handle (stage.events ++ Stage.seen future) = 0
  rw [invocations_append, since, invocations, silent]
  rfl

/-- While an entry waits nothing has been called on it. -/
theorem Run.silent_of_waiting {entry : PendingInterest κ} (fresh : start.Fresh)
    (run : start.Run stages e) (waits : entry ∈ e.node.pending.entries) :
    invocations entry.handle (Stage.seen stages) = 0 := by
  have accounts := Run.accounts fresh run
  have numbered := accounts.issued entry ((Run.known fresh run).waiting entry waits)
  have stands : 0 < e.ledger.owed entry.handle := by
    rw [Ledger.owed, List.countP_append]
    have counted : 0 < e.ledger.waiting.countP (·.handle == entry.handle) :=
      List.countP_pos_iff.mpr ⟨entry, waits, beq_self_eq_true _⟩
    omega
  have once := accounts.owed entry.handle
  rw [if_pos numbered] at once
  omega

/-- Nothing is ever called on an entry that is withdrawn while it waits. -/
theorem Run.never_of_withdrawn {entry : PendingInterest κ} (fresh : start.Fresh)
    (run : start.Run (past ++ stage :: future) e)
    (waits : entry ∈ stage.before.node.pending.entries) (withdrawn : withdraws entry stage.move) :
    invocations entry.handle (Stage.seen (past ++ stage :: future)) = 0 := by
  have before := Run.silent_of_waiting fresh run.at_stage.1 waits
  have since := Run.silent_of_withdrawn fresh run waits withdrawn
  rw [Stage.seen_append, invocations_append, before, since]

/-- **An interest is resolved once at most.** In every run of a node that has done nothing yet, with
whatever transport and packet format, and whatever scheduler that hands out only calls it was given:
the entries that are made are told apart by their handles and stand in the table from then on; each
is called at most once, be it with data or because it timed out; data goes only to entries it matches;
and an entry that is withdrawn while it waits is never called. -/
theorem each_interest_is_resolved_once (fresh : start.Fresh) (run : start.Run stages e) :
    ((made stages).map (·.handle)).Nodup ∧
      (∀ entry ∈ made stages, invocations entry.handle (Stage.seen stages) ≤ 1) ∧
      ∀ past stage future, stages = past ++ stage :: future →
        (∀ entry, stage.before.makes? stage.move = some entry →
          stage.after.node.pending.entries = stage.before.node.pending.entries ++ [entry]) ∧
        (∀ event ∈ stage.events, Genuine past event) ∧
        ∀ entry ∈ stage.before.node.pending.entries, withdraws entry stage.move →
          invocations entry.handle (Stage.seen (stage :: future)) = 0 := by
  have accounts := Run.accounts fresh run
  refine ⟨accounts.distinct, ?_, ?_⟩
  · intro entry member
    have once := accounts.owed entry.handle
    rw [if_pos (accounts.issued entry member)] at once
    omega
  · rintro past stage future rfl
    refine ⟨?_, ?_, ?_⟩
    · intro entry makes
      have moved := run.at_stage.2.1.effect.moved
      rw [makes] at moved
      exact moved.issued_of_made.2.2
    · intro event member
      exact Run.genuine fresh run member
    · intro entry waits withdrawn
      exact Run.silent_of_withdrawn fresh run waits withdrawn

/-- A node that has nothing to do, to which every element is data without a name. -/
def untouched : Engine Unit DelayedCalls Sink where
  node := {
    config := {}
    format := {
      encode := fun _ => .ok []
      decode := fun _ => .ok (.data ⟨⟨[]⟩, [], none⟩) }
    scheduler := {} }
  transport := {}
  host := { now := ⟨0⟩, nonces := fun _ => 0 }

/-- Two interests are expressed under one identifier. The first gets data, the second is withdrawn,
and then both lifetimes end. -/
def twoInterests : List (Move Unit) :=
  let express := Move.perform (.request (.express .first { name := ⟨[]⟩, lifetime := some .zero } ()
    (some ())))
  [express, .perform (.receive []), .advance, .resume (.ok ()), .advance, express,
    .perform (.request (.removePending .first)), .perform .processEvents, .advance, .advance,
    .advance, .advance]

theorem two_interests_of_one_identifier :
    ∃ e, untouched.Fresh ∧ untouched.Run (untouched.stages twoInterests) e ∧
      (made (untouched.stages twoInterests)).length = 2 ∧
      (resolutions (Stage.seen (untouched.stages twoInterests))).length = 1 ∧
      ∀ entry ∈ made (untouched.stages twoInterests),
        invocations entry.handle (Stage.seen (untouched.stages twoInterests)) ≤ 1 := by
  have fresh : untouched.Fresh := by
    refine ⟨rfl, rfl, rfl, rfl, ?_⟩
    rintro entry ⟨delayed, member, -⟩
    cases member
  have own : ∀ call, Move.perform (.run call) ∉ twoInterests := by simp [twoInterests]
  have begins : untouched.Run [] untouched := .start
  obtain ⟨e, run⟩ := run_stages begins own
  exact ⟨e, fresh, run, rfl, rfl, (each_interest_is_resolved_once fresh run).2.1⟩

end Engine

end NamedData
