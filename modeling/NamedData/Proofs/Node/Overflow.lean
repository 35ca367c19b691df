import NamedData.Proofs.Node.Coverage
import NamedData.Proofs.Node.Forgetting

/-!
Delays that end beyond what the clock can show.

A node adds delays to the current time without asking whether the clock goes that far. As long as there is
time enough for every number of milliseconds of 64 bits (`Instant.Early`), it does for all that a
configuration can say. An operation that arms something for longer than that does not return
(`Engine.perform_collapsed_iff`), and if it has put an entry into the table, that stays there without a
timeout (`Engine.Run.reckons`).
-/
namespace NamedData

variable {κ τ : Type}

namespace Instant

/-- There is time enough for every number of milliseconds of 64 bits. -/
def Early (i : Instant) : Prop := i.nanos + UInt64.size * 1000000 ≤ secondsLimit * 1000000000

instance (i : Instant) : Decidable i.Early :=
  inferInstanceAs (Decidable (i.nanos + UInt64.size * 1000000 ≤ secondsLimit * 1000000000))

theorem Early.add?_ofMillis_ne_none {i : Instant} (early : i.Early) (millis : UInt64) :
    i.add? (.ofMillis millis) ≠ none := by
  rw [Ne, add?_eq_none_iff, Duration.toNanos_ofMillis]
  have small := millis.toNat_lt_size
  rw [Early] at early
  omega

theorem Early.add?_zero_ne_none {i : Instant} (early : i.Early) : i.add? .zero ≠ none :=
  early.add?_ofMillis_ne_none 0

end Instant

namespace Engine

variable {σ : Type → Type} [Scheduler σ] [Transport τ]

/-- What an operation arms, and for what delay. -/
def armed? (e : Engine κ σ τ) : Operation κ → Option (Duration × NodeCall κ)
  | .request (.express id interest onData onTimeout) =>
    (e.expressed? id interest onData onTimeout).bind fun entry =>
      entry.interest.lifetime.map (·, .timeout entry)
  | .callLater delay callback => some (delay, .callback callback)
  | _ => none

omit [Scheduler σ] in
theorem transmit_ne_collapsed (e : Engine κ σ τ) (element : Bytes) :
    (e.transmit element).2.1 ≠ .collapsed := by
  rw [transmit]
  rcases Transport.send e.transport element with ⟨_ | _, transport⟩ <;> rintro ⟨⟩

/-- An interest cannot be expressed if its timeout cannot be armed. -/
theorem express_collapsed_iff (e : Engine κ σ τ) (id : EntryId) (interest : Interest) (onData : κ)
    (onTimeout : Option κ) :
    (e.express id interest onData onTimeout).2.1 = .collapsed ↔
      ∃ delay call, e.armed? (.request (.express id interest onData onTimeout)) = some (delay, call) ∧
        Scheduler.callLater? e.node.scheduler e.host.now delay call = none := by
  have marks := Interest.marks_completed interest e.node.config e.host
  have now := Interest.now_completed interest e.node.config e.host
  have lives := Interest.lifetime_completed interest e.node.config e.host
  rcases completed : interest.completed e.node.config e.host with ⟨sent, lifetime, host⟩
  rw [completed] at marks now lives
  simp only at marks now lives
  simp only [armed?, expressed?, express, completed]
  cases encoded : e.encode (.interest sent) with
  | error error => simp
  | ok element =>
    simp only [PendingTable.add, now, Option.bind_some, lives, Option.map_some, Option.some.injEq,
      Prod.mk.injEq]
    split
    · next overflow => simpa [collapse] using overflow
    · next scheduler armed =>
      constructor
      · intro collapsed
        exact absurd collapsed (transmit_ne_collapsed _ element)
      · rintro ⟨delay, call, ⟨rfl, rfl⟩, overflow⟩
        rw [overflow] at armed
        cases armed

/-- An operation does not return if what it arms cannot be armed, and otherwise it does. -/
theorem perform_collapsed_iff (e : Engine κ σ τ) (operation : Operation κ) :
    (e.perform operation).2.1 = .collapsed ↔
      ∃ delay call, e.armed? operation = some (delay, call) ∧
        Scheduler.callLater? e.node.scheduler e.host.now delay call = none := by
  cases operation with
  | request request =>
    cases request with
    | express id interest onData onTimeout => exact e.express_collapsed_iff id interest onData onTimeout
    | removePending | removeRegistered | setFilter | unsetFilter => simp [perform, Engine.request, armed?]
    | register id root onInterest onFailed options =>
      rcases answered : Transport.register e.transport root options with ⟨_ | _, transport⟩ <;>
        cases onInterest <;> simp [perform, Engine.request, register, answered, invoke, armed?]
    | putData data =>
      simp only [perform, Engine.request, armed?]
      split
      · simp
      · simp [transmit_ne_collapsed]
    | send element =>
      simp only [perform, Engine.request, armed?]
      split
      · simp
      · simp [transmit_ne_collapsed]
  | callLater delay callback =>
    simp only [perform, armed?]
    split
    · next overflow => simp [collapse, overflow]
    · next armed => simp [armed]
  | processEvents | receive | run | shutdown => simp [perform, armed?]

section polled

variable {start e : Engine κ DelayedCalls τ} {past stages : List (Stage κ DelayedCalls τ)}
variable {stage : Stage κ DelayedCalls τ}

/-- An operation was started that did not return. -/
def Collapses (stage : Stage κ DelayedCalls τ) : Prop :=
  ∃ operation, stage.move = .perform operation ∧ (stage.before.perform operation).2.1 = .collapsed

omit [Transport τ] in
theorem delay?_perform (e : Engine κ DelayedCalls τ) (operation : Operation κ) :
    e.delay? (.perform operation) = (e.armed? operation).map (·.1) := by
  cases operation with
  | request request =>
    cases request with
    | express id interest onData onTimeout =>
      cases made : e.expressed? id interest onData onTimeout with
      | none => simp [delay?, makes?, armed?, made]
      | some entry => cases lives : entry.interest.lifetime <;> simp [delay?, makes?, armed?, made, lives]
    | removePending | register | removeRegistered | setFilter | unsetFilter | putData | send => rfl
  | callLater | processEvents | receive | run | shutdown => rfl

/-- An operation of a polled node does not return if the clock cannot show when it is over what the
operation arms, and otherwise it does. -/
theorem collapses_iff (stage : Stage κ DelayedCalls τ) :
    Collapses stage ↔ ∃ delay, stage.before.delay? stage.move = some delay ∧
      stage.before.host.now.add? delay = none := by
  have overflow : ∀ delay (call : NodeCall κ),
      Scheduler.callLater? stage.before.node.scheduler stage.before.host.now delay call = none ↔
        stage.before.host.now.add? delay = none := by
    intro delay call
    simp [Scheduler.callLater?, DelayedCalls.callLater?]
  constructor
  · rintro ⟨operation, moved, collapsed⟩
    obtain ⟨delay, call, arms, late⟩ := (perform_collapsed_iff _ _).mp collapsed
    refine ⟨delay, ?_, (overflow delay call).mp late⟩
    rw [moved, delay?_perform, arms]
    rfl
  · rintro ⟨delay, arms, late⟩
    cases moved : stage.move with
    | perform operation =>
      rw [moved, delay?_perform] at arms
      obtain ⟨⟨_, call⟩, armed, rfl⟩ := Option.map_eq_some_iff.mp arms
      exact ⟨operation, moved, (perform_collapsed_iff _ _).mpr ⟨_, call, armed, (overflow _ call).mpr late⟩⟩
    | advance | resume | drift =>
      rw [moved] at arms
      cases arms

/-- A node whose operations all return has deadlines for all it arms. -/
theorem KeepsOwn.polled (alone : KeepsOwn stages) (returns : ∀ stage ∈ stages, ¬ Collapses stage) :
    Polled stages where
  keeps := alone.keeps
  own := alone.own
  shown := by
    intro stage member delay arms
    by_contra hidden
    rw [Option.not_isSome_iff_eq_none] at hidden
    exact returns stage member ((collapses_iff stage).mpr ⟨delay, arms, hidden⟩)

/-- What too long a delay means to a polled node. -/
structure Reckons (stages : List (Stage κ DelayedCalls τ)) (e : Engine κ DelayedCalls τ) : Prop where
  /-- It is an operation that arms something for too long that does not return. -/
  collapses : ∀ stage ∈ stages, Collapses stage ↔ ∃ delay,
    stage.before.delay? stage.move = some delay ∧ stage.before.host.now.add? delay = none
  /-- If all operations return, every entry has its timeout. -/
  timed : (∀ stage ∈ stages, ¬ Collapses stage) → ∀ entry ∈ e.node.pending.entries,
    e.timers entry.handle = 1
  /-- The entry of an operation that does not return has none. -/
  untimed : ∀ past stage, stages = past ++ [stage] → Collapses stage →
    ∀ entry, stage.before.makes? stage.move = some entry →
      entry ∈ e.node.pending.entries ∧ e.timers entry.handle = 0

/-- An interest whose timeout cannot be armed is in the table all the same. -/
theorem left_of_express_collapsed {id : EntryId} {interest : Interest} {onData : κ}
    {onTimeout : Option κ} {entry : PendingInterest κ}
    (collapsed : (e.express id interest onData onTimeout).2.1 = .collapsed)
    (makes : e.expressed? id interest onData onTimeout = some entry) :
    entry ∈ (e.express id interest onData onTimeout).1.node.pending.entries ∧
      (e.express id interest onData onTimeout).1.node.scheduler = e.node.scheduler ∧
      (e.express id interest onData onTimeout).1.frames = [] := by
  rcases completed : interest.completed e.node.config e.host with ⟨sent, lifetime, host⟩
  simp only [expressed?, express, completed] at makes collapsed ⊢
  cases encoded : e.encode (.interest sent) with
  | error error =>
    rw [encoded] at makes
    cases makes
  | ok element =>
    rw [encoded] at makes
    cases makes
    simp only [encoded, PendingTable.add] at collapsed ⊢
    split at collapsed
    · exact ⟨List.mem_append_right _ (List.mem_singleton_self _), rfl, rfl⟩
    · exact absurd collapsed (transmit_ne_collapsed _ element)

/-- An operation that does not return leaves the entry in the table that it has made, and has armed
nothing. -/
theorem left_of_collapsed {operation : Operation κ} {entry : PendingInterest κ}
    (collapsed : (e.perform operation).2.1 = .collapsed)
    (makes : e.makes? (.perform operation) = some entry) :
    entry ∈ (e.perform operation).1.node.pending.entries ∧
      (e.perform operation).1.node.scheduler = e.node.scheduler ∧
      (e.perform operation).1.frames = [] := by
  cases operation with
  | request request =>
    cases request with
    | express id interest onData onTimeout => exact left_of_express_collapsed collapsed makes
    | removePending | register | removeRegistered | setFilter | unsetFilter | putData | send => cases makes
  | callLater | processEvents | receive | run | shutdown => cases makes

theorem Run.reckons (fresh : start.Fresh) (sorted : start.node.scheduler.Sorted NodeCall.Earlier)
    (run : start.Run stages e) (alone : KeepsOwn stages) : Reckons stages e where
  collapses stage _ := collapses_iff stage
  timed returns := (Run.covered fresh sorted run (alone.polled returns)).once
  untimed := by
    rintro past stage rfl ⟨operation, moved, collapsed⟩ entry makes
    obtain ⟨upTo, follows, rfl⟩ := run.of_concat
    have step := follows.1
    have numbered : entry.handle = stage.before.host.marks.next := by
      have effect := step.effect.moved
      rw [makes] at effect
      exact effect.issued_of_made.1
    rw [moved] at step makes
    obtain ⟨waits, scheduler, frames⟩ := left_of_collapsed collapsed makes
    rw [step.perform_eq.1]
    refine ⟨waits, ?_⟩
    have before : stage.before.timers entry.handle = 0 := by
      apply timers_eq_zero (Run.known fresh upTo)
      intro other member
      have older : other.handle < stage.before.host.marks.next :=
        (Run.accounts fresh upTo).issued other member
      omega
    rw [timers, Nat.add_eq_zero_iff] at before
    rw [timers, scheduler, frames, before.1]
    rfl

end polled

end Engine

end NamedData
