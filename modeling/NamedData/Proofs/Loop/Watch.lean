import Mathlib.Data.Multiset.Basic
import NamedData.Loop.Basic

/-!
What a loop does about its stop predicate.

The poll of the stop predicate has a timer of its own, which is armed in two places: when a run begins, and
when a poll has come to nothing. Whoever arms it, a poll is armed at most once, so what a loop does about its
predicate is the work of a small machine (`Watch.Step`). Its polls are an interval apart
(`Watch.Spaced.step`, `Watch.Spaced.due`), also when the predicate stops the loop in between, for it is then
the next run that arms the poll (`Watch.Paused.begin`).
-/
namespace NamedData

/-- What a loop has to do with its stop predicate. -/
structure Watch (κ : Type) where
  /-- The predicate that is installed, and how often it has been polled. -/
  predicate : Option (κ × Nat)
  /-- When the polls that are armed are due. -/
  armed : Multiset Instant
  /-- The poll that has not been answered yet. -/
  asking : Option (κ × Nat)
  /-- Whether the predicate has stopped the loop before. -/
  stopped : Bool
  /-- Whether no face has been shut down yet. -/
  active : Bool
  /-- Whether the loop is gone, or its clock has overflowed. -/
  dead : Bool

namespace Watch

variable {κ : Type} {interval : Duration} {since now : Instant}

/-- What a loop does, as far as its stop predicate is concerned. -/
inductive Act (κ : Type) where
  | rest
  /-- The predicate is replaced, or removed. -/
  | install (predicate : Option κ)
  /-- A run begins. -/
  | begin
  /-- The timer of the poll is taken off. -/
  | tick
  /-- The predicate returns. -/
  | answer (result : Except CallbackError Bool)

/-- Nothing is asked, and a poll has come up. -/
structure Due (now : Instant) (w : Watch κ) : Prop where
  idle : w.asking = none
  armed : ∃ deadline ≤ now, w.armed = {deadline}

/-- The next poll is armed, an interval from now, unless the clock does not reach that far. -/
inductive Rearms (interval : Duration) (now : Instant) (w : Watch κ) : Watch κ → Prop where
  | next {deadline : Instant} (shown : now.add? interval = some deadline) :
      Rearms interval now w { w with armed := {deadline} }
  | late (overflow : now.add? interval = none) : Rearms interval now w { w with dead := true }

/-- What can happen, with the polls that are made. -/
inductive Step (interval : Duration) (now : Instant) (w : Watch κ) :
    Act κ → List (κ × Nat) → Watch κ → Prop where
  | rest {active dead : Bool} (lowers : active = true → w.active = true)
      (dies : w.dead = true → dead = true) : Step interval now w .rest [] { w with active, dead }
  | install (idle : w.asking = none) (predicate : Option κ) :
      Step interval now w (.install predicate) [] { w with predicate := predicate.map (·, 0) }
  | begin {deadline : Instant} (idle : w.asking = none) (unarmed : w.armed = 0)
      (active : w.active = true) (alive : w.dead = false)
      (shown : now.add? (if w.stopped then interval else .zero) = some deadline) :
      Step interval now w .begin [] { w with armed := {deadline} }
  | again (idle : w.asking = none) (armed : w.active = true → w.armed ≠ 0) :
      Step interval now w .begin [] w
  | late (idle : w.asking = none) : Step interval now w .begin [] { w with dead := true }
  /-- Once a face has been shut down nothing is asked any more. -/
  | shut (due : w.Due now) (inactive : w.active = false) :
      Step interval now w .tick [] { w with armed := 0 }
  | pass {after : Watch κ} (due : w.Due now) (active : w.active = true) (none : w.predicate = none)
      (rearms : Rearms interval now { w with armed := 0 } after) : Step interval now w .tick [] after
  | ask {predicate : κ} {index : Nat} (due : w.Due now) (active : w.active = true)
      (installed : w.predicate = some (predicate, index)) :
      Step interval now w .tick [(predicate, index)]
        { w with
          armed := 0, asking := some (predicate, index), predicate := some (predicate, index + 1) }
  | stop (asked : w.asking ≠ none) (unarmed : w.armed = 0) :
      Step interval now w (.answer (.ok true)) [] { w with asking := none, stopped := true }
  | rearm {result : Except CallbackError Bool} {after : Watch κ} (asked : w.asking ≠ none)
      (unarmed : w.armed = 0) (goesOn : result ≠ .ok true)
      (rearms : Rearms interval now { w with asking := none } after) :
      Step interval now w (.answer result) [] after

variable {w after : Watch κ} {act : Act κ} {asked : List (κ × Nat)}

theorem Step.still : Step interval now w .rest [] w := .rest id id

/-! ## Polls are spaced -/

/-- No poll comes up before an interval has passed since some time, and if none is armed that is because the
predicate has stopped the loop. -/
structure Spaced (interval : Duration) (since : Instant) (w : Watch κ) : Prop where
  late : ∀ deadline ∈ w.armed, since.nanos + interval.toNanos ≤ deadline.nanos
  waits : w.armed = 0 → w.asking = none → w.active = true → w.dead = false → w.stopped = true

theorem Spaced.rearms (rearms : Rearms interval now w after) (later : since ≤ now)
    (unarmed : w.armed = 0) : Spaced interval since after := by
  cases rearms with
  | next shown =>
    constructor
    case late =>
      intro deadline member
      rw [Multiset.mem_singleton.mp member, Instant.nanos_of_add? shown]
      exact Nat.add_le_add_right later _
    case waits =>
      intro none
      cases Multiset.singleton_ne_zero _ none
  | late overflow => exact ⟨by simp [unarmed], fun _ _ _ alive => by cases alive⟩

/-- After a poll the next one is an interval away. -/
theorem Spaced.of_tick (step : Step interval now w .tick asked after) (later : since ≤ now) :
    Spaced interval since after := by
  cases step with
  | shut due inactive =>
    exact ⟨by simp, fun _ _ active _ => absurd (active.symm.trans inactive) (by decide)⟩
  | pass due active none rearms => exact .rearms rearms later rfl
  | ask due active installed => exact ⟨by simp, fun _ idle _ _ => by cases idle⟩

/-- It stays so, whatever happens. -/
theorem Spaced.step (spaced : Spaced interval since w) (step : Step interval now w act asked after)
    (later : since ≤ now) : Spaced interval since after := by
  have ticks : act = .tick → Spaced interval since after := by
    rintro rfl
    exact .of_tick step later
  cases step with
  | rest lowers dies =>
    refine ⟨spaced.late, fun unarmed idle active alive => ?_⟩
    refine spaced.waits unarmed idle (lowers active) ?_
    rw [← Bool.not_eq_true]
    exact fun gone => absurd (alive.symm.trans (dies gone)) (by decide)
  | install idle predicate => exact ⟨spaced.late, spaced.waits⟩
  | begin idle unarmed active alive shown =>
    have stopped := spaced.waits unarmed idle active alive
    rw [stopped, if_pos rfl] at shown
    exact .rearms (.next shown) later unarmed
  | again idle armed => exact spaced
  | late idle => exact ⟨spaced.late, fun _ _ _ alive => by cases alive⟩
  | shut | pass | ask => exact ticks rfl
  | stop asked unarmed => exact ⟨spaced.late, fun _ _ _ _ => rfl⟩
  | rearm asked unarmed goesOn rearms => exact .rearms rearms later unarmed

/-- So a poll that comes up does so when the interval has passed. -/
theorem Spaced.due (spaced : Spaced interval since w) (due : w.Due now) :
    since.nanos + interval.toNanos ≤ now.nanos := by
  obtain ⟨deadline, past, armed⟩ := due.armed
  have late := spaced.late deadline (by simp [armed])
  exact Nat.le_trans late past

theorem Step.due (step : Step interval now w .tick asked after) : w.Due now := by
  cases step with
  | shut due | pass due | ask due => exact due

/-! ## After the predicate has stopped the loop -/

/-- The predicate has stopped the loop, and no poll is armed. -/
structure Paused (w : Watch κ) : Prop where
  idle : w.asking = none
  unarmed : w.armed = 0
  stopped : w.stopped = true

theorem Paused.of_stop (step : Step interval now w (.answer (.ok true)) asked after) : Paused after := by
  cases step with
  | stop asked unarmed => exact ⟨rfl, unarmed, rfl⟩
  | rearm asked unarmed goesOn => exact absurd rfl goesOn

theorem Paused.not_due (paused : Paused w) : ¬ w.Due now := by
  rintro ⟨-, deadline, -, armed⟩
  rw [paused.unarmed] at armed
  cases Multiset.singleton_ne_zero _ armed.symm

/-- Until it is run again the loop does nothing about its predicate but replace it. -/
theorem Paused.step (paused : Paused w) (step : Step interval now w act asked after)
    (other : act ≠ .begin) : Paused after := by
  cases step with
  | rest | install => exact ⟨paused.idle, paused.unarmed, paused.stopped⟩
  | begin | again | late => exact absurd rfl other
  | shut due | pass due | ask due => exact absurd due paused.not_due
  | stop asked | rearm asked => exact absurd paused.idle asked

/-- When it is run again the next poll is an interval away. -/
theorem Paused.begin (paused : Paused w) (step : Step interval now w .begin asked after) :
    Spaced interval now after := by
  cases step with
  | begin idle unarmed active alive shown =>
    rw [paused.stopped, if_pos rfl] at shown
    exact .rearms (.next shown) (Nat.le_refl _) unarmed
  | again idle armed => exact ⟨by simp [paused.unarmed], fun _ _ _ _ => paused.stopped⟩
  | late idle => exact ⟨by simp [paused.unarmed], fun _ _ _ alive => by cases alive⟩

/-! ## What is asked -/

/-- The predicate that an act installs, or that it installs none any more. -/
def Act.installs? : Act κ → Option (Option κ)
  | .install predicate => some predicate
  | _ => none

theorem Step.predicate (step : Step interval now w act asked after) :
    after.predicate.map (·.1) = act.installs?.getD (w.predicate.map (·.1)) := by
  cases step with
  | rest | begin | again | late | shut | stop => rfl
  | install idle predicate => cases predicate <;> rfl
  | pass _ _ _ rearms | rearm _ _ _ rearms => cases rearms <;> rfl
  | ask due active installed =>
    rw [installed]
    rfl

/-- A tick asks what is installed, if no face has been shut down, and if nothing is installed the next poll is
armed at once. -/
theorem Step.tick (step : Step interval now w .tick asked after) (active : w.active = true) :
    asked = w.predicate.toList ∧
      (w.predicate = none → Rearms interval now { w with armed := 0 } after) := by
  cases step with
  | shut due inactive => exact absurd (active.symm.trans inactive) (by decide)
  | pass due active none rearms =>
    exact ⟨by rw [none]; rfl, fun _ => rearms⟩
  | ask due active installed =>
    rw [installed]
    exact ⟨rfl, fun none => by cases none⟩

/-- Only a tick asks, and it asks what is installed. -/
theorem Step.asks (step : Step interval now w act asked after) :
    (asked = [] ∧ (after.asking ≠ none → act = .rest ∧ after.asking = w.asking)) ∨
      act = .tick ∧ w.active = true ∧ ∃ poll, w.predicate = some poll ∧ asked = [poll] ∧
        after.asking = some poll := by
  cases step with
  | rest => exact .inl ⟨rfl, fun _ => ⟨rfl, rfl⟩⟩
  | install idle | begin idle | again idle | late idle => exact .inl ⟨rfl, fun asks => absurd idle asks⟩
  | shut due => exact .inl ⟨rfl, fun asks => absurd due.idle asks⟩
  | pass due active none rearms =>
    refine .inl ⟨rfl, fun asks => absurd ?_ asks⟩
    cases rearms <;> exact due.idle
  | ask due active installed => exact .inr ⟨rfl, active, _, installed, rfl, rfl⟩
  | stop => exact .inl ⟨rfl, fun asks => absurd rfl asks⟩
  | rearm asked unarmed goesOn rearms =>
    refine .inl ⟨rfl, fun asks => absurd ?_ asks⟩
    cases rearms <;> rfl

/-- What is answered has been asked. -/
theorem Step.answered {result : Except CallbackError Bool}
    (step : Step interval now w (.answer result) asked after) : w.asking ≠ none := by
  cases step with
  | stop asked | rearm asked => exact asked

/-- Unless the answer stops the loop the next poll is armed. -/
theorem Step.rearms {result : Except CallbackError Bool}
    (step : Step interval now w (.answer result) asked after) (goesOn : result ≠ .ok true) :
    Rearms interval now { w with asking := none } after := by
  cases step with
  | stop => exact absurd rfl goesOn
  | rearm asked unarmed goesOn rearms => exact rearms

end Watch

end NamedData
