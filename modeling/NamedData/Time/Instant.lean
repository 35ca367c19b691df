import NamedData.Time.Duration

/-!
Points in time on a monotone clock.

A point is counted in nanoseconds, but a clock can only show points whose seconds fit a signed
64-bit number. Adding a span is therefore partial: `Instant.add?` is `none` exactly when the sum
lies beyond the last point the clock can show.
-/
namespace NamedData

/-- A point in time, in nanoseconds since the clock's origin. -/
structure Instant where
  nanos : Nat
deriving DecidableEq, Inhabited

namespace Instant

/-- The number of seconds that no clock reaches. -/
def secondsLimit : Nat := 1 <<< 63

instance : LE Instant := ⟨fun a b => a.nanos ≤ b.nanos⟩

instance : LT Instant := ⟨fun a b => a.nanos < b.nanos⟩

instance (a b : Instant) : Decidable (a ≤ b) := inferInstanceAs (Decidable (a.nanos ≤ b.nanos))

instance (a b : Instant) : Decidable (a < b) := inferInstanceAs (Decidable (a.nanos < b.nanos))

theorem le_def {a b : Instant} : a ≤ b ↔ a.nanos ≤ b.nanos := Iff.rfl

theorem lt_def {a b : Instant} : a < b ↔ a.nanos < b.nanos := Iff.rfl

/-- The point a span later, if the clock can show it. -/
def add? (i : Instant) (d : Duration) : Option Instant :=
  let sum := i.nanos + d.toNanos
  if sum < secondsLimit * 1000000000 then some ⟨sum⟩ else none

/-- The whole milliseconds since the origin, rounded up. Timers fire on this grid. -/
def ceilMillis (i : Instant) : Nat := (i.nanos + 999999) / 1000000

/-- The point a number of milliseconds after the origin. -/
def ofMillis (ms : Nat) : Instant := ⟨ms * 1000000⟩

theorem nanos_of_add? {i j : Instant} {d : Duration} (h : i.add? d = some j) :
    j.nanos = i.nanos + d.toNanos := by
  simp only [add?] at h
  split at h
  · cases h; rfl
  · cases h

/-- Adding a span fails exactly when the sum is out of the clock's range. -/
theorem add?_eq_none_iff {i : Instant} {d : Duration} :
    i.add? d = none ↔ secondsLimit * 1000000000 ≤ i.nanos + d.toNanos := by
  simp only [add?]
  split <;> simp <;> omega

@[simp] theorem ceilMillis_ofMillis (ms : Nat) : (ofMillis ms).ceilMillis = ms := by
  simp only [ceilMillis, ofMillis]
  omega

end Instant

end NamedData
