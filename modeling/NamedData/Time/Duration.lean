/-!
Spans of time: whole seconds in 64 bits and a fraction counted in nanoseconds.
-/
namespace NamedData

/-- A span of time. The fraction is always less than a second. -/
structure Duration where
  secs : UInt64
  nanos : UInt32
  nanos_lt : nanos.toNat < 1000000000
deriving DecidableEq

namespace Duration

/-- No time at all. -/
def zero : Duration := ⟨0, 0, by decide⟩

instance : Inhabited Duration := ⟨zero⟩

/-- A span given in milliseconds. -/
def ofMillis (ms : UInt64) : Duration :=
  ⟨ms / 1000, UInt32.ofNat (1000000 * (ms.toNat % 1000)), by
    have : 1000000 * (ms.toNat % 1000) < 1000000000 := by omega
    rw [UInt32.toNat_ofNat_of_lt' (by simp only [UInt32.size]; omega)]
    exact this⟩

/-- Seconds and nanoseconds, whole seconds among the nanoseconds being carried over.
`none` when the carry does not fit. -/
def ofParts? (secs : UInt64) (nanos : UInt32) : Option Duration :=
  let carried := secs.toNat + nanos.toNat / 1000000000
  if carried < UInt64.size then
    some ⟨UInt64.ofNat carried, UInt32.ofNat (nanos.toNat % 1000000000), by
      have : nanos.toNat % 1000000000 < 1000000000 := by omega
      rw [UInt32.toNat_ofNat_of_lt' (by simp only [UInt32.size]; omega)]
      exact this⟩
  else none

/-- The span as a number of nanoseconds. -/
def toNanos (d : Duration) : Nat := 1000000000 * d.secs.toNat + d.nanos.toNat

@[simp] theorem toNanos_zero : zero.toNanos = 0 := rfl

theorem toNanos_ofMillis (ms : UInt64) : (ofMillis ms).toNanos = ms.toNat * 1000000 := by
  simp only [toNanos, ofMillis, UInt64.toNat_div]
  rw [UInt32.toNat_ofNat_of_lt' (by simp only [UInt32.size]; omega)]
  have : (1000 : UInt64).toNat = 1000 := rfl
  rw [this]
  omega

end Duration

end NamedData
