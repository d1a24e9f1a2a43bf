/-!
# Durations

A length of time in whole nanoseconds, up to the longest that 64-bit seconds
can hold.  Multiplication stops at that bound, and a sum beyond it has no
value.

* `scale_nanos` and `min_nanos` give the operations on nanoseconds;
* `ofNanos?_eq_none_iff` says which sums have no value.
-/

namespace Clipboard

/-- The nanoseconds in a second. -/
def nanosPerSecond : Nat := 1000000000

/-- The nanoseconds of the longest duration. -/
def longestNanos : Nat := 18446744073709551616 * nanosPerSecond - 1

/-- A length of time. -/
structure Duration where
  nanos : Nat
  nanos_le : nanos ≤ longestNanos
  deriving DecidableEq, Repr

namespace Duration

/-- The duration of so many nanoseconds, or the longest there is. -/
def ofNanos (n : Nat) : Duration := ⟨min n longestNanos, Nat.min_le_right _ _⟩

/-- The duration of seconds and nanoseconds. -/
def ofParts (seconds nanos : Nat) : Duration := ofNanos (seconds * nanosPerSecond + nanos)

/-- The duration of milliseconds. -/
def ofMillis (n : Nat) : Duration := ofNanos (n * 1000000)

/-- No time. -/
def zero : Duration := ⟨0, Nat.zero_le _⟩

/-- The whole seconds. -/
def seconds (d : Duration) : Nat := d.nanos / nanosPerSecond

/-- The nanoseconds beyond the whole seconds. -/
def subsecond (d : Duration) : Nat := d.nanos % nanosPerSecond

/-- The whole milliseconds. -/
def millis (d : Duration) : Nat := d.nanos / 1000000

/-- The duration so many times over, or the longest there is. -/
def scale (d : Duration) (k : Nat) : Duration := ofNanos (d.nanos * k)

/-- The shorter of two durations. -/
def min (d e : Duration) : Duration := if d.nanos ≤ e.nanos then d else e

/-- The duration of so many nanoseconds, if there is one. -/
def ofNanos? (n : Nat) : Option Duration :=
  if h : n ≤ longestNanos then some ⟨n, h⟩ else none

/-- Multiplication is that of nanoseconds, up to the longest duration. -/
theorem scale_nanos (d : Duration) (k : Nat) :
    (d.scale k).nanos = Nat.min (d.nanos * k) longestNanos := rfl

/-- The shorter duration has fewer nanoseconds. -/
theorem min_nanos (d e : Duration) : (d.min e).nanos = Nat.min d.nanos e.nanos := by
  unfold min
  split
  · next h => exact (Nat.min_eq_left h).symm
  · next h => exact (Nat.min_eq_right (by omega)).symm

/-- A duration has the nanoseconds it was made of, or none is long enough. -/
theorem ofNanos?_eq_none_iff {n : Nat} : ofNanos? n = none ↔ longestNanos < n := by
  unfold ofNanos?
  split <;> simp <;> omega

end Duration

end Clipboard
