import Clipboard.Duration

/-!
# The retry schedule

An opening that finds the clipboard busy is tried again after a pause.  The
first pause is given, each further one is twice as long, up to sixteen
doublings, and none is longer than a bound.

* `pause_nanos` gives a pause in exact nanoseconds;
* `totalNanos` adds up all pauses of a policy.
-/

namespace Clipboard

/-- How often to try and how long to wait between tries. -/
structure Policy where
  /-- Tries in all; none counts as one. -/
  attempts : Nat := 5
  /-- The pause after the first try. -/
  initial : Duration := Duration.ofMillis 10
  /-- No pause is longer. -/
  longest : Duration := Duration.ofMillis 200
  deriving DecidableEq, Repr

namespace Policy

/-- The tries that are made at most. -/
def tries (p : Policy) : Nat := max 1 p.attempts

/-- There is always a first try. -/
theorem tries_pos (p : Policy) : 0 < p.tries := Nat.le_max_left 1 p.attempts

/-- How often the first pause has been doubled after try `n`. -/
def doublings (n : Nat) : Nat := min (n - 1) 16

/-- The pause after try `n`, counted from one. -/
def pause (p : Policy) (n : Nat) : Duration :=
  (p.initial.scale (Nat.pow 2 (doublings n))).min p.longest

/-- The nanoseconds of the pauses after the first `n` tries. -/
def nanosUpTo (p : Policy) : Nat → Nat
  | 0 => 0
  | n + 1 => nanosUpTo p n + (p.pause (n + 1)).nanos

/-- The nanoseconds of all pauses when every try but the last finds the
clipboard busy.  From the seventeenth pause on all are alike. -/
def totalNanos (p : Policy) : Nat :=
  let pauses := p.tries - 1
  p.nanosUpTo (min pauses 16) + (pauses - 16) * (p.pause 17).nanos

/-- The longest time spent in pauses, if it is a duration. -/
def budget? (p : Policy) : Option Duration := Duration.ofNanos? p.totalNanos

/-- A pause is never longer than the bound, and the doubling never shows that
durations end somewhere. -/
theorem pause_nanos (p : Policy) (n : Nat) :
    (p.pause n).nanos = min (p.initial.nanos * Nat.pow 2 (doublings n)) p.longest.nanos := by
  rw [pause, Duration.min_nanos, Duration.scale_nanos]
  have := p.longest.nanos_le
  show min (min _ _) _ = _
  omega

end Policy

end Clipboard
