import Clipboard.Proofs.Text.Utf16

/-!
# What UTF-16 can be read

The reader takes no units but those that some text is written in.  Between characters it takes
a unit that is no surrogate as the character of its number, and a first half of a pair only
together with a second half, which make up a character above U+FFFF.

* `unitsOfChar_ofNat`, `unitsOfChar_pair`: a character that is read is written in the units
  that it was read from;
* `ofUnits?_eq_some_iff`: what spells a text is what a text is written in;
* `octetsOf_unitsOf`: octets of an even number are those of their units.
-/

namespace Clipboard.Utf16

theorem isHigh_iff {u : UInt16} : isHigh u = true ↔ 0xD800 ≤ u.toNat ∧ u.toNat < 0xDC00 := by
  rw [isHigh_eq, decide_eq_true_iff]

theorem isLow_iff {u : UInt16} : isLow u = true ↔ 0xDC00 ≤ u.toNat ∧ u.toNat < 0xE000 := by
  rw [isLow_eq, decide_eq_true_iff]

/-- A unit that is no half of a pair is the one unit of its character. -/
theorem unitsOfChar_ofNat {u : UInt16} (hhigh : ¬ isHigh u = true) (hlow : ¬ isLow u = true) :
    unitsOfChar (Char.ofNat u.toNat) = [u] := by
  rw [isHigh_iff] at hhigh
  rw [isLow_iff] at hlow
  have hu : u.toNat < 65536 := u.toNat_lt
  rw [unitsOfChar, toNat_charOfNat (by omega), if_pos hu, UInt16.ofNat_toNat]

/-- The two halves of a pair are the units of their character. -/
theorem unitsOfChar_pair {high low : UInt16} (hhigh : isHigh high = true)
    (hlow : isLow low = true) : unitsOfChar (pair high low) = [high, low] := by
  rw [isHigh_iff] at hhigh
  rw [isLow_iff] at hlow
  obtain ⟨a, ha, hha⟩ : ∃ a, a < 1024 ∧ high.toNat = 0xD800 + a :=
    ⟨high.toNat - 0xD800, by omega, by omega⟩
  obtain ⟨b, hb, hlb⟩ : ∃ b, b < 1024 ∧ low.toNat = 0xDC00 + b :=
    ⟨low.toNat - 0xDC00, by omega, by omega⟩
  have hfirst : 0xD800 + (0x10000 + a * 1024 + b - 0x10000) / 1024 = high.toNat := by omega
  have hsecond : 0xDC00 + (0x10000 + a * 1024 + b - 0x10000) % 1024 = low.toNat := by omega
  have hvalue : (pair high low).toNat = 0x10000 + a * 1024 + b := by
    rw [pair, hha, hlb, Nat.add_sub_cancel_left, Nat.add_sub_cancel_left]
    exact toNat_charOfNat (by omega)
  rw [unitsOfChar, hvalue, if_neg (by omega), hfirst, hsecond, UInt16.ofNat_toNat,
    UInt16.ofNat_toNat]

/-- What is read on as a text is what was read before and the rest of it, written; the rest
begins with the half of a pair that still waits for the other. -/
theorem units_of_ofUnitsFrom {done text : List Char} {waiting : Option UInt16}
    {us : List UInt16} (hwaiting : ∀ u ∈ waiting, isHigh u = true)
    (h : ofUnitsFrom done waiting us = some text) :
    ∃ rest, text = done.reverse ++ rest ∧ units rest = waiting.toList ++ us := by
  fun_induction ofUnitsFrom done waiting us with
  | case1 done => exact ⟨[], by simpa using h.symm, rfl⟩
  | case2 => cases h
  | case3 done u us hhigh ih => exact ih (fun v hv => by cases hv; exact hhigh) h
  | case4 => cases h
  | case5 done u us hhigh hlow ih =>
      obtain ⟨rest, rfl, hrest⟩ := ih (by simp) h
      refine ⟨Char.ofNat u.toNat :: rest, by simp, ?_⟩
      show unitsOfChar _ ++ units rest = _
      rw [unitsOfChar_ofNat hhigh hlow, hrest]
      rfl
  | case6 done high u us hlow ih =>
      obtain ⟨rest, rfl, hrest⟩ := ih (by simp) h
      refine ⟨pair high u :: rest, by simp, ?_⟩
      show unitsOfChar _ ++ units rest = _
      rw [unitsOfChar_pair (hwaiting high rfl) hlow, hrest]
      rfl
  | case7 => cases h

/-- What spells a text is what a text is written in. -/
theorem ofUnits?_eq_some_iff {us : List UInt16} {text : List Char} :
    ofUnits? us = some text ↔ us = units text := by
  constructor
  · intro h
    obtain ⟨rest, rfl, hrest⟩ := units_of_ofUnitsFrom (by simp) h
    exact hrest.symm
  · rintro rfl
    exact ofUnits?_units text

/-- A unit has the octets that it is made of. -/
theorem octetsOfUnit_unit (low high : UInt8) : octetsOfUnit (unit low high) = [low, high] := by
  have hl : low.toNat < 256 := low.toNat_lt
  have hh : high.toNat < 256 := high.toNat_lt
  have hvalue : (unit low high).toNat = low.toNat + 256 * high.toNat :=
    toNat_ofNat_lt (by omega)
  have hfirst : (low.toNat + 256 * high.toNat) % 256 = low.toNat := by omega
  have hsecond : (low.toNat + 256 * high.toNat) / 256 = high.toNat := by omega
  rw [octetsOfUnit, hvalue, hfirst, hsecond, UInt8.ofNat_toNat, UInt8.ofNat_toNat]

/-- Different units have different octets. -/
theorem octetsOfUnit_injective : Function.Injective octetsOfUnit := by
  intro u v h
  have hback : ∀ w : UInt16, unitsOf (octetsOfUnit w) = [w] := fun w =>
    unitsOf_octetsOf [w]
  exact List.singleton_inj.mp ((hback u).symm.trans ((congrArg unitsOf h).trans (hback v)))

theorem unitsFrom_append (done before : List UInt16) (bytes : Octets) :
    unitsFrom (done ++ before) bytes = before.reverse ++ unitsFrom done bytes := by
  fun_induction unitsFrom done bytes with
  | case1 done low high rest ih => rw [unitsFrom, ← List.cons_append, ih]
  | case2 done bytes hshort =>
      rw [unitsFrom, List.reverse_append]
      exact hshort

@[simp] theorem unitsOf_cons (low high : UInt8) (rest : Octets) :
    unitsOf (low :: high :: rest) = unit low high :: unitsOf rest := by
  rw [unitsOf, unitsFrom, ← List.nil_append [unit low high], unitsFrom_append]
  rfl

/-- Octets of an even number are those of their units. -/
theorem octetsOf_unitsOf : ∀ {bytes : Octets}, bytes.length % 2 = 0 →
    octetsOf (unitsOf bytes) = bytes
  | [], _ => rfl
  | [_], h => absurd h Nat.one_ne_zero
  | low :: high :: rest, h => by
      have hrest : rest.length % 2 = 0 := by
        rw [List.length_cons, List.length_cons] at h
        omega
      rw [unitsOf_cons]
      show octetsOfUnit _ ++ octetsOf (unitsOf rest) = _
      rw [octetsOfUnit_unit, octetsOf_unitsOf hrest]
      rfl

end Clipboard.Utf16
