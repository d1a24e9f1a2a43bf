import Clipboard.Text.Utf16
import Clipboard.Proofs.Text.Terminator

/-!
# Reading UTF-16 that was written

A surrogate is never the unit of a character by itself, so a reader between
characters takes the units of one character for just that character.

* `unitsOf_octetsOf`: the octets of units are read back as those units;
* `ofUnits?_units`: every text is read back;
* `untilZero_units`: a text may be cut at its first NUL before or after it is
  written, since no other character has a zero unit, whatever its octets are.
-/

namespace Clipboard.Utf16

/-- The two octets of a unit make up that unit. -/
theorem unit_octets (u : UInt16) : unit (.ofNat (u.toNat % 256)) (.ofNat (u.toNat / 256)) = u := by
  have hu : u.toNat < 65536 := u.toNat_lt
  have hlow : (UInt8.ofNat (u.toNat % 256)).toNat = u.toNat % 256 :=
    UInt8.toNat_ofNat_of_lt' (Nat.mod_lt _ (by decide))
  have hhigh : (UInt8.ofNat (u.toNat / 256)).toNat = u.toNat / 256 :=
    UInt8.toNat_ofNat_of_lt' (show u.toNat / 256 < 256 by omega)
  have hsum : u.toNat % 256 + 256 * (u.toNat / 256) = u.toNat := by omega
  rw [unit, hlow, hhigh, hsum, UInt16.ofNat_toNat]

theorem unitsFrom_octetsOf (done units : List UInt16) :
    unitsFrom done (octetsOf units) = done.reverse ++ units := by
  induction units generalizing done with
  | nil => simp [octetsOf, unitsFrom]
  | cons u units ih =>
      show unitsFrom done (_ :: _ :: octetsOf units) = _
      rw [unitsFrom, unit_octets, ih, List.reverse_cons, List.append_assoc, List.singleton_append]

/-- Units are read back from their octets. -/
theorem unitsOf_octetsOf (units : List UInt16) : unitsOf (octetsOf units) = units :=
  unitsFrom_octetsOf [] units

theorem octetsOf_append (us vs : List UInt16) : octetsOf (us ++ vs) = octetsOf us ++ octetsOf vs :=
  List.flatMap_append

theorem length_octetsOf (units : List UInt16) : (octetsOf units).length = 2 * units.length := by
  induction units with
  | nil => rfl
  | cons u units ih =>
      show (octetsOf units).length + 1 + 1 = 2 * (units.length + 1)
      omega

theorem toNat_ofNat_lt {n : Nat} (h : n < 65536) : (UInt16.ofNat n).toNat = n :=
  UInt16.toNat_ofNat_of_lt' h

theorem isHigh_eq (u : UInt16) : isHigh u = decide (0xD800 ≤ u.toNat ∧ u.toNat < 0xDC00) := by
  simp [isHigh, UInt16.le_iff_toNat_le, UInt16.lt_iff_toNat_lt]

theorem isLow_eq (u : UInt16) : isLow u = decide (0xDC00 ≤ u.toNat ∧ u.toNat < 0xE000) := by
  simp [isLow, UInt16.le_iff_toNat_le, UInt16.lt_iff_toNat_lt]

section

variable (done : List Char) {n : Nat} (rest : List UInt16)

theorem ofUnitsFrom_oneUnit (h : n < 0xD800 ∨ (0xDFFF < n ∧ n < 0x10000)) :
    ofUnitsFrom done none (.ofNat n :: rest) = ofUnitsFrom (Char.ofNat n :: done) none rest := by
  have hn : (UInt16.ofNat n).toNat = n := toNat_ofNat_lt (by omega)
  have hhigh : isHigh (.ofNat n) = false := by
    rw [isHigh_eq, hn]
    exact decide_eq_false (by omega)
  have hlow : isLow (.ofNat n) = false := by
    rw [isLow_eq, hn]
    exact decide_eq_false (by omega)
  rw [ofUnitsFrom, hhigh, hlow, hn]
  rfl

theorem ofUnitsFrom_twoUnits (h : 0x10000 ≤ n) (h' : n < 0x110000) :
    ofUnitsFrom done none
        (.ofNat (0xD800 + (n - 0x10000) / 1024) :: .ofNat (0xDC00 + (n - 0x10000) % 1024) :: rest) =
      ofUnitsFrom (Char.ofNat n :: done) none rest := by
  have hm : (n - 0x10000) % 1024 < 1024 := Nat.mod_lt _ (by decide)
  have hn₁ : (UInt16.ofNat (0xD800 + (n - 0x10000) / 1024)).toNat =
      0xD800 + (n - 0x10000) / 1024 := toNat_ofNat_lt (by omega)
  have hn₂ : (UInt16.ofNat (0xDC00 + (n - 0x10000) % 1024)).toNat =
      0xDC00 + (n - 0x10000) % 1024 := toNat_ofNat_lt (by omega)
  have hhigh : isHigh (.ofNat (0xD800 + (n - 0x10000) / 1024)) = true := by
    rw [isHigh_eq, hn₁]
    exact decide_eq_true (by omega)
  have hlow : isLow (.ofNat (0xDC00 + (n - 0x10000) % 1024)) = true := by
    rw [isLow_eq, hn₂]
    exact decide_eq_true (by omega)
  have hvalue : 0x10000 + (0xD800 + (n - 0x10000) / 1024 - 0xD800) * 1024 +
      (0xDC00 + (n - 0x10000) % 1024 - 0xDC00) = n := by omega
  rw [ofUnitsFrom, if_pos hhigh, ofUnitsFrom, if_pos hlow, pair, hn₁, hn₂, hvalue]

/-- The units of a character lead from one boundary to the next. -/
theorem ofUnitsFrom_unitsOfChar (c : Char) :
    ofUnitsFrom done none (unitsOfChar c ++ rest) = ofUnitsFrom (c :: done) none rest := by
  have hrange : c.toNat < 0xD800 ∨ (0xDFFF < c.toNat ∧ c.toNat < 0x110000) := c.valid
  have hback : Char.ofNat c.toNat = c := Char.ofNat_toNat c
  unfold unitsOfChar
  generalize c.toNat = n at hrange hback ⊢
  subst hback
  dsimp only
  split
  · exact ofUnitsFrom_oneUnit done rest (by omega)
  · exact ofUnitsFrom_twoUnits done rest (by omega) (by omega)

end

theorem ofUnitsFrom_units (done text : List Char) :
    ofUnitsFrom done none (units text) = some (done.reverse ++ text) := by
  induction text generalizing done with
  | nil => simp [units, ofUnitsFrom]
  | cons c text ih =>
      show ofUnitsFrom done none (unitsOfChar c ++ units text) = _
      rw [ofUnitsFrom_unitsOfChar, ih, List.reverse_cons, List.append_assoc, List.singleton_append]

/-- Every text is read back. -/
theorem ofUnits?_units (text : List Char) : ofUnits? (units text) = some text :=
  ofUnitsFrom_units [] text

/-- NUL is the unit zero, and no other character has a zero unit. -/
theorem ne_zero_of_mem_unitsOfChar {c : Char} (hc : c ≠ '\x00') {u : UInt16}
    (hu : u ∈ unitsOfChar c) : u ≠ 0 := by
  have hrange : c.toNat < 0xD800 ∨ (0xDFFF < c.toNat ∧ c.toNat < 0x110000) := c.valid
  have hn : c.toNat ≠ 0 := fun h => hc (Char.toNat_inj.mp h)
  have hunit : ∀ m, 0 < m → m < 65536 → UInt16.ofNat m ≠ 0 := by
    intro m hpos hlt hzero
    have := congrArg UInt16.toNat hzero
    rw [toNat_ofNat_lt hlt] at this
    exact absurd this (Nat.ne_of_gt hpos)
  unfold unitsOfChar at hu
  generalize c.toNat = n at hrange hn hu
  dsimp only at hu
  split at hu
  · rw [List.mem_singleton.mp hu]
    exact hunit n (by omega) (by omega)
  · simp only [List.mem_cons, List.not_mem_nil, or_false] at hu
    rcases hu with rfl | rfl <;> exact hunit _ (by omega) (by omega)

/-- A text has a zero unit where it holds NUL. -/
theorem zero_mem_units_iff {text : List Char} : 0 ∈ units text ↔ '\x00' ∈ text := by
  rw [units, List.mem_flatMap]
  constructor
  · rintro ⟨c, hc, hzero⟩
    by_cases hnul : c = '\x00'
    · exact hnul ▸ hc
    · exact absurd rfl (ne_zero_of_mem_unitsOfChar hnul hzero)
  · exact fun hnul => ⟨'\x00', hnul, by decide⟩

/-- A text may be cut before or after it is written. -/
theorem untilZero_units (text : List Char) : untilZero (units text) = units (untilNul text) := by
  refine takeWhile_flatMap ?_ ?_ text
  · intro c hc u hu
    exact bne_iff_ne.mpr (ne_zero_of_mem_unitsOfChar (bne_iff_ne.mp hc) hu)
  · intro c hc
    have hc : c = '\x00' := by simpa using hc
    subst hc
    exact ⟨0, [], rfl, by decide⟩

end Clipboard.Utf16
