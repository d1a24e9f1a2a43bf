import Mathlib.Data.List.TakeWhile
import Clipboard.Payload
import Clipboard.Proofs.Text.Utf16Reading

/-!
# Code units

The octets of an encoding come in units of its width, two octets for UTF-16 and one for the
others, and the unit of zero octets stands for NUL.  Two zero octets of different units are no
NUL, so a cut at NUL goes by units.

* `units_append`: units go on behind whole units;
* `beforeNul_append`: what comes after a NUL unit is cut off, whatever it is;
* `nulUnit_notMem_beforeNul`: what is left holds no NUL unit.
-/

namespace Clipboard.Encoding

/-- Octets in pairs, with an octet that is left over by itself. -/
def pairs : Octets → List Octets
  | low :: high :: rest => [low, high] :: pairs rest
  | [b] => [[b]]
  | [] => []

/-- The units of octets in an encoding. -/
def units (e : Encoding) (bytes : Octets) : List Octets :=
  if e = .utf16le then pairs bytes else bytes.map fun b => [b]

/-- The unit that NUL is. -/
def nulUnit (e : Encoding) : Octets := List.replicate e.unitWidth 0

/-- The octets of the units before the first NUL unit, or all of them. -/
def beforeNul (e : Encoding) (bytes : Octets) : Octets :=
  ((e.units bytes).takeWhile (· != e.nulUnit)).flatten

/-- Octets end where a unit ends. -/
def Whole (e : Encoding) (bytes : Octets) : Prop := e.unitWidth ∣ bytes.length

theorem unitWidth_of_ne {e : Encoding} (h : e ≠ .utf16le) : e.unitWidth = 1 := by
  cases e <;> first | rfl | exact absurd rfl h

theorem nulUnit_of_ne {e : Encoding} (h : e ≠ .utf16le) : e.nulUnit = [0] := by
  rw [nulUnit, unitWidth_of_ne h]
  rfl

theorem pairs_append {before : Octets} (h : before.length % 2 = 0) (later : Octets) :
    pairs (before ++ later) = pairs before ++ pairs later := by
  fun_induction pairs before with
  | case1 low high rest ih =>
      have hrest : rest.length % 2 = 0 := by
        rw [List.length_cons, List.length_cons] at h
        omega
      rw [List.cons_append, List.cons_append, pairs, ih hrest, List.cons_append]
  | case2 b => exact absurd h Nat.one_ne_zero
  | case3 => rfl

theorem whole_nulUnit (e : Encoding) : e.Whole e.nulUnit := by
  have hlength : e.nulUnit.length = e.unitWidth := List.length_replicate
  exact ⟨1, by rw [Nat.mul_one, hlength]⟩

theorem Whole.append {e : Encoding} {before later : Octets} (h : e.Whole before)
    (hlater : e.Whole later) : e.Whole (before ++ later) := by
  rw [Whole, List.length_append]
  exact Nat.dvd_add h hlater

theorem whole_utf16le_iff {bytes : Octets} :
    Whole .utf16le bytes ↔ bytes.length % 2 = 0 := Nat.dvd_iff_mod_eq_zero

/-- Units go on behind whole units. -/
theorem units_append {e : Encoding} {before : Octets} (h : e.Whole before) (later : Octets) :
    e.units (before ++ later) = e.units before ++ e.units later := by
  unfold units
  split
  · next he =>
      subst he
      exact pairs_append (whole_utf16le_iff.mp h) later
  · exact List.map_append

/-- NUL is one unit. -/
theorem units_nulUnit (e : Encoding) : e.units e.nulUnit = [e.nulUnit] := by
  cases e <;> rfl

theorem pairs_takeWhile (keep : Octets → Bool) (bytes : Octets) :
    pairs ((pairs bytes).takeWhile keep).flatten = (pairs bytes).takeWhile keep := by
  fun_induction pairs bytes with
  | case1 low high rest ih =>
      by_cases hkeep : keep [low, high] = true
      · rw [List.takeWhile_cons_of_pos hkeep, List.flatten_cons]
        show [low, high] :: pairs _ = _
        exact congrArg ([low, high] :: ·) ih
      · rw [List.takeWhile_cons_of_neg hkeep]
        rfl
  | case2 b =>
      by_cases hkeep : keep [b] = true
      · rw [List.takeWhile_cons_of_pos hkeep]
        rfl
      · rw [List.takeWhile_cons_of_neg hkeep]
        rfl
  | case3 => rfl

theorem takeWhile_append_stop {α : Type} {keep : α → Bool} {stop : α} (h : ¬ keep stop = true)
    (xs ys : List α) : (xs ++ stop :: ys).takeWhile keep = xs.takeWhile keep := by
  rw [List.takeWhile_append, List.takeWhile_cons_of_neg h, List.append_nil]
  split
  · next hall => exact (List.takeWhile_prefix keep).eq_of_length hall |>.symm
  · rfl

/-- Octets of units are cut where the units are. -/
theorem pairs_octetsOf (us : List UInt16) :
    pairs (Utf16.octetsOf us) = us.map Utf16.octetsOfUnit := by
  induction us with
  | nil => rfl
  | cons u us ih =>
      show Utf16.octetsOfUnit u :: pairs (Utf16.octetsOf us) = _
      rw [ih, List.map_cons]

theorem beforeNul_octetsOf (us : List UInt16) :
    beforeNul .utf16le (Utf16.octetsOf us) = Utf16.octetsOf (Utf16.untilZero us) := by
  have hunits : units .utf16le (Utf16.octetsOf us) = us.map Utf16.octetsOfUnit :=
    pairs_octetsOf us
  have hkeep : ((· != nulUnit .utf16le) ∘ Utf16.octetsOfUnit) = (· != 0) := by
    funext u
    have hnul : Utf16.octetsOfUnit u = nulUnit .utf16le ↔ u = 0 :=
      Utf16.octetsOfUnit_injective.eq_iff (b := 0)
    exact Bool.eq_iff_iff.mpr (by simp [hnul])
  rw [beforeNul, hunits, List.takeWhile_map, hkeep]
  exact List.flatMap_def.symm

/-- Single octets are kept or cut off one by one. -/
theorem takeWhile_singletons (bytes : Octets) :
    (bytes.map fun b => [b]).takeWhile (· != [0]) = bytes.untilZero.map fun b => [b] := by
  rw [List.takeWhile_map, Octets.untilZero]
  congr 2
  funext b
  exact Bool.eq_iff_iff.mpr (by simp)

/-- Where a unit is an octet, what stands before NUL are the octets before a zero octet. -/
theorem beforeNul_of_ne {e : Encoding} (h : e ≠ .utf16le) (bytes : Octets) :
    e.beforeNul bytes = bytes.untilZero := by
  rw [beforeNul, nulUnit_of_ne h, units, if_neg h, takeWhile_singletons]
  exact List.flatMap_singleton' _

/-- The units before the first NUL are units as before. -/
theorem units_beforeNul_eq (e : Encoding) (bytes : Octets) :
    e.units (e.beforeNul bytes) = (e.units bytes).takeWhile (· != e.nulUnit) := by
  by_cases he : e = .utf16le
  · rw [beforeNul, units, units, if_pos he, if_pos he, pairs_takeWhile]
  · rw [beforeNul_of_ne he, nulUnit_of_ne he, units, units, if_neg he, if_neg he,
      takeWhile_singletons]

/-- What stands before the first NUL unit holds none. -/
theorem nulUnit_notMem_beforeNul (e : Encoding) (bytes : Octets) :
    e.nulUnit ∉ e.units (e.beforeNul bytes) := by
  intro hmem
  rw [units_beforeNul_eq] at hmem
  have hkept := List.mem_takeWhile_imp hmem
  exact bne_iff_ne.mp hkept rfl

/-- What comes after a NUL unit is cut off, whatever it is. -/
theorem beforeNul_append {e : Encoding} {before : Octets} (h : e.Whole before)
    (later : Octets) : e.beforeNul (before ++ e.nulUnit ++ later) = e.beforeNul before := by
  have hunits : e.units (before ++ e.nulUnit ++ later) =
      e.units before ++ e.nulUnit :: e.units later := by
    rw [List.append_assoc, units_append h, units_append (whole_nulUnit e), units_nulUnit]
    rfl
  rw [beforeNul, beforeNul, hunits, takeWhile_append_stop (by simp)]

end Clipboard.Encoding
