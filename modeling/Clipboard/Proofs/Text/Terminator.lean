import Mathlib.Data.List.TakeWhile

/-!
# Text before its terminator

Where NUL ends a text, only what stands before the first NUL belongs to it.
Writing goes character by character, so a text may be cut before or after it is
written, as long as NUL is the only character whose first unit is zero and no
other character has a zero unit: `takeWhile_flatMap`.  What a unit is worth is
told by the number of its character: `toNat_charOfNat`.
-/

namespace Clipboard

/-- A character has the number that it is made of. -/
theorem toNat_charOfNat {n : Nat} (h : n < 0xD800 ∨ (0xDFFF < n ∧ n < 0x110000)) :
    (Char.ofNat n).toNat = n := by
  rw [Char.ofNat, dif_pos h]
  rfl

/-- The characters before the first NUL, or all of them. -/
def untilNul (text : List Char) : List Char := text.takeWhile (· != '\x00')

/-- Cutting commutes with writing each character in units: the units of a
character that is kept are all kept, and the first unit of any other is not. -/
theorem takeWhile_flatMap {α β : Type} {f : α → List β} {keep : α → Bool} {keepUnit : β → Bool}
    (hkeep : ∀ a, keep a → ∀ b ∈ f a, keepUnit b)
    (hstop : ∀ a, ¬ keep a → ∃ b rest, f a = b :: rest ∧ ¬ keepUnit b) (text : List α) :
    (text.flatMap f).takeWhile keepUnit = (text.takeWhile keep).flatMap f := by
  induction text with
  | nil => rfl
  | cons a text ih =>
      by_cases ha : keep a
      · rw [List.flatMap_cons, List.takeWhile_append_of_pos (hkeep a ha), ih,
          List.takeWhile_cons_of_pos ha, List.flatMap_cons]
      · obtain ⟨b, rest, hf, hb⟩ := hstop a ha
        rw [List.flatMap_cons, hf, List.cons_append, List.takeWhile_cons_of_neg hb,
          List.takeWhile_cons_of_neg ha, List.flatMap_nil]

theorem ne_nul_of_mem {text : List Char} (h : '\x00' ∉ text) :
    ∀ c ∈ text, (c != '\x00') = true :=
  fun _ hc => bne_iff_ne.mpr fun e => h (e ▸ hc)

theorem mem_of_mem_untilNul {text : List Char} {c : Char} (h : c ∈ untilNul text) : c ∈ text :=
  List.takeWhile_subset _ h

theorem untilNul_append_nul {text : List Char} (h : '\x00' ∉ text) (rest : List Char) :
    untilNul (text ++ '\x00' :: rest) = text := by
  rw [untilNul, List.takeWhile_append_of_pos (ne_nul_of_mem h),
    List.takeWhile_cons_of_neg (by decide), List.append_nil]

end Clipboard
