import Clipboard.Text.Blank
import Clipboard.Text.Decimal
import Mathlib.Data.List.Basic

/-!
# White space around a text

White space around a text is dropped, and the text is left if it has none at its ends.  A text that
can be read as a number has none anywhere, so that the number is the same with white space dropped
and without.

* `trimChars_padded`: what is left of a text with white space around it;
* `trimChars_of_read`: nothing is dropped from a number.
-/

namespace Clipboard

namespace Blank

/-- White space before a text that does not begin with any is dropped. -/
theorem dropWhile_padding {padding text : List Char} (hpadding : ∀ c ∈ padding, isBlank c = true)
    (hfirst : ∀ c ∈ text.head?, isBlank c = false) :
    (padding ++ text).dropWhile isBlank = text := by
  rw [List.dropWhile_append_of_pos hpadding]
  cases text with
  | nil => rfl
  | cons c rest => exact List.dropWhile_cons_of_neg (by simp [hfirst c rfl])

/-- A text that neither begins nor ends with white space is what is left of it and of any
white space around it. -/
theorem trimChars_padded {left right text : List Char} (hleft : ∀ c ∈ left, isBlank c = true)
    (hright : ∀ c ∈ right, isBlank c = true) (hne : text ≠ [])
    (hfirst : ∀ c ∈ text.head?, isBlank c = false)
    (hlast : ∀ c ∈ text.getLast?, isBlank c = false) :
    trimChars (left ++ text ++ right) = text := by
  have hfirst' : ∀ c ∈ (text ++ right).head?, isBlank c = false := by
    obtain ⟨c, rest, rfl⟩ := List.exists_cons_of_ne_nil hne
    exact hfirst
  have hlast' : ∀ c ∈ text.reverse.head?, isBlank c = false := by
    rwa [List.head?_reverse]
  have hright' : ∀ c ∈ right.reverse, isBlank c = true := fun c hc =>
    hright c (List.mem_reverse.mp hc)
  rw [trimChars, List.append_assoc, dropWhile_padding hleft hfirst', List.reverse_append,
    dropWhile_padding hright' hlast', List.reverse_reverse]

/-- Nothing is dropped from a text without white space. -/
theorem trimChars_of_notBlank {text : List Char} (h : ∀ c ∈ text, isBlank c = false) :
    trimChars text = text := by
  by_cases hne : text = []
  · subst hne
    rfl
  have hfirst : ∀ c ∈ text.head?, isBlank c = false := fun c hc => h c (List.mem_of_mem_head? hc)
  have hlast : ∀ c ∈ text.getLast?, isBlank c = false := fun c hc =>
    h c (List.mem_of_mem_getLast? hc)
  have hpadded : trimChars ([] ++ text ++ []) = text :=
    trimChars_padded nofun nofun hne hfirst hlast
  simpa using hpadded

end Blank

namespace Decimal

variable {bound value n : Nat} {text : List Char} {c : Char}

/-- A character that can stand in a number. -/
def isNumeral (c : Char) : Bool := c = '+' || (digit? c).isSome

theorem notBlank_of_isNumeral (h : isNumeral c = true) : Blank.isBlank c = false := by
  have hrange : 43 ≤ c.toNat ∧ c.toNat ≤ 57 := by
    unfold isNumeral digit? at h
    rw [Bool.or_eq_true, decide_eq_true_eq] at h
    rcases h with rfl | h
    · decide
    · split at h
      next hdigit => exact ⟨Nat.le_trans (by decide) hdigit.1, hdigit.2⟩
      · cases h
  simp [Blank.isBlank, Blank.ranges]
  omega

theorem isNumeral_of_readFrom (h : readFrom bound value text = .ok n) :
    ∀ c ∈ text, isNumeral c = true := by
  induction text generalizing value with
  | nil => nofun
  | cons c rest ih =>
      unfold readFrom at h
      cases hdigit : digit? c with
      | none => rw [hdigit] at h; cases h
      | some d =>
          rw [hdigit] at h
          dsimp only at h
          split at h
          · rw [List.forall_mem_cons]
            exact ⟨by simp [isNumeral, hdigit], ih h⟩
          · cases h

/-- A number is made of digits and a sign. -/
theorem isNumeral_of_read (h : read bound text = .ok n) : ∀ c ∈ text, isNumeral c = true := by
  unfold read at h
  split at h
  · cases h
  · cases h
  · exact List.forall_mem_cons.mpr ⟨rfl, isNumeral_of_readFrom h⟩
  · exact isNumeral_of_readFrom h

/-- There is no white space around a number. -/
theorem trimChars_of_read (h : read bound text = .ok n) : Blank.trimChars text = text :=
  Blank.trimChars_of_notBlank fun c hc => notBlank_of_isNumeral (isNumeral_of_read h c hc)

/-- A number has no minus sign. -/
theorem minus_notMem_of_read (h : read bound text = .ok n) : '-' ∉ text := fun hminus =>
  absurd (isNumeral_of_read h '-' hminus) (by decide)

end Decimal

end Clipboard
