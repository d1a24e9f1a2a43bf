import Clipboard.Proofs.Text.Blank
import Mathlib.Data.List.TakeWhile
import Mathlib.Data.Nat.Digits.Defs

/-!
# What can be read as a number

A number is written with decimal digits, at least one and as many as one likes, with a plus sign
before them or without.  Reading takes the digits from the left and gives up at the first with
which the number passes its bound; but a number only grows with further digits, so what counts in
the end is the number itself.

* `readFrom_eq_ok_iff`: digits that are read on after a number;
* `read_eq_ok_iff`: what is read is what is written, within the bound;
* `Blank.exists_trimChars`: a text is what is left of it, with white space around it.
-/

namespace Clipboard

namespace Decimal

/-- A decimal digit. -/
def IsDigit (c : Char) : Prop := '0' ≤ c ∧ c ≤ '9'

/-- The number that digits stand for, the last of them for the ones. -/
def number (digits : List Char) : Nat :=
  Nat.ofDigits 10 (digits.reverse.map fun c => c.toNat - '0'.toNat)

/-- A text is digits, at least one, with a plus sign before them or without. -/
def Writes (text : List Char) (n : Nat) : Prop :=
  ∃ sign digits, text = sign ++ digits ∧ (sign = [] ∨ sign = ['+']) ∧ digits ≠ [] ∧
    (∀ c ∈ digits, IsDigit c) ∧ number digits = n

variable {bound value n : Nat} {text digits : List Char} {c : Char}

theorem number_cons (c : Char) (digits : List Char) :
    number (c :: digits) = (c.toNat - '0'.toNat) * 10 ^ digits.length + number digits := by
  unfold number
  rw [List.reverse_cons, List.map_append, Nat.ofDigits_append, List.length_map,
    List.length_reverse, List.map_singleton, Nat.ofDigits_singleton]
  ring

theorem digit?_of_isDigit (h : IsDigit c) : digit? c = some (c.toNat - '0'.toNat) := if_pos h

theorem digit?_of_not_isDigit (h : ¬ IsDigit c) : digit? c = none := if_neg h

/-- Digits that are read on after a number are its further places. -/
theorem readFrom_eq_ok_iff (hvalue : value ≤ bound) :
    readFrom bound value digits = .ok n ↔ (∀ c ∈ digits, IsDigit c) ∧
      value * 10 ^ digits.length + number digits = n ∧ n ≤ bound := by
  induction digits generalizing value with
  | nil =>
      have hnumber : number [] = 0 := rfl
      simp only [readFrom, hnumber, Except.ok.injEq, List.length_nil, pow_zero, mul_one, add_zero]
      constructor
      · rintro rfl
        exact ⟨nofun, rfl, hvalue⟩
      · exact fun h => h.2.1
  | cons c rest ih =>
      rw [readFrom, List.forall_mem_cons]
      by_cases hc : IsDigit c
      · rw [digit?_of_isDigit hc]
        dsimp only
        have hsum : (value * 10 + (c.toNat - '0'.toNat)) * 10 ^ rest.length + number rest =
            value * 10 ^ (c :: rest).length + number (c :: rest) := by
          rw [number_cons, List.length_cons]
          ring
        by_cases hle : value * 10 + (c.toNat - '0'.toNat) ≤ bound
        · rw [if_pos hle, ih hle, hsum]
          exact and_congr_left fun _ => (and_iff_right hc).symm
        · rw [if_neg hle]
          constructor
          · exact nofun
          · rintro ⟨-, hn, hbound⟩
            -- Whatever follows, the number is beyond the bound for good.
            have hgrows : value * 10 + (c.toNat - '0'.toNat) ≤ n := by
              rw [← hn, ← hsum]
              exact Nat.le_add_right_of_le (Nat.le_mul_of_pos_right _ (by positivity))
            exact absurd (Nat.le_trans hgrows hbound) hle
      · rw [digit?_of_not_isDigit hc]
        constructor
        · exact nofun
        · exact fun h => absurd h.1.1 hc

theorem readFrom_zero_eq_ok_iff :
    readFrom bound 0 digits = .ok n ↔
      (∀ c ∈ digits, IsDigit c) ∧ number digits = n ∧ n ≤ bound := by
  rw [readFrom_eq_ok_iff (Nat.zero_le bound), Nat.zero_mul, Nat.zero_add]

theorem writes_plus_iff :
    Writes ('+' :: digits) n ↔ digits ≠ [] ∧ (∀ c ∈ digits, IsDigit c) ∧ number digits = n := by
  constructor
  · rintro ⟨sign, digits', htext, rfl | rfl, hne, hdigits, hn⟩
    · rw [List.nil_append] at htext
      subst htext
      exact absurd (hdigits '+' List.mem_cons_self) (by simp [IsDigit])
    · obtain rfl := List.tail_eq_of_cons_eq htext
      exact ⟨hne, hdigits, hn⟩
  · rintro ⟨hne, hdigits, hn⟩
    exact ⟨['+'], digits, rfl, .inr rfl, hne, hdigits, hn⟩

theorem writes_iff_of_unsigned (h : ∀ rest, text ≠ '+' :: rest) :
    Writes text n ↔ text ≠ [] ∧ (∀ c ∈ text, IsDigit c) ∧ number text = n := by
  constructor
  · rintro ⟨sign, digits, rfl, rfl | rfl, hne, hdigits, hn⟩
    · exact ⟨hne, hdigits, hn⟩
    · exact absurd rfl (h digits)
  · rintro ⟨hne, hdigits, hn⟩
    exact ⟨[], text, rfl, .inl rfl, hne, hdigits, hn⟩

/-- What is read as a number writes it, and the number is within its bound. -/
theorem read_eq_ok_iff : read bound text = .ok n ↔ Writes text n ∧ n ≤ bound := by
  unfold read
  split
  next =>
      have hunsigned : ∀ rest, ([] : List Char) ≠ '+' :: rest := fun _ => nofun
      rw [writes_iff_of_unsigned hunsigned]
      exact ⟨nofun, fun h => absurd rfl h.1.1⟩
  next =>
      rw [writes_plus_iff]
      exact ⟨nofun, fun h => absurd rfl h.1.1⟩
  next digits hne =>
      rw [writes_plus_iff, readFrom_zero_eq_ok_iff]
      have hsome : digits ≠ [] := fun hnil => hne (by rw [hnil])
      tauto
  next hne _ hplus =>
      rw [writes_iff_of_unsigned hplus, readFrom_zero_eq_ok_iff]
      tauto

/-- There is no white space in a number. -/
theorem Writes.notBlank (h : Writes text n) : ∀ c ∈ text, Blank.isBlank c = false := by
  intro c hc
  have hread : read n text = .ok n := read_eq_ok_iff.mpr ⟨h, Nat.le_refl n⟩
  exact notBlank_of_isNumeral (isNumeral_of_read hread c hc)

theorem Writes.ne_nil (h : Writes text n) : text ≠ [] := by
  obtain ⟨sign, digits, rfl, -, hne, -, -⟩ := h
  exact List.append_ne_nil_of_right_ne_nil sign hne

end Decimal

namespace Blank

/-- A text is what is left of it, with white space around it. -/
theorem exists_trimChars (text : List Char) :
    ∃ left right, text = left ++ trimChars text ++ right ∧ (∀ c ∈ left, isBlank c = true) ∧
      ∀ c ∈ right, isBlank c = true := by
  refine ⟨text.takeWhile isBlank, ((text.dropWhile isBlank).reverse.takeWhile isBlank).reverse,
    ?_, fun c => List.mem_takeWhile_imp, fun c hc => ?_⟩
  · rw [trimChars, List.append_assoc, ← List.reverse_append, List.takeWhile_append_dropWhile,
      List.reverse_reverse, List.takeWhile_append_dropWhile]
  · exact List.mem_takeWhile_imp (List.mem_reverse.mp hc)

/-- What is left of a text is a number if the text is that number with white space around it. -/
theorem writes_trimChars_iff {text : List Char} {n : Nat} :
    Decimal.Writes (trimChars text) n ↔ ∃ left middle right, text = left ++ middle ++ right ∧
      (∀ c ∈ left ++ right, isBlank c = true) ∧ Decimal.Writes middle n := by
  constructor
  · intro h
    obtain ⟨left, right, htext, hleft, hright⟩ := exists_trimChars text
    exact ⟨left, trimChars text, right, htext,
      fun c hc => (List.mem_append.mp hc).elim (hleft c) (hright c), h⟩
  · rintro ⟨left, middle, right, rfl, hblank, h⟩
    have hleft : ∀ c ∈ left, isBlank c = true := fun c hc => hblank c (List.mem_append_left _ hc)
    have hright : ∀ c ∈ right, isBlank c = true := fun c hc => hblank c (List.mem_append_right _ hc)
    rw [trimChars_padded hleft hright h.ne_nil
      (fun c hc => h.notBlank c (List.mem_of_mem_head? hc))
      fun c hc => h.notBlank c (List.mem_of_mem_getLast? hc)]
    exact h

end Blank

end Clipboard
