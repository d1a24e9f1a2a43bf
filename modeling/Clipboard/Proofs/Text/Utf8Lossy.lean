import Clipboard.Proofs.Text.Utf8

/-!
# Reading UTF-8 among other octets

A reader that takes any octets reads a text in the midst of them as it was written, as long as
nothing before it has begun a character and left it open.  A line feed sees to that: it can be
no part of a longer character, so that whatever stands before it, the reader begins anew.

* `decodeLossyFrom_encode`: a text is read as it was written;
* `decodeLossy_line`: so is a text on a line of its own, whatever the other lines.
-/

namespace Clipboard

/-- What stands before a line: nothing, or lines that have ended. -/
def LinesBefore {α : Type} (feed : α) (before : List α) : Prop :=
  before = [] ∨ ∃ lines, before = lines ++ [feed]

/-- What stands after a line: nothing, or the end of the line and other lines. -/
def LinesAfter {α : Type} (feed : α) (after : List α) : Prop :=
  after = [] ∨ ∃ lines, after = feed :: lines

namespace Utf8

/-- A character that has begun can only go on with an octet that begins none. -/
def Begun.Proper (c : Begun) : Prop := 0x80 ≤ c.low

theorem proper_of_first {b : UInt8} {c : Begun} (h : first b = .more c) : c.Proper := by
  unfold first at h
  dsimp only at h
  split_ifs at h <;> cases h <;> simp [Begun.Proper]

theorem proper_of_push {b : UInt8} {c c' : Begun} (h : c.push b = .more c') : c'.Proper := by
  unfold Begun.push at h
  split at h
  · dsimp only at h
    split at h
    · cases h
    · cases h
      exact (by decide : (0x80 : UInt8) ≤ 0x80)
  · cases h

/-- A line feed breaks a character off. -/
theorem push_lf {c : Begun} (hc : c.Proper) : c.push 0x0A = .refused := by
  rw [Begun.push, if_neg]
  rintro ⟨hlow, -⟩
  exact absurd (UInt8.le_trans hc hlow) (by decide)

variable {done text : List Char} {index : Nat} {now : Option Begun} {bytes : Octets}

/-- What has been read comes first. -/
theorem decodeLossyFrom_done (done : List Char) (now : Option Begun) (bytes : Octets) :
    decodeLossyFrom done now bytes = done.reverse ++ decodeLossyFrom [] now bytes := by
  induction bytes generalizing done now with
  | nil => cases now <;> simp [decodeLossyFrom]
  | cons b rest ih =>
      cases now with
      | none =>
          rw [decodeLossyFrom, decodeLossyFrom]
          cases first b with
          | char c => simp [ih (c :: done), ih [c]]
          | more begun => exact ih done _
          | refused => simp [ih (replacement :: done), ih [replacement]]
      | some c =>
          rw [decodeLossyFrom, decodeLossyFrom]
          cases c.push b with
          | char c => simp [ih (c :: done), ih [c]]
          | more begun => exact ih done _
          | refused =>
              cases first b with
              | char c => simp [ih (c :: replacement :: done), ih [c, replacement]]
              | more begun => simp [ih (replacement :: done), ih [replacement]]
              | refused =>
                  simp [ih (replacement :: replacement :: done), ih [replacement, replacement]]

/-- Octets that are read without a fault are read alike by a reader that takes any. -/
theorem decodeLossyFrom_append (h : decodeFrom done index now bytes = .ok text) (rest : Octets) :
    decodeLossyFrom done now (bytes ++ rest) = decodeLossyFrom text.reverse none rest := by
  induction bytes generalizing done index now with
  | nil =>
      cases now with
      | none =>
          obtain rfl : done.reverse = text := Except.ok.inj h
          rw [List.reverse_reverse, List.nil_append]
      | some c => cases h
  | cons b bytes ih =>
      cases now with
      | none =>
          rw [decodeFrom, step] at h
          rw [List.cons_append, decodeLossyFrom]
          cases hb : first b with
          | char c => rw [hb] at h; exact ih h
          | more begun => rw [hb] at h; exact ih h
          | refused => rw [hb] at h; cases h
      | some c =>
          rw [decodeFrom, step] at h
          rw [List.cons_append, decodeLossyFrom]
          cases hb : c.push b with
          | char c => rw [hb] at h; exact ih h
          | more begun => rw [hb] at h; exact ih h
          | refused => rw [hb] at h; cases h

/-- A text is read as it was written, whatever comes after it. -/
theorem decodeLossyFrom_encode (done text : List Char) (rest : Octets) :
    decodeLossyFrom done none (encode text ++ rest) =
      decodeLossyFrom (text.reverse ++ done) none rest := by
  rw [decodeLossyFrom_append (decodeFrom_encode done 0 text) rest, List.reverse_append,
    List.reverse_reverse]

/-- After a line feed the reader begins anew, whatever it has read before. -/
theorem decodeLossyFrom_lf (bytes : Octets) (done : List Char) (now : Option Begun)
    (hnow : ∀ c ∈ now, c.Proper) :
    ∃ read, ∀ rest, decodeLossyFrom done now (bytes ++ 0x0A :: rest) =
      decodeLossyFrom ('\n' :: read) none rest := by
  induction bytes generalizing done now with
  | nil =>
      cases now with
      | none => exact ⟨done, fun rest => rfl⟩
      | some c =>
          refine ⟨replacement :: done, fun rest => ?_⟩
          rw [List.nil_append, decodeLossyFrom, push_lf (hnow c rfl)]
          rfl
  | cons b bytes ih =>
      have hnone : ∀ c ∈ (none : Option Begun), c.Proper := nofun
      cases now with
      | none =>
          simp only [List.cons_append, decodeLossyFrom]
          cases hb : first b with
          | char c => exact ih _ none hnone
          | more begun => exact ih _ _ fun c hc => by cases hc; exact proper_of_first hb
          | refused => exact ih _ none hnone
      | some c =>
          simp only [List.cons_append, decodeLossyFrom]
          cases hb : c.push b with
          | char c => exact ih _ none hnone
          | more begun => exact ih _ _ fun c hc => by cases hc; exact proper_of_push hb
          | refused =>
              cases hb' : first b with
              | char c => exact ih _ none hnone
              | more begun => exact ih _ _ fun c hc => by cases hc; exact proper_of_first hb'
              | refused => exact ih _ none hnone

/-- Whatever stands on other lines, a text on a line of its own is read as it was written. -/
theorem decodeLossy_line {before after : Octets} (text : List Char)
    (hbefore : LinesBefore 0x0A before) (hafter : LinesAfter 0x0A after) :
    ∃ earlier later, decodeLossy (before ++ encode text ++ after) = earlier ++ text ++ later ∧
      LinesBefore '\n' earlier ∧ LinesAfter '\n' later := by
  have hlater : ∃ later, decodeLossyFrom [] none after = later ∧ LinesAfter '\n' later := by
    refine ⟨_, rfl, ?_⟩
    obtain rfl | ⟨lines, rfl⟩ := hafter
    · exact .inl rfl
    · refine .inr ⟨decodeLossyFrom [] none lines, ?_⟩
      exact decodeLossyFrom_done ['\n'] none lines
  obtain ⟨later, hread, hlater⟩ := hlater
  obtain rfl | ⟨lines, rfl⟩ := hbefore
  · refine ⟨[], later, ?_, .inl rfl, hlater⟩
    rw [decodeLossy, List.nil_append, decodeLossyFrom_encode, decodeLossyFrom_done, hread]
    simp
  · obtain ⟨read, hlf⟩ := decodeLossyFrom_lf lines [] none nofun
    refine ⟨read.reverse ++ ['\n'], later, ?_, .inr ⟨_, rfl⟩, hlater⟩
    rw [decodeLossy, List.append_assoc, List.append_assoc, List.singleton_append, hlf,
      decodeLossyFrom_encode, decodeLossyFrom_done, hread]
    simp

end Utf8

end Clipboard
