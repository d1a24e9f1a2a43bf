import Clipboard.Proofs.Text.Utf8Lossy

/-!
# Reading UTF-8 piece by piece

Where an octet that continues no character follows other octets, the reader that takes any
octets begins anew, so that what stands before it and what it begins are read apart.  A text
is written with such an octet first, and is therefore read as it was written after any octets.
A line feed is such an octet itself: lines are read one by one.

* `decodeLossy_opens`: octets are read apart where the second of them can begin a character;
* `decodeLossy_append_encode`, `decodeLossy_encode_append`: a text after or before any octets;
* `decodeLossy_lf`: two lines.
-/

namespace Clipboard.Utf8

/-- A character that has begun can only go on with an octet that stands for six bits. -/
structure Begun.Bounded (c : Begun) : Prop where
  low : 0x80 ≤ c.low
  high : c.high ≤ 0xBF

theorem bounded_of_first {b : UInt8} {c : Begun} (h : first b = .more c) : c.Bounded := by
  refine ⟨proper_of_first h, ?_⟩
  unfold first at h
  dsimp only at h
  split_ifs at h <;> cases h <;> simp

theorem bounded_of_push {b : UInt8} {c c' : Begun} (h : c.push b = .more c') : c'.Bounded := by
  refine ⟨proper_of_push h, ?_⟩
  unfold Begun.push at h
  split at h
  · dsimp only at h
    split at h
    · cases h
    · cases h
      exact UInt8.le_refl _
  · cases h

/-- An octet that continues no character. -/
def Opens (b : UInt8) : Prop := b < 0x80 ∨ 0xBF < b

/-- Such an octet breaks a character off. -/
theorem push_opens {c : Begun} {b : UInt8} (hc : c.Bounded) (hb : Opens b) :
    c.push b = .refused := by
  rw [Begun.push, if_neg]
  rintro ⟨hlow, hhigh⟩
  rcases hb with hb | hb
  · exact absurd (UInt8.le_trans hc.low hlow) (UInt8.not_le.mpr hb)
  · exact absurd (UInt8.le_trans hhigh hc.high) (UInt8.not_le.mpr hb)

/-- What the first octet of a character is read as, and what it begins. -/
def firstStep (b : UInt8) : List Char × Option Begun :=
  match first b with
  | .char c => ([c], none)
  | .more begun => ([], some begun)
  | .refused => ([replacement], none)

/-- What one octet adds to what has been read, and the character that has begun after it. -/
def lossyStep : Option Begun → UInt8 → List Char × Option Begun
  | none, b => firstStep b
  | some c, b =>
    match c.push b with
    | .char c => ([c], none)
    | .more begun => ([], some begun)
    | .refused => (replacement :: (firstStep b).1, (firstStep b).2)

theorem decodeLossyFrom_cons (done : List Char) (now : Option Begun) (b : UInt8) (rest : Octets) :
    decodeLossyFrom done now (b :: rest) =
      decodeLossyFrom ((lossyStep now b).1.reverse ++ done) (lossyStep now b).2 rest := by
  cases now with
  | none =>
      rw [decodeLossyFrom, lossyStep, firstStep]
      cases first b <;> rfl
  | some c =>
      rw [decodeLossyFrom, lossyStep, firstStep]
      cases c.push b with
      | char c => rfl
      | more begun => rfl
      | refused => cases first b <;> rfl

theorem bounded_of_lossyStep (now : Option Begun) (b : UInt8) :
    ∀ c ∈ (lossyStep now b).2, c.Bounded := by
  have hfirst : ∀ c ∈ (firstStep b).2, c.Bounded := by
    rw [firstStep]
    cases hb : first b with
    | char c => nofun
    | more begun => exact fun c hc => Option.mem_some.mp hc ▸ bounded_of_first hb
    | refused => nofun
  cases now with
  | none => exact hfirst
  | some c =>
      rw [lossyStep]
      cases hb : c.push b with
      | char c => nofun
      | more begun => exact fun c hc => Option.mem_some.mp hc ▸ bounded_of_push hb
      | refused => exact hfirst

/-- What stands before an octet that continues no character is read as though nothing followed. -/
theorem decodeLossyFrom_opens {b : UInt8} (hb : Opens b) (rest bytes : Octets) (done : List Char)
    (now : Option Begun) (hnow : ∀ c ∈ now, c.Bounded) :
    decodeLossyFrom done now (bytes ++ b :: rest) =
      decodeLossyFrom done now bytes ++ decodeLossyFrom [] none (b :: rest) := by
  -- on what stands before, for any character that has begun: it may be broken off by `b` alone
  induction bytes generalizing done now with
  | nil =>
      cases now with
      | none => exact decodeLossyFrom_done done none (b :: rest)
      | some c =>
          have hstep : lossyStep (some c) b =
              (replacement :: (firstStep b).1, (firstStep b).2) := by
            rw [lossyStep, push_opens (hnow c rfl) hb]
          rw [List.nil_append, decodeLossyFrom_cons, hstep, decodeLossyFrom_done,
            decodeLossyFrom_cons [], decodeLossyFrom_done (_ ++ [])]
          simp [decodeLossyFrom, lossyStep]
  | cons b' bytes ih =>
      rw [List.cons_append, decodeLossyFrom_cons, decodeLossyFrom_cons done now b' bytes]
      exact ih _ _ (bounded_of_lossyStep now b')

/-- **Octets are read apart wherever a character can begin.** -/
theorem decodeLossy_opens {b : UInt8} (hb : Opens b) (bytes rest : Octets) :
    decodeLossy (bytes ++ b :: rest) = decodeLossy bytes ++ decodeLossy (b :: rest) :=
  decodeLossyFrom_opens hb rest bytes [] none nofun

/-- The first octet of a character continues none. -/
theorem exists_opens (c : Char) : ∃ b rest, encodeChar c = b :: rest ∧ Opens b := by
  have hmax := toNat_range c
  have hlead {n : Nat} (hn : n < 256) (h : n < 0x80 ∨ 0xBF < n) : Opens (.ofNat n) := by
    unfold Opens
    rw [UInt8.lt_iff_toNat_lt, UInt8.lt_iff_toNat_lt, toNat_ofNat_lt hn]
    exact h
  unfold encodeChar
  dsimp only
  split_ifs with h₁ h₂ h₃
  · exact ⟨_, _, rfl, hlead (by omega) (by omega)⟩
  · exact ⟨_, _, rfl, hlead (by omega) (by omega)⟩
  · exact ⟨_, _, rfl, hlead (by omega) (by omega)⟩
  · exact ⟨_, _, rfl, hlead (by omega) (by omega)⟩

/-- A text before any octets is read as it was written, and they are read after it. -/
theorem decodeLossy_encode_append (text : List Char) (rest : Octets) :
    decodeLossy (encode text ++ rest) = text ++ decodeLossy rest := by
  rw [decodeLossy, decodeLossyFrom_encode, decodeLossyFrom_done, List.append_nil,
    List.reverse_reverse]
  rfl

theorem decodeLossy_encode (text : List Char) : decodeLossy (encode text) = text := by
  have hread := decodeLossy_encode_append text []
  rwa [List.append_nil, show decodeLossy [] = [] from rfl, List.append_nil] at hread

/-- A text after any octets is read as it was written. -/
theorem decodeLossy_append_encode (bytes : Octets) (text : List Char) :
    decodeLossy (bytes ++ encode text) = decodeLossy bytes ++ text := by
  cases text with
  | nil => simp [encode]
  | cons c text =>
      obtain ⟨b, rest, hc, hb⟩ := exists_opens c
      have hbegins : encode (c :: text) = b :: (rest ++ encode text) := by
        rw [encode, List.flatMap_cons, hc]
        rfl
      rw [hbegins, decodeLossy_opens hb, ← hbegins, decodeLossy_encode]

/-- Lines are read one by one. -/
theorem decodeLossy_lf (line rest : Octets) :
    decodeLossy (line ++ 0x0A :: rest) = decodeLossy line ++ '\n' :: decodeLossy rest := by
  rw [decodeLossy_opens (.inl (by decide))]
  exact congrArg _ (decodeLossy_encode_append ['\n'] rest)

end Clipboard.Utf8
