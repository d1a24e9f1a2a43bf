import Clipboard.Proofs.Text.Utf8

/-!
# What UTF-8 can be read

The reader takes no octets but those that some text is written in.  It owes a continuation
octet until it has one, and the range that it holds the octet to is the one that makes the
number a character that is written in as many octets, and no shorter.

* `continued`: a character that has begun takes one octet more;
* `exists_char`: what is read begins with a character that is written so;
* `encode_of_decode`: so what is read as a text is that text, written.
-/

namespace Clipboard.Utf8

/-- An octet of a range is what its distance from 0x80 makes it. -/
theorem exists_continuation {b low high : UInt8} (hlow : 0x80 ≤ low.toNat)
    (hhigh : high.toNat ≤ 0xBF) (hb : low ≤ b ∧ b ≤ high) :
    ∃ k, k < 64 ∧ b = .ofNat (0x80 + k) ∧ low.toNat ≤ 0x80 + k ∧ 0x80 + k ≤ high.toNat := by
  have hl : low.toNat ≤ b.toNat := UInt8.le_iff_toNat_le.mp hb.1
  have hh : b.toNat ≤ high.toNat := UInt8.le_iff_toNat_le.mp hb.2
  have hback : 0x80 + (b.toNat - 0x80) = b.toNat := by omega
  refine ⟨b.toNat - 0x80, by omega, ?_, by omega, by omega⟩
  rw [hback, UInt8.ofNat_toNat]

variable {done text : List Char} {index : Nat} {bytes : Octets}

/-- A character that has begun goes on with an octet of its range. -/
theorem continued {owed value taken : Nat} {low high : UInt8} (hlow : 0x80 ≤ low.toNat)
    (hhigh : high.toNat ≤ 0xBF)
    (h : decodeFrom done index (some ⟨owed, low, high, value, taken⟩) bytes = .ok text) :
    ∃ k rest, k < 64 ∧ low.toNat ≤ 0x80 + k ∧ 0x80 + k ≤ high.toNat ∧
      bytes = .ofNat (0x80 + k) :: rest ∧
      decodeFrom done index (some ⟨owed, low, high, value, taken⟩) (.ofNat (0x80 + k) :: rest) =
        .ok text := by
  cases bytes with
  | nil => cases h
  | cons b rest =>
      by_cases hb : low ≤ b ∧ b ≤ high
      · obtain ⟨k, hk, rfl, hkl, hkh⟩ := exists_continuation hlow hhigh hb
        exact ⟨k, rest, hk, hkl, hkh, rfl, h⟩
      · rw [decodeFrom, step, Begun.push, if_neg hb] at h
        cases h

theorem continued_more {owed value taken : Nat} {low high : UInt8} (hlow : 0x80 ≤ low.toNat)
    (hhigh : high.toNat ≤ 0xBF)
    (h : decodeFrom done index (some ⟨owed + 1, low, high, value, taken⟩) bytes = .ok text) :
    ∃ k rest, k < 64 ∧ low.toNat ≤ 0x80 + k ∧ 0x80 + k ≤ high.toNat ∧
      bytes = .ofNat (0x80 + k) :: rest ∧
      decodeFrom done index (some ⟨owed, 0x80, 0xBF, value * 64 + k, taken + 1⟩) rest =
        .ok text := by
  obtain ⟨k, rest, hk, hkl, hkh, hbytes, h⟩ := continued hlow hhigh h
  rw [decodeFrom_more _ _ hk hkl hkh] at h
  exact ⟨k, rest, hk, hkl, hkh, hbytes, h⟩

theorem continued_last {value taken : Nat} {low high : UInt8} (hlow : 0x80 ≤ low.toNat)
    (hhigh : high.toNat ≤ 0xBF)
    (h : decodeFrom done index (some ⟨0, low, high, value, taken⟩) bytes = .ok text) :
    ∃ k rest, k < 64 ∧ low.toNat ≤ 0x80 + k ∧ 0x80 + k ≤ high.toNat ∧
      bytes = .ofNat (0x80 + k) :: rest ∧
      decodeFrom (Char.ofNat (value * 64 + k) :: done) (index + taken + 1) none rest =
        .ok text := by
  obtain ⟨k, rest, hk, hkl, hkh, hbytes, h⟩ := continued hlow hhigh h
  rw [decodeFrom_last _ _ hk hkl hkh] at h
  exact ⟨k, rest, hk, hkl, hkh, hbytes, h⟩

theorem leastSecondOfThree_toNat (k : Nat) :
    (leastSecondOfThree k).toNat = if k = 0 then 0xA0 else 0x80 := by
  unfold leastSecondOfThree
  split <;> rfl

theorem greatestSecondOfThree_toNat (k : Nat) :
    (greatestSecondOfThree k).toNat = if k = 13 then 0x9F else 0xBF := by
  unfold greatestSecondOfThree
  split <;> rfl

theorem leastSecondOfFour_toNat (k : Nat) :
    (leastSecondOfFour k).toNat = if k = 0 then 0x90 else 0x80 := by
  unfold leastSecondOfFour
  split <;> rfl

theorem greatestSecondOfFour_toNat (k : Nat) :
    (greatestSecondOfFour k).toNat = if k = 4 then 0x8F else 0xBF := by
  unfold greatestSecondOfFour
  split <;> rfl

/-- The octets below 0x80, the leads of two, three and four octets, and the rest. -/
theorem lead_cases (b : UInt8) :
    (∃ n, n < 0x80 ∧ b = .ofNat n) ∨ (∃ k, 2 ≤ k ∧ k < 32 ∧ b = .ofNat (0xC0 + k)) ∨
      (∃ k, k < 16 ∧ b = .ofNat (0xE0 + k)) ∨ (∃ k, k < 5 ∧ b = .ofNat (0xF0 + k)) ∨
      first b = .refused := by
  have hb : b = .ofNat b.toNat := UInt8.ofNat_toNat.symm
  have hlt : b.toNat < 256 := UInt8.toNat_lt b
  by_cases h1 : b.toNat < 0x80
  · exact .inl ⟨b.toNat, h1, hb⟩
  by_cases h2 : b.toNat < 0xC2
  · exact .inr (.inr (.inr (.inr (by rw [first, if_neg h1, if_pos h2]))))
  by_cases h3 : b.toNat < 0xE0
  · refine .inr (.inl ⟨b.toNat - 0xC0, by omega, by omega, ?_⟩)
    rwa [Nat.add_sub_cancel' (by omega)]
  by_cases h4 : b.toNat < 0xF0
  · refine .inr (.inr (.inl ⟨b.toNat - 0xE0, by omega, ?_⟩))
    rwa [Nat.add_sub_cancel' (by omega)]
  by_cases h5 : b.toNat < 0xF5
  · refine .inr (.inr (.inr (.inl ⟨b.toNat - 0xF0, by omega, ?_⟩)))
    rwa [Nat.add_sub_cancel' (by omega)]
  · refine .inr (.inr (.inr (.inr ?_)))
    rw [first, if_neg h1, if_neg h2, if_neg h3, if_neg (by omega), if_neg (by omega),
      if_neg h4, if_neg (by omega), if_neg (by omega), if_neg (by omega)]

/-- A number is written in as few octets as there are for it. -/
theorem encodeChar_ofNat {n : Nat} (h : n < 0xD800 ∨ (0xDFFF < n ∧ n < 0x110000)) :
    encodeChar (Char.ofNat n) =
      if n < 0x80 then [.ofNat n]
      else if n < 0x800 then [.ofNat (0xC0 + n / 64), .ofNat (0x80 + n % 64)]
      else if n < 0x10000 then
        [.ofNat (0xE0 + n / 4096), .ofNat (0x80 + n / 64 % 64), .ofNat (0x80 + n % 64)]
      else
        [.ofNat (0xF0 + n / 262144), .ofNat (0x80 + n / 4096 % 64),
          .ofNat (0x80 + n / 64 % 64), .ofNat (0x80 + n % 64)] := by
  rw [encodeChar, toNat_charOfNat h]

theorem encodeChar_two {k k₂ : Nat} (hk : 2 ≤ k) (hk' : k < 32) (hk₂ : k₂ < 64) :
    encodeChar (Char.ofNat (k * 64 + k₂)) = [.ofNat (0xC0 + k), .ofNat (0x80 + k₂)] := by
  have hlead : (k * 64 + k₂) / 64 = k := by omega
  have hlast : (k * 64 + k₂) % 64 = k₂ := by omega
  rw [encodeChar_ofNat (by omega), if_neg (by omega), if_pos (by omega), hlead, hlast]

theorem encodeChar_three {k k₂ k₃ : Nat} (hk : k < 16) (hk₂ : k₂ < 64) (hk₃ : k₃ < 64)
    (hlow : (leastSecondOfThree k).toNat ≤ 0x80 + k₂)
    (hhigh : 0x80 + k₂ ≤ (greatestSecondOfThree k).toNat) :
    encodeChar (Char.ofNat ((k * 64 + k₂) * 64 + k₃)) =
      [.ofNat (0xE0 + k), .ofNat (0x80 + k₂), .ofNat (0x80 + k₃)] := by
  have hlong : k = 0 → 0x20 ≤ k₂ := by
    rintro rfl
    rw [leastSecondOfThree_toNat, if_pos rfl] at hlow
    omega
  have hpaired : k = 13 → k₂ < 0x20 := by
    rintro rfl
    rw [greatestSecondOfThree_toNat, if_pos rfl] at hhigh
    omega
  have hlead : ((k * 64 + k₂) * 64 + k₃) / 4096 = k := by omega
  have hsecond : ((k * 64 + k₂) * 64 + k₃) / 64 % 64 = k₂ := by omega
  have hlast : ((k * 64 + k₂) * 64 + k₃) % 64 = k₃ := by omega
  rw [encodeChar_ofNat (by omega), if_neg (by omega), if_neg (by omega), if_pos (by omega), hlead,
    hsecond, hlast]

theorem encodeChar_four {k k₂ k₃ k₄ : Nat} (hk : k < 5) (hk₂ : k₂ < 64) (hk₃ : k₃ < 64)
    (hk₄ : k₄ < 64) (hlow : (leastSecondOfFour k).toNat ≤ 0x80 + k₂)
    (hhigh : 0x80 + k₂ ≤ (greatestSecondOfFour k).toNat) :
    encodeChar (Char.ofNat (((k * 64 + k₂) * 64 + k₃) * 64 + k₄)) =
      [.ofNat (0xF0 + k), .ofNat (0x80 + k₂), .ofNat (0x80 + k₃), .ofNat (0x80 + k₄)] := by
  have hlong : k = 0 → 0x10 ≤ k₂ := by
    rintro rfl
    rw [leastSecondOfFour_toNat, if_pos rfl] at hlow
    omega
  have hbound : k = 4 → k₂ < 0x10 := by
    rintro rfl
    rw [greatestSecondOfFour_toNat, if_pos rfl] at hhigh
    omega
  have hlead : (((k * 64 + k₂) * 64 + k₃) * 64 + k₄) / 262144 = k := by omega
  have hsecond : (((k * 64 + k₂) * 64 + k₃) * 64 + k₄) / 4096 % 64 = k₂ := by omega
  have hthird : (((k * 64 + k₂) * 64 + k₃) * 64 + k₄) / 64 % 64 = k₃ := by omega
  have hlast : (((k * 64 + k₂) * 64 + k₃) * 64 + k₄) % 64 = k₄ := by omega
  rw [encodeChar_ofNat (by omega), if_neg (by omega), if_neg (by omega), if_neg (by omega), hlead,
    hsecond, hthird, hlast]

/-- What is read begins with a character that is written so. -/
theorem exists_char {b : UInt8} {rest : Octets}
    (h : decodeFrom done index none (b :: rest) = .ok text) :
    ∃ c rest' index', b :: rest = encodeChar c ++ rest' ∧
      decodeFrom (c :: done) index' none rest' = .ok text := by
  obtain ⟨n, hn, rfl⟩ | ⟨k, hk, hk', rfl⟩ | ⟨k, hk, rfl⟩ | ⟨k, hk, rfl⟩ | hrefused :=
    lead_cases b
  · rw [decodeFrom_oneOctet done index rest hn] at h
    exact ⟨_, rest, _, by rw [encodeChar_ofNat (by omega), if_pos hn]; rfl, h⟩
  · rw [decodeFrom_lead _ _ (first_two hk hk')] at h
    obtain ⟨k₂, rest', hk₂, -, -, rfl, h₂⟩ := continued_last (by decide) (by decide) h
    exact ⟨_, rest', _, by rw [encodeChar_two hk hk' hk₂]; rfl, h₂⟩
  · have hleast : 0x80 ≤ (leastSecondOfThree k).toNat := by
      rw [leastSecondOfThree_toNat]
      split <;> omega
    have hgreatest : (greatestSecondOfThree k).toNat ≤ 0xBF := by
      rw [greatestSecondOfThree_toNat]
      split <;> omega
    rw [decodeFrom_lead _ _ (first_three hk)] at h
    obtain ⟨k₂, rest₂, hk₂, hlow, hhigh, rfl, h₂⟩ := continued_more hleast hgreatest h
    obtain ⟨k₃, rest₃, hk₃, -, -, rfl, h₃⟩ := continued_last (by decide) (by decide) h₂
    exact ⟨_, rest₃, _, by rw [encodeChar_three hk hk₂ hk₃ hlow hhigh]; rfl, h₃⟩
  · have hleast : 0x80 ≤ (leastSecondOfFour k).toNat := by
      rw [leastSecondOfFour_toNat]
      split <;> omega
    have hgreatest : (greatestSecondOfFour k).toNat ≤ 0xBF := by
      rw [greatestSecondOfFour_toNat]
      split <;> omega
    rw [decodeFrom_lead _ _ (first_four hk)] at h
    obtain ⟨k₂, rest₂, hk₂, hlow, hhigh, rfl, h₂⟩ := continued_more hleast hgreatest h
    obtain ⟨k₃, rest₃, hk₃, -, -, rfl, h₃⟩ := continued_more (by decide) (by decide) h₂
    obtain ⟨k₄, rest₄, hk₄, -, -, rfl, h₄⟩ := continued_last (by decide) (by decide) h₃
    exact ⟨_, rest₄, _, by rw [encodeChar_four hk hk₂ hk₃ hk₄ hlow hhigh]; rfl, h₄⟩
  · rw [decodeFrom, step, hrefused] at h
    cases h

/-- What is read on as a text is what was read before and the rest of it, written. -/
theorem encode_of_decodeFrom {bytes : Octets} (h : decodeFrom done index none bytes = .ok text) :
    ∃ rest, text = done.reverse ++ rest ∧ encode rest = bytes := by
  induction hlength : bytes.length using Nat.strong_induction_on generalizing bytes done index with
  | _ length ih =>
      cases bytes with
      | nil => exact ⟨[], by simpa [decodeFrom] using (Except.ok.inj h).symm, rfl⟩
      | cons b bytes =>
          obtain ⟨c, rest, index', hbytes, h⟩ := exists_char h
          have hpos : 0 < (encodeChar c).length := by
            unfold encodeChar
            dsimp only
            split_ifs <;> exact Nat.zero_lt_succ _
          have hshorter : rest.length < length := by
            rw [← hlength, hbytes, List.length_append]
            omega
          obtain ⟨text', rfl, hrest⟩ := ih rest.length hshorter h rfl
          exact ⟨c :: text', by simp, by rw [encode_cons, hrest, hbytes]⟩

/-- What is read as a text is that text, written. -/
theorem encode_of_decode {bytes : Octets} (h : decode bytes = .ok text) : encode text = bytes := by
  obtain ⟨rest, rfl, hrest⟩ := encode_of_decodeFrom h
  exact hrest

/-- What spells a text is what a text is written in. -/
theorem decode_eq_ok_iff {bytes : Octets} : decode bytes = .ok text ↔ bytes = encode text :=
  ⟨fun h => (encode_of_decode h).symm, fun h => h ▸ decode_encode text⟩

end Clipboard.Utf8
