import Clipboard.Text.Utf8
import Clipboard.Proofs.Text.Terminator

/-!
# Reading UTF-8 that was written

The reader keeps the number that it has read so far, and each continuation
octet adds six bits to it.  For each of the four lengths, the octets of a
character therefore lead from one boundary to the next with just that character
read.

* `decodeFrom_encodeChar`: the octets of one character, wherever they stand;
* `decode_encode`: every text is read back;
* `untilZero_encode`: a text may be cut at its first NUL before or after it is
  written, since no other character has a zero octet.
-/

namespace Clipboard.Utf8

/-- The numbers that characters have: all up to U+10FFFF but the surrogates. -/
theorem toNat_range (c : Char) :
    c.toNat < 0xD800 ∨ (0xDFFF < c.toNat ∧ c.toNat < 0x110000) := c.valid

theorem toNat_ofNat_lt {n : Nat} (h : n < 256) : (UInt8.ofNat n).toNat = n :=
  UInt8.toNat_ofNat_of_lt' h

/-- A continuation octet within range adds six bits. -/
theorem push_continuation {b : Begun} {k : Nat} (hk : k < 64)
    (hlow : b.low.toNat ≤ 0x80 + k) (hhigh : 0x80 + k ≤ b.high.toNat) :
    b.push (.ofNat (0x80 + k)) =
      match b.owed with
      | 0 => .char (Char.ofNat (b.value * 64 + k))
      | owed + 1 => .more ⟨owed, 0x80, 0xBF, b.value * 64 + k, b.taken + 1⟩ := by
  have hn : (UInt8.ofNat (0x80 + k)).toNat = 0x80 + k := toNat_ofNat_lt (by omega)
  have hin : b.low ≤ .ofNat (0x80 + k) ∧ UInt8.ofNat (0x80 + k) ≤ b.high := by
    rw [UInt8.le_iff_toNat_le, UInt8.le_iff_toNat_le, hn]
    exact ⟨hlow, hhigh⟩
  have hsub : 0x80 + k - 0x80 = k := by omega
  cases howed : b.owed with
  | zero => rw [Begun.push, if_pos hin, hn, hsub, howed]
  | succ owed => rw [Begun.push, if_pos hin, hn, hsub, howed]

/-- The octet of a character below U+0080 is the whole of it. -/
theorem first_one {n : Nat} (h : n < 0x80) : first (.ofNat n) = .char (Char.ofNat n) := by
  rw [first, toNat_ofNat_lt (by omega), if_pos h]

theorem first_two {k : Nat} (hk : 2 ≤ k) (h : k < 32) :
    first (.ofNat (0xC0 + k)) = .more ⟨0, 0x80, 0xBF, k, 1⟩ := by
  have hsub : 0xC0 + k - 0xC0 = k := by omega
  rw [first, toNat_ofNat_lt (by omega), if_neg (by omega), if_neg (by omega),
    if_pos (by omega), hsub]

/-- The least second octet after the lead of three octets, which rules out
overlong forms. -/
def leastSecondOfThree (k : Nat) : UInt8 := if k = 0 then 0xA0 else 0x80

/-- The greatest, which rules out surrogates. -/
def greatestSecondOfThree (k : Nat) : UInt8 := if k = 13 then 0x9F else 0xBF

theorem first_three {k : Nat} (h : k < 16) :
    first (.ofNat (0xE0 + k)) =
      .more ⟨1, leastSecondOfThree k, greatestSecondOfThree k, k, 1⟩ := by
  have hsub : 0xE0 + k - 0xE0 = k := by omega
  rw [first, toNat_ofNat_lt (by omega), if_neg (by omega), if_neg (by omega), if_neg (by omega)]
  by_cases h0 : k = 0
  · subst h0; rfl
  by_cases h13 : k = 13
  · subst h13; rfl
  rw [if_neg (by omega), if_neg (by omega), if_pos (by omega), hsub, leastSecondOfThree,
    greatestSecondOfThree, if_neg h0, if_neg h13]

/-- The least second octet after the lead of four octets. -/
def leastSecondOfFour (k : Nat) : UInt8 := if k = 0 then 0x90 else 0x80

/-- The greatest, which rules out what is above U+10FFFF. -/
def greatestSecondOfFour (k : Nat) : UInt8 := if k = 4 then 0x8F else 0xBF

theorem first_four {k : Nat} (h : k < 5) :
    first (.ofNat (0xF0 + k)) =
      .more ⟨2, leastSecondOfFour k, greatestSecondOfFour k, k, 1⟩ := by
  have hk : k = 0 ∨ k = 1 ∨ k = 2 ∨ k = 3 ∨ k = 4 := by omega
  rcases hk with rfl | rfl | rfl | rfl | rfl <;> rfl

section

variable (done : List Char) (index : Nat)

/-- A lead octet, and then the rest of its character. -/
theorem decodeFrom_lead {b : UInt8} {begun : Begun} (h : first b = .more begun) (rest : Octets) :
    decodeFrom done index none (b :: rest) = decodeFrom done index (some begun) rest := by
  rw [decodeFrom, step, h]

theorem decodeFrom_more {owed value taken k : Nat} {low high : UInt8} (hk : k < 64)
    (hlow : low.toNat ≤ 0x80 + k) (hhigh : 0x80 + k ≤ high.toNat) (rest : Octets) :
    decodeFrom done index (some ⟨owed + 1, low, high, value, taken⟩) (.ofNat (0x80 + k) :: rest) =
      decodeFrom done index (some ⟨owed, 0x80, 0xBF, value * 64 + k, taken + 1⟩) rest := by
  rw [decodeFrom, step, push_continuation hk hlow hhigh]

theorem decodeFrom_last {value taken k : Nat} {low high : UInt8} (hk : k < 64)
    (hlow : low.toNat ≤ 0x80 + k) (hhigh : 0x80 + k ≤ high.toNat) (rest : Octets) :
    decodeFrom done index (some ⟨0, low, high, value, taken⟩) (.ofNat (0x80 + k) :: rest) =
      decodeFrom (Char.ofNat (value * 64 + k) :: done) (index + taken + 1) none rest := by
  rw [decodeFrom, step, push_continuation hk hlow hhigh]
  rfl

/-- A continuation octet has 0x80 to 0xBF wherever no narrower range is set. -/
theorem continuation_range (m : Nat) :
    m % 64 < 64 ∧ (0x80 : UInt8).toNat ≤ 0x80 + m % 64 ∧ 0x80 + m % 64 ≤ (0xBF : UInt8).toNat := by
  have h : m % 64 < 64 := Nat.mod_lt m (by decide)
  refine ⟨h, Nat.le_add_right _ _, ?_⟩
  show 0x80 + m % 64 ≤ 0xBF
  omega

variable {n : Nat} (rest : Octets)

theorem decodeFrom_oneOctet (h : n < 0x80) :
    decodeFrom done index none (.ofNat n :: rest) =
      decodeFrom (Char.ofNat n :: done) (index + 1) none rest := by
  rw [decodeFrom, step, first_one h]
  rfl

theorem decodeFrom_twoOctets (h : 0x80 ≤ n) (h' : n < 0x800) :
    decodeFrom done index none (.ofNat (0xC0 + n / 64) :: .ofNat (0x80 + n % 64) :: rest) =
      decodeFrom (Char.ofNat n :: done) (index + 2) none rest := by
  have hvalue : n / 64 * 64 + n % 64 = n := by omega
  obtain ⟨hk, hlow, hhigh⟩ := continuation_range n
  rw [decodeFrom_lead _ _ (first_two (by omega) (by omega)), decodeFrom_last _ _ hk hlow hhigh,
    hvalue]

/-- The second of three octets is within the range that its lead sets. -/
theorem second_of_three (h : 0x800 ≤ n) (h' : n < 0xD800 ∨ (0xDFFF < n ∧ n < 0x10000)) :
    (leastSecondOfThree (n / 4096)).toNat ≤ 0x80 + n / 64 % 64 ∧
      0x80 + n / 64 % 64 ≤ (greatestSecondOfThree (n / 4096)).toNat := by
  unfold leastSecondOfThree greatestSecondOfThree
  constructor
  · split
    · show 0xA0 ≤ 0x80 + n / 64 % 64
      omega
    · exact Nat.le_add_right _ _
  · split
    · show 0x80 + n / 64 % 64 ≤ 0x9F
      omega
    · exact (continuation_range (n / 64)).2.2

theorem decodeFrom_threeOctets (h : 0x800 ≤ n)
    (h' : n < 0xD800 ∨ (0xDFFF < n ∧ n < 0x10000)) :
    decodeFrom done index none
        (.ofNat (0xE0 + n / 4096) :: .ofNat (0x80 + n / 64 % 64) ::
          .ofNat (0x80 + n % 64) :: rest) =
      decodeFrom (Char.ofNat n :: done) (index + 3) none rest := by
  have hvalue : (n / 4096 * 64 + n / 64 % 64) * 64 + n % 64 = n := by omega
  obtain ⟨hlow₂, hhigh₂⟩ := second_of_three h h'
  obtain ⟨hk₃, hlow₃, hhigh₃⟩ := continuation_range n
  rw [decodeFrom_lead _ _ (first_three (by omega)),
    decodeFrom_more _ _ (continuation_range (n / 64)).1 hlow₂ hhigh₂,
    decodeFrom_last _ _ hk₃ hlow₃ hhigh₃, hvalue]

theorem second_of_four (h : 0x10000 ≤ n) (h' : n < 0x110000) :
    (leastSecondOfFour (n / 262144)).toNat ≤ 0x80 + n / 4096 % 64 ∧
      0x80 + n / 4096 % 64 ≤ (greatestSecondOfFour (n / 262144)).toNat := by
  unfold leastSecondOfFour greatestSecondOfFour
  constructor
  · split
    · show 0x90 ≤ 0x80 + n / 4096 % 64
      omega
    · exact Nat.le_add_right _ _
  · split
    · show 0x80 + n / 4096 % 64 ≤ 0x8F
      omega
    · exact (continuation_range (n / 4096)).2.2

theorem decodeFrom_fourOctets (h : 0x10000 ≤ n) (h' : n < 0x110000) :
    decodeFrom done index none
        (.ofNat (0xF0 + n / 262144) :: .ofNat (0x80 + n / 4096 % 64) ::
          .ofNat (0x80 + n / 64 % 64) :: .ofNat (0x80 + n % 64) :: rest) =
      decodeFrom (Char.ofNat n :: done) (index + 4) none rest := by
  have hvalue :
      ((n / 262144 * 64 + n / 4096 % 64) * 64 + n / 64 % 64) * 64 + n % 64 = n := by omega
  obtain ⟨hlow₂, hhigh₂⟩ := second_of_four h h'
  obtain ⟨hk₃, hlow₃, hhigh₃⟩ := continuation_range (n / 64)
  obtain ⟨hk₄, hlow₄, hhigh₄⟩ := continuation_range n
  rw [decodeFrom_lead _ _ (first_four (by omega)),
    decodeFrom_more _ _ (continuation_range (n / 4096)).1 hlow₂ hhigh₂,
    decodeFrom_more _ _ hk₃ hlow₃ hhigh₃, decodeFrom_last _ _ hk₄ hlow₄ hhigh₄, hvalue]

/-- The octets of a character lead from one boundary to the next. -/
theorem decodeFrom_encodeChar (c : Char) :
    decodeFrom done index none (encodeChar c ++ rest) =
      decodeFrom (c :: done) (index + (encodeChar c).length) none rest := by
  have hrange := toNat_range c
  have hback : Char.ofNat c.toNat = c := Char.ofNat_toNat c
  unfold encodeChar
  generalize c.toNat = n at hrange hback ⊢
  subst hback
  dsimp only
  split
  · next h1 => exact decodeFrom_oneOctet done index rest h1
  · split
    · next h1 h2 => exact decodeFrom_twoOctets done index rest (by omega) h2
    · split
      · next h2 h3 => exact decodeFrom_threeOctets done index rest (by omega) (by omega)
      · next h3 => exact decodeFrom_fourOctets done index rest (by omega) (by omega)

end

/-- Reading on through a text that was written. -/
theorem decodeFrom_encode (done : List Char) (index : Nat) (text : List Char) :
    decodeFrom done index none (encode text) = .ok (done.reverse ++ text) := by
  induction text generalizing done index with
  | nil => simp [decodeFrom]
  | cons c text ih => simp [decodeFrom_encodeChar, ih]

/-- Every text is read back. -/
theorem decode_encode (text : List Char) : decode (encode text) = .ok text :=
  decodeFrom_encode [] 0 text

/-- NUL is the octet zero, and no other character has a zero octet. -/
theorem ne_zero_of_mem_encodeChar {c : Char} (hc : c ≠ '\x00') {b : UInt8}
    (hb : b ∈ encodeChar c) : b ≠ 0 := by
  have hrange := toNat_range c
  have hn : c.toNat ≠ 0 := fun h => hc (Char.toNat_inj.mp h)
  have hlead : ∀ m, 0 < m → m < 256 → UInt8.ofNat m ≠ 0 := by
    intro m hpos hlt hzero
    have := congrArg UInt8.toNat hzero
    rw [toNat_ofNat_lt hlt] at this
    exact absurd this (Nat.ne_of_gt hpos)
  unfold encodeChar at hb
  generalize c.toNat = n at hrange hn hb
  dsimp only at hb
  split at hb
  · rw [List.mem_singleton.mp hb]
    exact hlead n (by omega) (by omega)
  · split at hb
    · simp only [List.mem_cons, List.not_mem_nil, or_false] at hb
      rcases hb with rfl | rfl <;> exact hlead _ (by omega) (by omega)
    · split at hb
      · simp only [List.mem_cons, List.not_mem_nil, or_false] at hb
        rcases hb with rfl | rfl | rfl <;> exact hlead _ (by omega) (by omega)
      · simp only [List.mem_cons, List.not_mem_nil, or_false] at hb
        rcases hb with rfl | rfl | rfl | rfl <;> exact hlead _ (by omega) (by omega)

/-- A text has a zero octet where it holds NUL. -/
theorem zero_mem_encode_iff {text : List Char} : 0 ∈ encode text ↔ '\x00' ∈ text := by
  rw [encode, List.mem_flatMap]
  constructor
  · rintro ⟨c, hc, hzero⟩
    by_cases hnul : c = '\x00'
    · exact hnul ▸ hc
    · exact absurd rfl (ne_zero_of_mem_encodeChar hnul hzero)
  · exact fun hnul => ⟨'\x00', hnul, by decide⟩

/-- A text may be cut before or after it is written. -/
theorem untilZero_encode (text : List Char) :
    (encode text).untilZero = encode (untilNul text) := by
  refine takeWhile_flatMap ?_ ?_ text
  · intro c hc b hb
    exact bne_iff_ne.mpr (ne_zero_of_mem_encodeChar (bne_iff_ne.mp hc) hb)
  · intro c hc
    have hc : c = '\x00' := by simpa using hc
    subst hc
    exact ⟨0, [], rfl, by decide⟩

/-- A character is written as `String` keeps it. -/
theorem encodeChar_eq (c : Char) : encodeChar c = String.utf8EncodeChar c := by
  have hrange := toNat_range c
  have hval : c.val.toNat = c.toNat := rfl
  unfold encodeChar String.utf8EncodeChar
  rw [hval]
  generalize c.toNat = n at hrange ⊢
  dsimp only
  by_cases h1 : n < 0x80
  · rw [if_pos h1, if_pos (Nat.le_of_lt_succ h1)]
  have h1' : ¬ n ≤ 0x7F := fun h => h1 (Nat.lt_succ_of_le h)
  rw [if_neg h1, if_neg h1']
  by_cases h2 : n < 0x800
  · have hlead : n / 64 % 32 + 192 = 0xC0 + n / 64 := by omega
    rw [if_pos h2, if_pos (Nat.le_of_lt_succ h2), hlead, Nat.add_comm (n % 64)]
  have h2' : ¬ n ≤ 0x7FF := fun h => h2 (Nat.lt_succ_of_le h)
  rw [if_neg h2, if_neg h2']
  by_cases h3 : n < 0x10000
  · have hlead : n / 4096 % 16 + 224 = 0xE0 + n / 4096 := by omega
    rw [if_pos h3, if_pos (Nat.le_of_lt_succ h3), hlead, Nat.add_comm (n / 64 % 64),
      Nat.add_comm (n % 64)]
  have h3' : ¬ n ≤ 0xFFFF := fun h => h3 (Nat.lt_succ_of_le h)
  have hlead : n / 262144 % 8 + 240 = 0xF0 + n / 262144 := by omega
  rw [if_neg h3, if_neg h3', hlead, Nat.add_comm (n / 4096 % 64), Nat.add_comm (n / 64 % 64),
    Nat.add_comm (n % 64)]

/-- A text is written as `String` keeps it. -/
theorem encode_eq_flatMap (text : List Char) : encode text = text.flatMap String.utf8EncodeChar :=
  congrArg (text.flatMap ·) (funext encodeChar_eq)

end Clipboard.Utf8
