import Clipboard.Text.Latin1
import Clipboard.Proofs.Text.Terminator

/-!
# Reading Latin-1 that was written

A character with a place in Latin-1 is one octet of its own number, so a text
of such characters is read back (`decode_encode`), and may be cut at its first
NUL before or after it is written (`untilZero_encode`).  All octets can be read,
and what is read of them is written as they were (`encode_decode`).
-/

namespace Clipboard.Latin1

/-- A text without a foreign character is one that Latin-1 holds throughout. -/
theorem foreign?_eq_none_iff {text : List Char} :
    foreign? text = none ↔ ∀ c ∈ text, c.toNat < 256 := by
  simp [foreign?, holds]

/-- Every text that can be written is read back. -/
theorem decode_encode {text : List Char} (h : ∀ c ∈ text, c.toNat < 256) :
    decode (encode text) = text := by
  induction text with
  | nil => rfl
  | cons c text ih =>
      have hc : (UInt8.ofNat c.toNat).toNat = c.toNat :=
        UInt8.toNat_ofNat_of_lt' (h c List.mem_cons_self)
      have htail : decode (encode text) = text := ih fun d hd => h d (List.mem_cons_of_mem _ hd)
      show Char.ofNat (UInt8.ofNat c.toNat).toNat :: decode (encode text) = c :: text
      rw [hc, Char.ofNat_toNat, htail]

/-- Among the characters that can be written, NUL alone has the octet zero. -/
theorem ofNat_eq_zero_iff {c : Char} (h : c.toNat < 256) :
    UInt8.ofNat c.toNat = 0 ↔ c = '\x00' := by
  constructor
  · intro hzero
    have hn := congrArg UInt8.toNat hzero
    rw [UInt8.toNat_ofNat_of_lt' h] at hn
    exact Char.toNat_inj.mp hn
  · rintro rfl
    rfl

/-- A text may be cut before or after it is written. -/
theorem untilZero_encode {text : List Char} (h : ∀ c ∈ text, c.toNat < 256) :
    (encode text).untilZero = encode (untilNul text) := by
  induction text with
  | nil => rfl
  | cons c text ih =>
      have hzero := ofNat_eq_zero_iff (h c List.mem_cons_self)
      have htail := ih fun d hd => h d (List.mem_cons_of_mem _ hd)
      unfold Octets.untilZero untilNul encode at htail ⊢
      rw [List.map_cons, List.takeWhile_cons, List.takeWhile_cons, htail]
      by_cases hc : c = '\x00'
      · simp [hc]
      · simp [hc, hzero]

/-- An octet is the number of the character that it is read as. -/
theorem toNat_charOfOctet (b : UInt8) : (Char.ofNat b.toNat).toNat = b.toNat := by
  have hb : b.toNat < 256 := b.toNat_lt
  exact toNat_charOfNat (by omega)

/-- What is read are characters that can be written. -/
theorem toNat_lt_of_mem_decode {bytes : Octets} {c : Char} (h : c ∈ decode bytes) :
    c.toNat < 256 := by
  obtain ⟨b, -, rfl⟩ := List.mem_map.mp h
  rw [toNat_charOfOctet]
  exact b.toNat_lt

/-- What is read is written as it was. -/
theorem encode_decode (bytes : Octets) : encode (decode bytes) = bytes := by
  induction bytes with
  | nil => rfl
  | cons b bytes ih =>
      show UInt8.ofNat (Char.ofNat b.toNat).toNat :: encode (decode bytes) = b :: bytes
      rw [toNat_charOfOctet, UInt8.ofNat_toNat, ih]

/-- Octets are read as the text of their numbers. -/
theorem decode_eq_iff {bytes : Octets} {text : List Char} :
    decode bytes = text ↔ bytes.map UInt8.toNat = text.map Char.toNat := by
  constructor
  · rintro rfl
    rw [decode, List.map_map]
    exact List.map_congr_left fun b _ => (toNat_charOfOctet b).symm
  · intro h
    have hread : decode bytes = (bytes.map UInt8.toNat).map Char.ofNat := by
      rw [decode, List.map_map]
      rfl
    have htext : (text.map Char.toNat).map Char.ofNat = text := by
      rw [List.map_map]
      exact (List.map_congr_left fun c _ => Char.ofNat_toNat c).trans (List.map_id text)
    rw [hread, h, htext]

end Clipboard.Latin1
