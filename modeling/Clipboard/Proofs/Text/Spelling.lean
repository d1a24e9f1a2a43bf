import Mathlib.Data.List.Basic
import Clipboard.Proofs.Text.Units
import Clipboard.Proofs.Text.Utf8Reading
import Clipboard.Proofs.Text.RoundTrip

/-!
# Octets that spell a text

A text is spelt by octets as the standard of an encoding has it, whoever writes or reads them.
Writing and reading are held to that alone: what is written spells its text, and what is read
is the text that is spelt.

* `Spells.nul_mem_iff`: octets hold a NUL unit where the text that they spell holds NUL;
* `encodeChars_eq_ok_iff`: what is written, and what could have been written;
* `rawChars_eq_ok_iff`: what is read, and what could have been read.
-/

namespace Clipboard

namespace Encoding

/-- Octets spell a text in an encoding. -/
def Spells (e : Encoding) (text : List Char) (bytes : Octets) : Prop :=
  match e with
  | .utf8 => bytes = text.flatMap String.utf8EncodeChar
  | .utf16le => bytes = Utf16.encode text
  -- Every octet is the number of its character.
  | .latin1 => bytes.map UInt8.toNat = text.map Char.toNat
  | .opaqueData => False

theorem spells_utf8 {text : List Char} {bytes : Octets} :
    Spells .utf8 text bytes ↔ bytes = Utf8.encode text := by
  rw [Spells, Utf8.encode_eq_flatMap]

/-- Octets hold a NUL unit where the text that they spell holds NUL. -/
theorem Spells.nul_mem_iff {e : Encoding} {text : List Char} {bytes : Octets}
    (h : e.Spells text bytes) : e.nulUnit ∈ e.units bytes ↔ '\x00' ∈ text := by
  have hsingle : ([0] ∈ bytes.map fun b => [b]) ↔ 0 ∈ bytes := by simp
  cases e with
  | utf8 =>
      rw [← Utf8.zero_mem_encode_iff, ← spells_utf8.mp h]
      exact hsingle
  | utf16le =>
      have hunits : units .utf16le bytes = (Utf16.units text).map Utf16.octetsOfUnit := by
        rw [h]
        exact pairs_octetsOf _
      have hnul : nulUnit .utf16le = Utf16.octetsOfUnit 0 := rfl
      rw [hunits, hnul, List.mem_map_of_injective Utf16.octetsOfUnit_injective,
        Utf16.zero_mem_units_iff]
  | latin1 =>
      have hoctets : Function.Injective UInt8.toNat := fun _ _ => UInt8.toNat_inj.mp
      have hchars : Function.Injective Char.toNat := fun _ _ => Char.toNat_inj.mp
      have hzero : 0 ∈ bytes.map UInt8.toNat ↔ 0 ∈ bytes :=
        List.mem_map_of_injective hoctets (a := 0)
      have hnul : 0 ∈ text.map Char.toNat ↔ '\x00' ∈ text :=
        List.mem_map_of_injective hchars (a := '\x00')
      rw [← hnul, ← h, hzero]
      exact hsingle
  | opaqueData => exact h.elim

end Encoding

namespace Payload

/-! ## Writing -/

/-- What is written spells the text, and what spells the text is written. -/
theorem encodeChars_eq_ok_iff {text : List Char} {e : Encoding} {bytes : Octets} :
    encodeChars text e = .ok bytes ↔ e.Spells text bytes := by
  cases e with
  | utf8 => rw [Encoding.spells_utf8, encodeChars, Except.ok.injEq, eq_comm]
  | utf16le => rw [Encoding.Spells, encodeChars, Except.ok.injEq, eq_comm]
  | latin1 =>
      rw [encodeChars_latin1_iff, Encoding.Spells, ← Latin1.decode_eq_iff]
      constructor
      · rintro ⟨hall, rfl⟩
        exact Latin1.decode_encode hall
      · rintro rfl
        exact ⟨fun _ => Latin1.toNat_lt_of_mem_decode, Latin1.encode_decode bytes⟩
  | opaqueData => simp [encodeChars, Encoding.Spells]

/-- A text can be written in every encoding of texts, if Latin-1 has its characters. -/
theorem exists_encodeChars_iff {text : List Char} {e : Encoding} :
    (∃ bytes, encodeChars text e = .ok bytes) ↔
      e ≠ .opaqueData ∧ (e = .latin1 → ∀ c ∈ text, c.toNat < 256) := by
  cases e with
  | utf8 => simp [encodeChars]
  | utf16le => simp [encodeChars]
  | latin1 => simp [encodeChars_latin1_iff]
  | opaqueData => simp [encodeChars]

/-! ## Reading -/

/-- The octets of content that belong to its text. -/
def textPart (p : Payload) (c : Convention) : Octets :=
  if c.terminated then p.encoding.beforeNul p.bytes else p.bytes

theorem octetsOfText_eq {p : Payload} (h : p.encoding ≠ .utf16le) (c : Convention) :
    octetsOfText c p.bytes = p.textPart c := by
  rw [octetsOfText, textPart, Encoding.beforeNul_of_ne h]

/-- Of whole units, the part of text are the octets of its units. -/
theorem octetsOf_unitsOfText {p : Payload} (he : p.encoding = .utf16le)
    (h : p.bytes.length % 2 = 0) (c : Convention) :
    Utf16.octetsOf (unitsOfText c p.bytes) = p.textPart c := by
  have hbytes : Utf16.octetsOf (Utf16.unitsOf p.bytes) = p.bytes := Utf16.octetsOf_unitsOf h
  unfold unitsOfText textPart
  dsimp only
  split
  · rw [← Encoding.beforeNul_octetsOf, hbytes, he]
  · exact hbytes

theorem octetsOf_injective : Function.Injective Utf16.octetsOf := by
  intro us vs h
  rw [← Utf16.unitsOf_octetsOf us, h, Utf16.unitsOf_octetsOf]

/-- What is read is the text that the octets of text spell, and what spells a text is read. -/
theorem rawChars_eq_ok_iff {p : Payload} {c : Convention} {text : List Char} :
    p.rawChars c = .ok text ↔
      (p.encoding = .utf16le → p.bytes.length % 2 = 0) ∧
        p.encoding.Spells text (p.textPart c) := by
  unfold rawChars
  cases he : p.encoding with
  | utf8 =>
      have hpart := octetsOfText_eq (p := p) (by simp [he]) c
      rw [Encoding.spells_utf8, ← hpart, ← Utf8.decode_eq_ok_iff]
      cases Utf8.decode (octetsOfText c p.bytes) <;> simp [Except.mapError]
  | utf16le =>
      dsimp only
      by_cases heven : p.bytes.length % 2 = 0
      · have hread : p.encoding.Spells text (p.textPart c) ↔
            unitsOfText c p.bytes = Utf16.units text := by
          rw [he, ← octetsOf_unitsOfText he heven]
          exact octetsOf_injective.eq_iff
        rw [if_neg (not_not.mpr heven), ← he, hread, ← Utf16.ofUnits?_eq_some_iff]
        cases Utf16.ofUnits? (unitsOfText c p.bytes) <;> simp [heven]
      · simp [heven]
  | latin1 =>
      have hpart := octetsOfText_eq (p := p) (by simp [he]) c
      rw [Encoding.Spells, ← Latin1.decode_eq_iff, hpart]
      simp
  | opaqueData => simp [Encoding.Spells]

end Payload

end Clipboard
