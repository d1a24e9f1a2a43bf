import Clipboard.Failure
import Clipboard.Proofs.Text.Spelling

/-!
# What can be read as text

Which content is read as a text, and as which, is told by its octets alone: those before the
first NUL unit where NUL ends a text, and all of them elsewhere.  They have to spell a text, and
UTF-16 has to be whole, which is looked at in all of the content.

* `rawChars_congr`: content with the same octets of text is read alike;
* `text_spelt`: what is read as a text, and what comes of the rest.
-/

namespace Clipboard.Payload

theorem unitsOfText_eq_iff {p q : Payload} (hp : p.encoding = .utf16le)
    (hq : q.encoding = .utf16le) (hwp : p.bytes.length % 2 = 0) (hwq : q.bytes.length % 2 = 0)
    (c : Convention) :
    unitsOfText c p.bytes = unitsOfText c q.bytes ↔ p.textPart c = q.textPart c := by
  rw [← octetsOf_unitsOfText hp hwp, ← octetsOf_unitsOfText hq hwq]
  exact octetsOf_injective.eq_iff.symm

/-- Whole content with the same octets of text is read alike, faults and all. -/
theorem rawChars_congr {p q : Payload} (he : p.encoding = q.encoding)
    (hwp : p.encoding.Whole p.bytes) (hwq : q.encoding.Whole q.bytes) {c : Convention}
    (hpart : p.textPart c = q.textPart c) : p.rawChars c = q.rawChars c := by
  unfold rawChars
  rw [he]
  cases hq : q.encoding with
  | utf8 =>
      have hoctets : octetsOfText c p.bytes = octetsOfText c q.bytes := by
        rw [octetsOfText_eq (by simp [he, hq]), octetsOfText_eq (by simp [hq]), hpart]
      dsimp only
      rw [hoctets]
  | utf16le =>
      have hp : p.encoding = .utf16le := he.trans hq
      rw [hp] at hwp
      rw [hq] at hwq
      have hep := Encoding.whole_utf16le_iff.mp hwp
      have heq := Encoding.whole_utf16le_iff.mp hwq
      have hunits := (unitsOfText_eq_iff hp hq hep heq c).mpr hpart
      dsimp only
      rw [if_neg (not_not.mpr hep), if_neg (not_not.mpr heq), hunits]
  | latin1 =>
      have hoctets : octetsOfText c p.bytes = octetsOfText c q.bytes := by
        rw [octetsOfText_eq (by simp [he, hq]), octetsOfText_eq (by simp [hq]), hpart]
      dsimp only
      rw [hoctets]
  | opaqueData => rfl

/-- A text is read where its characters are. -/
theorem text_eq_ok_iff {p : Payload} {c : Convention} {text : String} :
    p.text c = .ok text ↔
      ∃ spelt, p.rawChars c = .ok spelt ∧ text = String.ofList (LineBreaks.unify spelt) := by
  unfold Payload.text chars
  cases p.rawChars c with
  | error fault => simp [Except.map]
  | ok spelt => simp [Except.map, eq_comm]

/-- What comes after a NUL unit is no part of a text that NUL ends. -/
theorem textPart_append {p : Payload} (h : p.encoding.Whole p.bytes) {c : Convention}
    (hc : c.terminated = true) (later : Octets) :
    (⟨p.bytes ++ p.encoding.nulUnit ++ later, p.encoding⟩ : Payload).textPart c =
      p.textPart c := by
  rw [textPart, textPart, if_pos hc, if_pos hc]
  exact Encoding.beforeNul_append h later

/-- **Reading.**  Content is read as a text if it has an encoding, is of whole units where
that is UTF-16, and its octets of text spell a text in the encoding: the canonical form of that
text is what is read.  All other content is refused for its encoding.  Where NUL ends a text,
a NUL unit and any whole units after it make no difference. -/
theorem text_spelt (p : Payload) (c : Convention) :
    (∀ text, p.text c = .ok text ↔
      p.encoding ≠ .opaqueData ∧ (p.encoding = .utf16le → p.bytes.length % 2 = 0) ∧
        ∃ spelt : String, p.encoding.Spells spelt.toList (p.textPart c) ∧
          text = LineBreaks.unifyText spelt) ∧
    ((∀ text, p.text c ≠ .ok text) →
      ∃ reason, (p.text c).mapError AccessError.ofText = .error (.badEncoding reason)) ∧
    (c.terminated = true → p.encoding.Whole p.bytes → ∀ later, p.encoding.Whole later →
      (⟨p.bytes ++ p.encoding.nulUnit ++ later, p.encoding⟩ : Payload).text c = p.text c) := by
  refine ⟨fun text => ?_, fun hrefused => ?_, fun hc hwhole later hlater => ?_⟩
  · rw [text_eq_ok_iff]
    constructor
    · rintro ⟨spelt, hraw, rfl⟩
      obtain ⟨heven, hspells⟩ := rawChars_eq_ok_iff.mp hraw
      have hencoded : p.encoding ≠ .opaqueData := by
        intro he
        rw [he] at hspells
        exact hspells
      refine ⟨hencoded, heven, String.ofList spelt, ?_, ?_⟩
      · rwa [String.toList_ofList]
      · rw [LineBreaks.unifyText_eq, String.toList_ofList]
    · rintro ⟨-, heven, spelt, hspells, rfl⟩
      exact ⟨spelt.toList, rawChars_eq_ok_iff.mpr ⟨heven, hspells⟩, LineBreaks.unifyText_eq spelt⟩
  · cases hread : p.text c with
    | ok text => exact absurd hread (hrefused text)
    | error fault => exact ⟨fault.message, rfl⟩
  · have hlonger : p.encoding.Whole (p.bytes ++ p.encoding.nulUnit ++ later) :=
      (hwhole.append p.encoding.whole_nulUnit).append hlater
    have hraw : (⟨p.bytes ++ p.encoding.nulUnit ++ later, p.encoding⟩ : Payload).rawChars c =
        p.rawChars c := by
      apply rawChars_congr
      · rfl
      · exact hlonger
      · exact hwhole
      · exact textPart_append hwhole hc later
    rw [Payload.text, Payload.text, chars, chars, hraw]

end Clipboard.Payload
