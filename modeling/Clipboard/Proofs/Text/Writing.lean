import Clipboard.Proofs.Text.Reading

/-!
# What can be written as text

A text can be written wherever it can be spelt and its end be told, and what is written is laid
out throughout: line breaks are all alike, and NUL stands at the end or nowhere.  Texts that
differ in the spelling of their line breaks are written alike, and what has been read can
always be written.

* `exists_ofChars_iff`: when a text can be written;
* `ofChars_laid`: what is written of a text;
* `ofText_laid`: both, for every encoding and convention;
* `text_rewritten`: what is read can be written again and is read as it was.
-/

namespace Clipboard.Payload

variable {text : List Char} {e : Encoding} {c : Convention}

/-- A character that is no line break is there before and after a text is laid out. -/
theorem mem_layout_iff {d : Char} (hr : d ≠ '\r') (hn : d ≠ '\n') :
    d ∈ layout c text ↔ d ∈ text := by
  rw [← LineBreaks.mem_unify_iff hr hn (layout c text), unify_layout,
    LineBreaks.mem_unify_iff hr hn]

/-- A text has its characters in Latin-1 before it is laid out if it has them afterwards. -/
theorem layout_latin1_iff :
    (∀ d ∈ layout c text, d.toNat < 256) ↔ ∀ d ∈ text, d.toNat ≤ 0xFF := by
  constructor
  · intro h d hd
    by_cases hr : d = '\r'
    · rw [hr]; decide
    by_cases hn : d = '\n'
    · rw [hn]; decide
    exact Nat.le_of_lt_succ (h d ((mem_layout_iff hr hn).mpr hd))
  · intro h d hd
    by_cases hr : d = '\r'
    · rw [hr]; decide
    by_cases hn : d = '\n'
    · rw [hn]; decide
    exact Nat.lt_succ_of_le (h d ((mem_layout_iff hr hn).mp hd))

/-- A text is written from what it is laid out as, unless it holds a NUL too many. -/
theorem ofChars_eq_ok_iff {p : Payload} :
    ofChars text e c = .ok p ↔
      (c.terminated = true → '\x00' ∉ text) ∧
        ∃ body, encodeChars (layout c text) e = .ok body ∧
          p = ⟨body ++ terminator e c, e⟩ := by
  unfold ofChars
  split
  · next hnul =>
      obtain ⟨ht, hmem⟩ : c.terminated = true ∧ '\x00' ∈ text := by simpa using hnul
      exact ⟨nofun, fun h => absurd hmem (h.1 ht)⟩
  · next hnul =>
      have hfree : c.terminated = true → '\x00' ∉ text := by simpa using hnul
      cases encodeChars (layout c text) e with
      | error fault => exact ⟨nofun, fun ⟨_, _, h, _⟩ => nomatch h⟩
      | ok body =>
          constructor
          · intro h
            exact ⟨hfree, body, rfl, (Except.ok.inj h).symm⟩
          · rintro ⟨-, body', hbody, rfl⟩
            obtain rfl := Except.ok.inj hbody
            rfl

/-- When a text can be written. -/
theorem exists_ofChars_iff :
    (∃ p, ofChars text e c = .ok p) ↔
      e ≠ .opaqueData ∧ (c.terminated = true → '\x00' ∉ text) ∧
        (e = .latin1 → ∀ d ∈ text, d.toNat ≤ 0xFF) := by
  have hwritten : (∃ p, ofChars text e c = .ok p) ↔
      (c.terminated = true → '\x00' ∉ text) ∧ ∃ body, encodeChars (layout c text) e = .ok body := by
    constructor
    · rintro ⟨p, h⟩
      obtain ⟨hfree, body, hbody, -⟩ := ofChars_eq_ok_iff.mp h
      exact ⟨hfree, body, hbody⟩
    · rintro ⟨hfree, body, hbody⟩
      exact ⟨_, ofChars_eq_ok_iff.mpr ⟨hfree, body, hbody, rfl⟩⟩
  rw [hwritten, exists_encodeChars_iff, layout_latin1_iff]
  tauto

/-- Texts with the same canonical form are written alike, or refused alike. -/
theorem ofChars_unify : ofChars (LineBreaks.unify text) e c = ofChars text e c := by
  have hnul : (LineBreaks.unify text).contains '\x00' = text.contains '\x00' := by
    rw [Bool.eq_iff_iff, List.contains_iff_mem, List.contains_iff_mem]
    exact LineBreaks.mem_unify_iff (by decide) (by decide) text
  rw [ofChars, ofChars, hnul, layout_unify]

/-- Spelt texts are of whole units. -/
theorem whole_of_spells {body : Octets} (h : e.Spells text body) : e.Whole body := by
  by_cases he : e = .utf16le
  · subst he
    have hlength : body.length = 2 * (Utf16.units text).length := by
      rw [h]
      exact Utf16.length_octetsOf _
    exact ⟨_, hlength⟩
  · rw [Encoding.Whole, Encoding.unitWidth_of_ne he]
    exact Nat.one_dvd _

theorem terminator_eq (e : Encoding) (c : Convention) :
    terminator e c = if c.terminated then e.nulUnit else [] := rfl

/-- Where NUL ends a text, the end is one unit after the units of the text. -/
theorem units_terminated {body : Octets} (h : e.Whole body) (hc : c.terminated = true) :
    e.units (body ++ terminator e c) = e.units body ++ [e.nulUnit] := by
  rw [Encoding.units_append h, terminator_eq, if_pos hc, Encoding.units_nulUnit]

/-- The lines of a text that is laid out end as the platform has it. -/
theorem layout_lines (c : Convention) (text : List Char) :
    (c.crlf = true → LineBreaks.Paired (layout c text)) ∧
      (c.crlf = false → '\r' ∉ layout c text) := by
  have hcanon := LineBreaks.cr_notMem_unify text
  unfold layout
  constructor
  · intro hcrlf
    simpa [hcrlf] using LineBreaks.paired_expand hcanon
  · intro hcrlf
    simpa [hcrlf] using hcanon

/-- A text has as many line breaks after it is laid out as before. -/
theorem breaks_layout (c : Convention) (text : List Char) :
    LineBreaks.breaks (layout c text) = LineBreaks.breaks text := by
  rw [LineBreaks.breaks_eq_count, LineBreaks.breaks_eq_count, unify_layout]

/-- What is written of a text spells its layout, and holds NUL at its end or not at all. -/
theorem ofChars_laid {p : Payload} (h : ofChars text e c = .ok p) :
    ∃ body, p = ⟨body ++ terminator e c, e⟩ ∧ e.Spells (layout c text) body ∧
      (c.terminated = true → e.nulUnit ∉ e.units body) := by
  obtain ⟨hfree, body, hbody, rfl⟩ := ofChars_eq_ok_iff.mp h
  have hspells := encodeChars_eq_ok_iff.mp hbody
  refine ⟨body, rfl, hspells, fun hc hnul => ?_⟩
  have hlaid : '\x00' ∈ layout c text := hspells.nul_mem_iff.mp hnul
  exact hfree hc ((mem_layout_iff (by decide) (by decide)).mp hlaid)

/-- **Writing.**  A text can be written in every encoding of texts, unless it holds NUL where
NUL ends a text or has a character above U+00FF where that is Latin-1; a text that differs from
it in its line breaks alone is written alike, or refused alike.  What is written are units that
spell the text with the line breaks of the platform, as many as the text has, and where NUL ends
a text there is one NUL unit, which is the last. -/
theorem ofText_laid (text : String) (e : Encoding) (c : Convention) :
    ((∃ p, ofText text e c = .ok p) ↔
      e ≠ .opaqueData ∧ (c.terminated = true → '\x00' ∉ text.toList) ∧
        (e = .latin1 → ∀ d ∈ text.toList, d.toNat ≤ 0xFF)) ∧
    ofText (LineBreaks.unifyText text) e c = ofText text e c ∧
    ∀ p, ofText text e c = .ok p → p.encoding = e ∧
      ∃ body laid, e.Spells laid body ∧
        (c.terminated = true → e.units p.bytes = e.units body ++ [e.nulUnit] ∧
          e.nulUnit ∉ e.units body) ∧
        (c.terminated = false → p.bytes = body) ∧
        (c.crlf = true → LineBreaks.Paired laid) ∧ (c.crlf = false → '\r' ∉ laid) ∧
        LineBreaks.breaks laid = LineBreaks.breaks text.toList := by
  refine ⟨exists_ofChars_iff, ?_, fun p h => ?_⟩
  · rw [ofText, ofText, LineBreaks.unifyText_eq, String.toList_ofList]
    exact ofChars_unify
  · obtain ⟨body, rfl, hspells, hnul⟩ := ofChars_laid h
    obtain ⟨hpaired, hplain⟩ := layout_lines c text.toList
    refine ⟨rfl, body, layout c text.toList, hspells, ?_, ?_, hpaired, hplain, breaks_layout c _⟩
    · intro hc
      exact ⟨units_terminated (whole_of_spells hspells) hc, hnul hc⟩
    · intro hc
      show body ++ terminator e c = body
      rw [terminator_eq, hc]
      exact List.append_nil body

/-- A text with mixed line breaks, written with CR LF and a NUL. -/
example : ofText "a\r\nb\rc\n" .utf8 .windows =
    .ok ⟨[0x61, 0x0D, 0x0A, 0x62, 0x0D, 0x0A, 0x63, 0x0D, 0x0A, 0], .utf8⟩ := by decide

/-- **Writing what was read.**  A text that was read has no CR, and no NUL where NUL ends a
text; it can be written as the content that it was read from was, and is read again as it is. -/
theorem text_rewritten {p : Payload} {c : Convention} {text : String}
    (h : p.text c = .ok text) :
    '\r' ∉ text.toList ∧ (c.terminated = true → '\x00' ∉ text.toList) ∧
      ∃ q, ofText text p.encoding c = .ok q ∧ q.text c = .ok text := by
  obtain ⟨spelt, hraw, rfl⟩ := text_eq_ok_iff.mp h
  obtain ⟨-, hspells⟩ := rawChars_eq_ok_iff.mp hraw
  have hcanon := LineBreaks.cr_notMem_unify spelt
  have hfree : c.terminated = true → '\x00' ∉ spelt := by
    intro hc hmem
    have hnul := hspells.nul_mem_iff.mpr hmem
    rw [textPart, if_pos hc] at hnul
    exact p.encoding.nulUnit_notMem_beforeNul p.bytes hnul
  obtain ⟨hencoded, hlatin1⟩ := exists_encodeChars_iff.mp ⟨_, encodeChars_eq_ok_iff.mpr hspells⟩
  obtain ⟨q, hq⟩ : ∃ q, ofChars spelt p.encoding c = .ok q :=
    exists_ofChars_iff.mpr ⟨hencoded, hfree, fun he d hd => Nat.le_of_lt_succ (hlatin1 he d hd)⟩
  have hwritten : ofText (String.ofList (LineBreaks.unify spelt)) p.encoding c = .ok q := by
    rw [ofText, String.toList_ofList, ofChars_unify, hq]
  rw [String.toList_ofList]
  refine ⟨hcanon, fun hc hmem => ?_, q, hwritten, ?_⟩
  · exact hfree hc ((LineBreaks.mem_unify_iff (by decide) (by decide) spelt).mp hmem)
  · rw [text_of_ofText hwritten, LineBreaks.unifyText_eq, String.toList_ofList,
      LineBreaks.unify_eq_self hcanon]

/-- What a buffer holds that is larger than its text, half a pair included, is not written
again. -/
theorem text_rewritten_cut :
    (⟨[0x41, 0, 0x0D, 0, 0x42, 0, 0, 0, 0x3D, 0xD8], .utf16le⟩ : Payload).text .windows =
        .ok "A\nB" ∧
      ∃ q, ofText "A\nB" .utf16le .windows = .ok q ∧ q.text .windows = .ok "A\nB" := by
  have h : (⟨[0x41, 0, 0x0D, 0, 0x42, 0, 0, 0, 0x3D, 0xD8], .utf16le⟩ : Payload).text .windows =
      .ok "A\nB" := by decide
  exact ⟨h, (text_rewritten h).2.2⟩

end Clipboard.Payload
