import Clipboard.Payload
import Clipboard.Proofs.Text.LineBreaks
import Clipboard.Proofs.Text.Utf8
import Clipboard.Proofs.Text.Utf16
import Clipboard.Proofs.Text.Latin1

/-!
# Texts written and read

What is written is the layout of a text and, where NUL ends a text, a NUL after
it; both are characters, so that the terminator is read like any other.  What is
read back from characters is those characters, cut at the first NUL where the
reader's convention says so, whatever the encoding is.  Layout can be undone and
cutting commutes with it, which leaves the cases of `text_ofText`.

* `encodeChars_of_ofChars`: what a written payload spells;
* `rawChars_of_encodeChars`: what is read of octets that were written;
* `unify_layout`, `untilNul_layout`: layout and canonical form, layout and cut;
* `text_ofText`: a text written under one convention and read under another.
-/

namespace Clipboard.Payload

/-- The characters of a text that a reader takes in. -/
def readTo (convention : Convention) (text : List Char) : List Char :=
  if convention.terminated then untilNul text else text

/-- The NUL that ends a text, where a platform has one. -/
def ending (convention : Convention) : List Char :=
  if convention.terminated then ['\x00'] else []

/-- A text without CR is laid out from its own lines. -/
theorem layout_of_canonical (c : Convention) {text : List Char} (h : '\r' ∉ text) :
    layout c text = if c.crlf then LineBreaks.expand text else text := by
  rw [layout, LineBreaks.unify_eq_self h]

theorem layout_unify (c : Convention) (text : List Char) :
    layout c (LineBreaks.unify text) = layout c text := by
  rw [layout, LineBreaks.unify_unify]
  rfl

/-- Layout changes nothing but the line breaks. -/
theorem unify_layout (c : Convention) (text : List Char) :
    LineBreaks.unify (layout c text) = LineBreaks.unify text := by
  have hcr := LineBreaks.cr_notMem_unify text
  unfold layout
  dsimp only
  split
  · exact LineBreaks.unify_expand hcr
  · exact LineBreaks.unify_eq_self hcr

/-- A text may be cut before or after it is laid out. -/
theorem untilNul_layout (c : Convention) (text : List Char) :
    untilNul (layout c text) = layout c (untilNul (LineBreaks.unify text)) := by
  have hcr : '\r' ∉ untilNul (LineBreaks.unify text) :=
    fun h => LineBreaks.cr_notMem_unify text (mem_of_mem_untilNul h)
  rw [layout_of_canonical c hcr, layout]
  split
  · exact LineBreaks.untilNul_expand _
  · rfl

/-- A NUL after the lines is laid out as it is. -/
theorem layout_append_nul (c : Convention) (text : List Char) :
    layout c text ++ ['\x00'] = layout c (LineBreaks.unify text ++ ['\x00']) := by
  have hcr : '\r' ∉ LineBreaks.unify text ++ ['\x00'] := by
    simp [LineBreaks.cr_notMem_unify]
  rw [layout_of_canonical c hcr, layout]
  split
  · rw [LineBreaks.expand_append]
    rfl
  · rfl

/-- Latin-1 takes a text of characters that it holds, each as one octet. -/
theorem encodeChars_latin1_iff {text : List Char} {bytes : Octets} :
    encodeChars text .latin1 = .ok bytes ↔
      (∀ c ∈ text, c.toNat < 256) ∧ Latin1.encode text = bytes := by
  rw [← Latin1.foreign?_eq_none_iff, encodeChars]
  cases Latin1.foreign? text <;> simp

/-- A terminator is the NUL that it stands for. -/
theorem encodeChars_append_ending {text : List Char} {e : Encoding} {bytes : Octets}
    (h : encodeChars text e = .ok bytes) (c : Convention) :
    encodeChars (text ++ ending c) e = .ok (bytes ++ terminator e c) := by
  unfold ending terminator
  split
  · cases e with
    | utf8 =>
        cases h
        exact congrArg Except.ok (Utf8.encode_append text ['\x00'])
    | utf16le =>
        cases h
        show Except.ok (Utf16.octetsOf (Utf16.units (text ++ ['\x00']))) = _
        rw [Utf16.units, List.flatMap_append, Utf16.octetsOf_append]
        rfl
    | latin1 =>
        obtain ⟨hall, rfl⟩ := encodeChars_latin1_iff.mp h
        refine encodeChars_latin1_iff.mpr ⟨?_, by simp [Latin1.encode]; rfl⟩
        intro d hd
        rcases List.mem_append.mp hd with hd | hd
        · exact hall d hd
        · rw [List.mem_singleton.mp hd]
          decide
    | opaqueData => cases h
  · rw [List.append_nil, List.append_nil, h]

/-- A written payload spells the layout of its text and the terminator. -/
theorem encodeChars_of_ofChars {text : List Char} {e : Encoding} {c : Convention} {p : Payload}
    (h : ofChars text e c = .ok p) :
    p.encoding = e ∧ encodeChars (layout c text ++ ending c) e = .ok p.bytes ∧
      (c.terminated = true → '\x00' ∉ text) := by
  unfold ofChars at h
  split at h
  · cases h
  · next hnul =>
      cases hbytes : encodeChars (layout c text) e with
      | error fault =>
          rw [hbytes] at h
          cases h
      | ok bytes =>
          rw [hbytes] at h
          cases h
          refine ⟨rfl, encodeChars_append_ending hbytes c, fun ht hmem => hnul ?_⟩
          simp [ht, hmem]

theorem octetsOfText_utf8 (c : Convention) (text : List Char) :
    octetsOfText c (Utf8.encode text) = Utf8.encode (readTo c text) := by
  unfold octetsOfText readTo
  split
  · exact Utf8.untilZero_encode text
  · rfl

theorem octetsOfText_latin1 (c : Convention) {text : List Char}
    (h : ∀ d ∈ text, d.toNat < 256) :
    octetsOfText c (Latin1.encode text) = Latin1.encode (readTo c text) := by
  unfold octetsOfText readTo
  split
  · exact Latin1.untilZero_encode h
  · rfl

theorem unitsOfText_utf16 (c : Convention) (text : List Char) :
    unitsOfText c (Utf16.encode text) = Utf16.units (readTo c text) := by
  rw [unitsOfText, Utf16.encode, Utf16.unitsOf_octetsOf, readTo]
  split
  · exact Utf16.untilZero_units text
  · rfl

theorem mem_of_mem_readTo {c : Convention} {text : List Char} {d : Char}
    (h : d ∈ readTo c text) : d ∈ text := by
  unfold readTo at h
  split at h
  · exact mem_of_mem_untilNul h
  · exact h

/-- Octets that were written are read back, up to the first NUL where the
reader's convention ends a text there. -/
theorem rawChars_of_encodeChars {text : List Char} {p : Payload}
    (h : encodeChars text p.encoding = .ok p.bytes) (c : Convention) :
    p.rawChars c = .ok (readTo c text) := by
  obtain ⟨bytes, e⟩ := p
  unfold rawChars
  cases e with
  | utf8 =>
      obtain rfl : Utf8.encode text = bytes := Except.ok.inj h
      dsimp only
      rw [octetsOfText_utf8, Utf8.decode_encode]
      rfl
  | utf16le =>
      obtain rfl : Utf16.encode text = bytes := Except.ok.inj h
      have heven : (Utf16.encode text).length % 2 = 0 := by
        rw [Utf16.encode, Utf16.length_octetsOf]
        omega
      dsimp only
      rw [if_neg (not_not.mpr heven), unitsOfText_utf16, Utf16.ofUnits?_units]
  | latin1 =>
      obtain ⟨hall, rfl⟩ := encodeChars_latin1_iff.mp h
      have hread : ∀ d ∈ readTo c text, d.toNat < 256 := fun d hd => hall d (mem_of_mem_readTo hd)
      dsimp only
      rw [octetsOfText_latin1 c hall, Latin1.decode_encode hread]
  | opaqueData => cases h

/-- What a reader hears of a text: its canonical form with the writer's NUL, cut
where the reader ends it. -/
def heard (written read : Convention) (text : List Char) : List Char :=
  readTo read (LineBreaks.unify text ++ ending written)

/-- A text that was written is read as what is heard of it. -/
theorem chars_of_ofChars {text : List Char} {e : Encoding} {c₁ c₂ : Convention} {p : Payload}
    (h : ofChars text e c₁ = .ok p) : p.chars c₂ = .ok (heard c₁ c₂ text) := by
  obtain ⟨rfl, hbytes, _⟩ := encodeChars_of_ofChars h
  have hlaid : layout c₁ text ++ ending c₁ = layout c₁ (LineBreaks.unify text ++ ending c₁) := by
    unfold ending
    split
    · exact layout_append_nul c₁ text
    · rw [List.append_nil, List.append_nil, layout_unify]
  have hcanon : '\r' ∉ LineBreaks.unify text ++ ending c₁ := by
    unfold ending
    split <;> simp [LineBreaks.cr_notMem_unify]
  rw [chars, rawChars_of_encodeChars hbytes c₂, hlaid]
  show Except.ok (LineBreaks.unify (readTo c₂ (layout c₁ _))) = _
  unfold heard readTo
  split
  · rw [untilNul_layout, unify_layout, LineBreaks.unify_eq_self hcanon,
      LineBreaks.unify_eq_self fun hr => hcanon (mem_of_mem_untilNul hr)]
  · rw [unify_layout, LineBreaks.unify_eq_self hcanon]

/-- Where both conventions end a text alike, the canonical form is heard.  A
writer that ends texts by NUL has refused those that hold one. -/
theorem heard_of_agree {c₁ c₂ : Convention} {text : List Char}
    (hagree : c₁.terminated = c₂.terminated) (hnul : c₁.terminated = true → '\x00' ∉ text) :
    heard c₁ c₂ text = LineBreaks.unify text := by
  unfold heard readTo ending
  rw [← hagree]
  split
  · next ht =>
      have hnul' : '\x00' ∉ LineBreaks.unify text := by
        rw [LineBreaks.mem_unify_iff (by decide) (by decide)]
        exact hnul ht
      exact untilNul_append_nul hnul' []
  · exact List.append_nil _

theorem heard_of_read {c₁ c₂ : Convention} (text : List Char)
    (h₁ : c₁.terminated = false) (h₂ : c₂.terminated = true) :
    heard c₁ c₂ text = untilNul (LineBreaks.unify text) := by
  simp [heard, readTo, ending, h₁, h₂]

theorem heard_of_written {c₁ c₂ : Convention} (text : List Char)
    (h₁ : c₁.terminated = true) (h₂ : c₂.terminated = false) :
    heard c₁ c₂ text = LineBreaks.unify text ++ ['\x00'] := by
  simp [heard, readTo, ending, h₁, h₂]

/-- A text that was written is read as what is heard of it. -/
theorem text_eq_heard {text : String} {e : Encoding} {c₁ c₂ : Convention} {p : Payload}
    (h : ofText text e c₁ = .ok p) :
    p.text c₂ = .ok (String.ofList (heard c₁ c₂ text.toList)) := by
  rw [Payload.text, chars_of_ofChars h]
  rfl

/-- A text that was written is read back in its canonical form under the same
convention. -/
theorem text_of_ofText {text : String} {e : Encoding} {c : Convention} {p : Payload}
    (h : ofText text e c = .ok p) : p.text c = .ok (LineBreaks.unifyText text) := by
  rw [text_eq_heard h, heard_of_agree rfl (encodeChars_of_ofChars h).2.2, LineBreaks.unifyText_eq]

/-- In UTF-8 and without an ending any text can be written. -/
theorem ofText_unix (text : String) :
    ofText text .utf8 .unix = .ok ⟨Utf8.encode (LineBreaks.unify text.toList), .utf8⟩ := by
  rw [ofText, ofChars, ← List.append_nil (Utf8.encode _)]
  rfl

/-- **Round trip.**  A text that can be written is always read again, whatever
convention the reader has.  What is read is the canonical form of the text if
writer and reader agree on how texts end.  If the reader alone ends texts by NUL,
it is cut before its first NUL, and if the writer alone does, a NUL follows it. -/
theorem text_ofText {text : String} {e : Encoding} {c₁ c₂ : Convention} {p : Payload}
    (h : ofText text e c₁ = .ok p) :
    (c₁.terminated = c₂.terminated → p.text c₂ = .ok (LineBreaks.unifyText text)) ∧
    (c₁.terminated = false → c₂.terminated = true →
      p.text c₂ = .ok (String.ofList (untilNul (LineBreaks.unifyText text).toList))) ∧
    (c₁.terminated = true → c₂.terminated = false →
      p.text c₂ = .ok ((LineBreaks.unifyText text).push '\x00')) := by
  rw [text_eq_heard h, LineBreaks.unifyText_eq]
  refine ⟨fun hagree => ?_, fun h₁ h₂ => ?_, fun h₁ h₂ => ?_⟩
  · rw [heard_of_agree hagree (encodeChars_of_ofChars h).2.2]
  · rw [heard_of_read _ h₁ h₂, String.toList_ofList]
  · refine congrArg Except.ok (String.toList_inj.mp ?_)
    rw [heard_of_written _ h₁ h₂, String.toList_push, String.toList_ofList, String.toList_ofList]

/-- A text of two lines with a surrogate pair, written with CR LF and a NUL and
read without either. -/
theorem text_ofText_windows_unix :
    ofText "é\r😀" .utf16le .windows =
        .ok ⟨[0xE9, 0, 0x0D, 0, 0x0A, 0, 0x3D, 0xD8, 0, 0xDE, 0, 0], .utf16le⟩ ∧
      (⟨[0xE9, 0, 0x0D, 0, 0x0A, 0, 0x3D, 0xD8, 0, 0xDE, 0, 0], .utf16le⟩ : Payload).text .unix =
        .ok ((LineBreaks.unifyText "é\r😀").push '\x00') := by
  have h : ofText "é\r😀" .utf16le .windows =
      .ok ⟨[0xE9, 0, 0x0D, 0, 0x0A, 0, 0x3D, 0xD8, 0, 0xDE, 0, 0], .utf16le⟩ := by decide
  exact ⟨h, (text_ofText h).2.2 rfl rfl⟩

end Clipboard.Payload
