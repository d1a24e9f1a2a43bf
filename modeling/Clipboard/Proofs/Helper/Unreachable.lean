import Clipboard.Helper.Tool
import Mathlib.Data.List.Infix

/-!
# What a tool says about its display

A tool that cannot reach its display says so in words that are looked for in small letters.
Which letters are small is a matter of Unicode, and only little of that counts: beside the
capitals of ASCII, the Kelvin sign and the dotted capital I have small letters with something of
ASCII in them, and the phrases are such that neither can begin, end or fill a gap in one of them.

* `Lowered`: a text and what it is in small letters, as far as that is said of ASCII;
* `lowered_smallLetters`: every text has such;
* `infix_lowered_iff`: a phrase is found in the small letters of Unicode if it is found in those
  of ASCII;
* `saysUnreachable_iff`: so a tool is understood in either.
-/

namespace Clipboard

/-- A text and what it is in small letters.  A capital of ASCII has a small letter of ASCII.  Two
other characters have small letters with something of ASCII in them, the Kelvin sign and the
dotted capital I, and all others have such as have nothing of it. -/
inductive Lowered : List Char → List Char → Prop
  | nil : Lowered [] []
  | ascii {c : Char} {rest lower : List Char} (hc : c.toNat < 0x80) (h : Lowered rest lower) :
      Lowered (c :: rest) (c.toLower :: lower)
  | kelvin {rest lower : List Char} (h : Lowered rest lower) :
      Lowered ('\u212A' :: rest) ('k' :: lower)
  | dotted {rest lower : List Char} (h : Lowered rest lower) :
      Lowered ('\u0130' :: rest) ('i' :: '\u0307' :: lower)
  | other {c : Char} {rest image lower : List Char} (hc : 0x80 ≤ c.toNat) (hne : image ≠ [])
      (himage : ∀ c' ∈ image, 0x80 ≤ c'.toNat) (h : Lowered rest lower) :
      Lowered (c :: rest) (image ++ lower)

/-- A text in the small letters of ASCII and of the two characters that have something of it. -/
def smallLetters : List Char → List Char
  | [] => []
  | c :: rest =>
    if c.toNat < 0x80 then c.toLower :: smallLetters rest
    else if c = '\u212A' then 'k' :: smallLetters rest
    else if c = '\u0130' then 'i' :: '\u0307' :: smallLetters rest
    else c :: smallLetters rest

theorem lowered_smallLetters (text : List Char) : Lowered text (smallLetters text) := by
  induction text with
  | nil => exact .nil
  | cons c rest ih =>
      rw [smallLetters]
      split_ifs with hascii hkelvin hdotted
      · exact .ascii hascii ih
      · exact hkelvin ▸ .kelvin ih
      · exact hdotted ▸ .dotted ih
      · exact @Lowered.other c rest [c] _ (by omega) (List.cons_ne_nil c [])
          (List.forall_mem_singleton.mpr (by omega)) ih

/-- A phrase that none of the characters beyond ASCII can have a part in: it is made of ASCII,
has no k, and does not end with an i. -/
structure Phrase (phrase : List Char) : Prop where
  ascii : ∀ c ∈ phrase, c.toNat < 0x80
  noK : 'k' ∉ phrase
  ends : phrase.getLast? ≠ some 'i'

theorem occurs_iff {phrase text : List Char} : occurs phrase text = true ↔ phrase <:+: text := by
  induction text with
  | nil => rw [occurs, List.isEmpty_iff, List.infix_nil]
  | cons c rest ih =>
      rw [occurs, Bool.or_eq_true, ih, List.isPrefixOf_iff_prefix, List.infix_cons_iff]

theorem toLower_of_beyond {c : Char} (hc : 0x80 ≤ c.toNat) : c.toLower = c := by
  unfold Char.toLower
  split
  · next hupper =>
      have hle : c.toNat ≤ 90 := hupper.2
      omega
  · rfl

variable {phrase text lower : List Char} {c : Char}

theorem Phrase.tail (h : Phrase (c :: phrase)) (hne : phrase ≠ []) : Phrase phrase where
  ascii c' hc' := h.ascii c' (List.mem_cons_of_mem _ hc')
  noK hk := h.noK (List.mem_cons_of_mem _ hk)
  ends := by
    rw [← List.getLast?_cons_of_ne_nil hne]
    exact h.ends

/-- What begins with a character beyond ASCII does not begin with a phrase. -/
theorem not_prefix_of_beyond (hascii : ∀ c ∈ phrase, c.toNat < 0x80) (hne : phrase ≠ [])
    (hc : 0x80 ≤ c.toNat) (rest : List Char) : ¬ phrase <+: c :: rest := by
  obtain ⟨c', phrase, rfl⟩ := List.exists_cons_of_ne_nil hne
  intro hprefix
  obtain ⟨rfl, -⟩ := List.cons_prefix_cons.mp hprefix
  have hsmall := hascii c' List.mem_cons_self
  omega

/-- Characters beyond ASCII are no place to find a phrase at. -/
theorem infix_beyond_iff (hascii : ∀ c ∈ phrase, c.toNat < 0x80) (hne : phrase ≠ [])
    {image : List Char} (himage : ∀ c ∈ image, 0x80 ≤ c.toNat) (rest : List Char) :
    phrase <:+: image ++ rest ↔ phrase <:+: rest := by
  induction image with
  | nil => rfl
  | cons c image ih =>
      obtain ⟨hc, himage'⟩ := List.forall_mem_cons.mp himage
      rw [List.cons_append, List.infix_cons_iff, ih himage']
      exact or_iff_right (not_prefix_of_beyond hascii hne hc _)

/-- A phrase that begins a text in small letters begins it with its own. -/
theorem Lowered.prefix_iff (h : Lowered text lower) (hphrase : Phrase phrase) (hne : phrase ≠ []) :
    phrase <+: lower ↔ phrase <+: text.map Char.toLower := by
  induction h generalizing phrase with
  | nil => rfl
  | @ascii c rest lower hc h ih =>
      obtain ⟨c', phrase, rfl⟩ := List.exists_cons_of_ne_nil hne
      rw [List.map_cons, List.cons_prefix_cons, List.cons_prefix_cons]
      by_cases hlast : phrase = []
      · simp [hlast]
      · rw [ih (hphrase.tail hlast) hlast]
  | @kelvin rest lower h ih =>
      have hbeyond : (0x80 : Nat) ≤ '\u212A'.toNat := by decide
      rw [List.map_cons, toLower_of_beyond hbeyond]
      refine iff_of_false ?_ (not_prefix_of_beyond hphrase.ascii hne hbeyond _)
      obtain ⟨c', phrase, rfl⟩ := List.exists_cons_of_ne_nil hne
      intro hprefix
      obtain ⟨rfl, -⟩ := List.cons_prefix_cons.mp hprefix
      exact hphrase.noK List.mem_cons_self
  | @dotted rest lower h ih =>
      have hbeyond : (0x80 : Nat) ≤ '\u0130'.toNat := by decide
      rw [List.map_cons, toLower_of_beyond hbeyond]
      refine iff_of_false ?_ (not_prefix_of_beyond hphrase.ascii hne hbeyond _)
      obtain ⟨c', phrase, rfl⟩ := List.exists_cons_of_ne_nil hne
      intro hprefix
      obtain ⟨rfl, hrest⟩ := List.cons_prefix_cons.mp hprefix
      by_cases hlast : phrase = []
      · exact hphrase.ends (by simp [hlast])
      · exact not_prefix_of_beyond (hphrase.tail hlast).ascii hlast (by decide) _ hrest
  | @other c rest image lower hc himagene himage h ih =>
      obtain ⟨c', image, rfl⟩ := List.exists_cons_of_ne_nil himagene
      rw [List.map_cons, toLower_of_beyond hc]
      exact iff_of_false
        (not_prefix_of_beyond hphrase.ascii hne (himage c' List.mem_cons_self) _)
        (not_prefix_of_beyond hphrase.ascii hne hc _)

/-- **A phrase is found in the small letters of Unicode where it is found in those of ASCII.** -/
theorem infix_lowered_iff (h : Lowered text lower) (hphrase : Phrase phrase) (hne : phrase ≠ []) :
    phrase <:+: lower ↔ phrase <:+: text.map Char.toLower := by
  -- A phrase is found at the front, where `prefix_iff` decides, or in the rest.
  induction h with
  | nil => rfl
  | @ascii c rest lower hc h ih =>
      have hprefix := (Lowered.ascii hc h).prefix_iff hphrase hne
      rw [List.map_cons] at hprefix ⊢
      rw [List.infix_cons_iff, List.infix_cons_iff, ih, hprefix]
  | @kelvin rest lower h ih =>
      have hprefix := (Lowered.kelvin h).prefix_iff hphrase hne
      rw [List.map_cons] at hprefix ⊢
      rw [List.infix_cons_iff, List.infix_cons_iff, ih, hprefix]
  | @dotted rest lower h ih =>
      have hprefix := (Lowered.dotted h).prefix_iff hphrase hne
      have hdot : phrase <:+: '\u0307' :: lower ↔ phrase <:+: lower :=
        @infix_beyond_iff phrase hphrase.ascii hne ['\u0307']
          (List.forall_mem_singleton.mpr (by decide)) lower
      rw [List.map_cons] at hprefix ⊢
      rw [List.infix_cons_iff, hdot, List.infix_cons_iff, ih, hprefix]
  | @other c rest image lower hc himagene himage h ih =>
      have hfirst : ¬ phrase <+: c :: rest.map Char.toLower :=
        not_prefix_of_beyond hphrase.ascii hne hc _
      rw [infix_beyond_iff hphrase.ascii hne himage, ih, List.map_cons, toLower_of_beyond hc,
        List.infix_cons_iff]
      exact (or_iff_right hfirst).symm

theorem unreachablePhrases_spec :
    ∀ phrase ∈ unreachablePhrases, Phrase phrase.toList ∧ phrase.toList ≠ [] := by
  have hspec : ∀ phrase ∈ unreachablePhrases, phrase.toList.all (·.toNat < 0x80) = true ∧
      'k' ∉ phrase.toList ∧ phrase.toList.getLast? ≠ some 'i' ∧ phrase.toList ≠ [] := by
    decide
  intro phrase hphrase
  obtain ⟨hascii, hnoK, hends, hne⟩ := hspec phrase hphrase
  refine ⟨⟨fun c hc => ?_, hnoK, hends⟩, hne⟩
  exact of_decide_eq_true (List.all_eq_true.mp hascii c hc)

/-- **A tool is understood in the small letters of Unicode as in those of ASCII.** -/
theorem saysUnreachable_iff {errors : Octets} (h : Lowered (Utf8.decodeLossy errors) lower) :
    saysUnreachable errors = true ↔ ∃ phrase ∈ unreachablePhrases, phrase.toList <:+: lower := by
  unfold saysUnreachable
  rw [List.any_eq_true]
  refine exists_congr fun phrase => and_congr_right fun hmem => ?_
  obtain ⟨hphrase, hne⟩ := unreachablePhrases_spec phrase hmem
  rw [occurs_iff, infix_lowered_iff h hphrase hne]

end Clipboard
