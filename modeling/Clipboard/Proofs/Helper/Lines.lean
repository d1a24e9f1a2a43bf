import Clipboard.Proofs.Helper.Listings
import Clipboard.Proofs.Text.Utf8Pieces

/-!
# The lines of a listing

The names in a listing are those on its lines, and the name on a line is what is left of it
without the white space around it.  So it does not matter in which order the lines come, how
often each of them comes, and how they are padded.

* `piecewise`: induction over the pieces of a list between separators;
* `mem_namesIn_iff`: the names in a listing, by the text of its lines;
* `namesIn_eq_flatMap`, `Padded.namesIn_eq`: the same by their octets;
* `SameLines.mem_namesIn_iff`: listings with the same lines have the same names.
-/

namespace Clipboard

/-- What holds of a list without separators, and of one piece and more pieces if it holds of
these, holds of every list. -/
@[elab_as_elim]
theorem piecewise {α : Type} [DecidableEq α] {motive : List α → Prop} (sep : α)
    (last : ∀ piece, sep ∉ piece → motive piece)
    (more : ∀ piece rest, sep ∉ piece → motive rest → motive (piece ++ sep :: rest))
    (list : List α) : motive list := by
  induction hn : list.length using Nat.strong_induction_on generalizing list with
  | _ n ih =>
      by_cases hsep : sep ∈ list
      · obtain ⟨piece, rest, rfl, hpiece⟩ := List.eq_append_cons_of_mem hsep
        refine more piece rest hpiece (ih rest.length ?_ rest rfl)
        simp at hn
        omega
      · exact last list hsep

namespace Blank

variable {left right : List Char}

/-- White space before a text is dropped. -/
theorem trimChars_before (hleft : ∀ c ∈ left, isBlank c = true) (text : List Char) :
    trimChars (left ++ text) = trimChars text := by
  rw [trimChars, List.dropWhile_append_of_pos hleft, trimChars]

/-- White space after a text is dropped. -/
theorem trimChars_after (hright : ∀ c ∈ right, isBlank c = true) (text : List Char) :
    trimChars (text ++ right) = trimChars text := by
  have hreverse : ∀ c ∈ right.reverse, isBlank c = true := fun c hc =>
    hright c (List.mem_reverse.mp hc)
  rw [trimChars, trimChars, List.dropWhile_append]
  split
  · next hempty =>
      rw [List.isEmpty_iff.mp hempty, List.dropWhile_eq_nil_iff.mpr hright]
  · rw [List.reverse_append, List.dropWhile_append_of_pos hreverse]

end Blank

/-! ## Lines of characters -/

/-- The lines are trimmed one by one. -/
theorem trimmedLinesFrom_eq_map (text : List Char) :
    trimmedLinesFrom [] [] text = (text.splitOn '\n').map Blank.trimChars := by
  induction text using piecewise '\n' with
  | last line hline =>
      rw [trimmedLinesFrom_line hline, List.splitOn_eq_singleton hline]
      rfl
  | more line rest hline ih =>
      rw [trimmedLinesFrom_lf, ih, trimmedLinesFrom_line hline,
        List.splitOn_append_cons_self_of_not_mem hline]
      rfl

/-- The names in a listing are what is left of its lines. -/
theorem mem_namesIn_iff {output : Octets} {name : String} :
    name ∈ Helper.namesIn output ↔ name ≠ "" ∧
      name.toList ∈ ((Utf8.decodeLossy output).splitOn '\n').map Blank.trimChars := by
  rw [Helper.namesIn, trimmedLines, trimmedLinesFrom_eq_map]
  constructor
  · intro h
    obtain ⟨line, hline, rfl⟩ := List.mem_map.mp h
    obtain ⟨hmem, hne⟩ := List.mem_filter.mp hline
    rw [String.toList_ofList]
    exact ⟨by simpa using hne, hmem⟩
  · rintro ⟨hne, hmem⟩
    refine List.mem_map.mpr ⟨name.toList, List.mem_filter.mpr ⟨hmem, ?_⟩, String.ofList_toList⟩
    simpa using hne

/-! ## Lines of octets -/

/-- The names on two lines are those on the one and those on the other. -/
theorem namesIn_lf (line rest : Octets) :
    Helper.namesIn (line ++ 0x0A :: rest) = Helper.namesIn line ++ Helper.namesIn rest := by
  unfold Helper.namesIn trimmedLines
  rw [Utf8.decodeLossy_lf, trimmedLinesFrom_lf, List.filter_append, List.map_append]

/-- The names in a listing are those on its lines. -/
theorem namesIn_eq_flatMap (output : Octets) :
    Helper.namesIn output = (output.splitOn 0x0A).flatMap Helper.namesIn := by
  induction output using piecewise (0x0A : UInt8) with
  | last line hline =>
      rw [List.splitOn_eq_singleton hline]
      simp
  | more line rest hline ih =>
      rw [namesIn_lf, ih, List.splitOn_append_cons_self_of_not_mem hline]
      rfl

/-- Octets with white space around them that holds no line feed. -/
def Padded (core line : Octets) : Prop :=
  ∃ left right : List Char, line = Utf8.encode left ++ core ++ Utf8.encode right ∧
    ∀ c ∈ left ++ right, Blank.isBlank c = true ∧ c ≠ '\n'

section Padding

variable {left right : List Char} (hleft : ∀ c ∈ left, Blank.isBlank c = true ∧ c ≠ '\n')
  (hright : ∀ c ∈ right, Blank.isBlank c = true ∧ c ≠ '\n')

include hleft in
theorem trimmedLinesFrom_before (text : List Char) :
    trimmedLinesFrom [] [] (left ++ text) = trimmedLinesFrom [] [] text := by
  have hdrop (line : List Char) : Blank.trimChars (left ++ line) = Blank.trimChars line :=
    Blank.trimChars_before (fun c hc => (hleft c hc).1) line
  have hnone : '\n' ∉ left := fun hmem => (hleft _ hmem).2 rfl
  -- the padding becomes a part of the first line, and of no other
  induction text using piecewise '\n' with
  | last line hline =>
      rw [trimmedLinesFrom_line hline, trimmedLinesFrom_line (by simp [hnone, hline])]
      exact congrArg (fun line => [line]) (hdrop line)
  | more line rest hline ih =>
      rw [trimmedLinesFrom_lf, ← List.append_assoc, trimmedLinesFrom_lf,
        trimmedLinesFrom_line hline, trimmedLinesFrom_line (by simp [hnone, hline])]
      exact congrArg (fun line => [line] ++ _) (hdrop line)

include hright in
theorem trimmedLinesFrom_after (text : List Char) :
    trimmedLinesFrom [] [] (text ++ right) = trimmedLinesFrom [] [] text := by
  have hdrop (line : List Char) : Blank.trimChars (line ++ right) = Blank.trimChars line :=
    Blank.trimChars_after (fun c hc => (hright c hc).1) line
  have hnone : '\n' ∉ right := fun hmem => (hright _ hmem).2 rfl
  induction text using piecewise '\n' with
  | last line hline =>
      rw [trimmedLinesFrom_line hline, trimmedLinesFrom_line (by simp [hnone, hline])]
      exact congrArg (fun line => [line]) (hdrop line)
  | more line rest hline ih =>
      rw [List.append_assoc, List.cons_append, trimmedLinesFrom_lf, ih, trimmedLinesFrom_lf]

end Padding

/-- The name on a line does not depend on the white space around it. -/
theorem Padded.namesIn_eq {core line : Octets} (h : Padded core line) :
    Helper.namesIn line = Helper.namesIn core := by
  obtain ⟨left, right, rfl, hpadding⟩ := h
  have hleft : ∀ c ∈ left, Blank.isBlank c = true ∧ c ≠ '\n' := fun c hc =>
    hpadding c (List.mem_append_left _ hc)
  have hright : ∀ c ∈ right, Blank.isBlank c = true ∧ c ≠ '\n' := fun c hc =>
    hpadding c (List.mem_append_right _ hc)
  unfold Helper.namesIn trimmedLines
  -- The core may be no text at all, but what pads it is read as it was written.
  rw [Utf8.decodeLossy_append_encode, Utf8.decodeLossy_encode_append,
    trimmedLinesFrom_after hright, trimmedLinesFrom_before hleft]

/-- Every line of the one listing that is not white space alone is a line of the other, padded
in one way or another. -/
def LinesWithin (output output' : Octets) : Prop :=
  ∀ line ∈ output.splitOn 0x0A, Padded [] line ∨
    ∃ line' ∈ output'.splitOn 0x0A, ∃ core, Padded core line ∧ Padded core line'

/-- Two listings with the same lines, in whatever order, however often, and however padded. -/
def SameLines (output output' : Octets) : Prop :=
  LinesWithin output output' ∧ LinesWithin output' output

theorem LinesWithin.mem_namesIn {output output' : Octets} (h : LinesWithin output output')
    {name : String} (hname : name ∈ Helper.namesIn output) : name ∈ Helper.namesIn output' := by
  rw [namesIn_eq_flatMap] at hname ⊢
  obtain ⟨line, hline, hmem⟩ := List.mem_flatMap.mp hname
  rcases h line hline with hblank | ⟨line', hline', core, hcore, hcore'⟩
  · rw [hblank.namesIn_eq] at hmem
    exact absurd hmem (List.not_mem_nil)
  · refine List.mem_flatMap.mpr ⟨line', hline', ?_⟩
    rwa [hcore'.namesIn_eq, ← hcore.namesIn_eq]

/-- **Listings with the same lines have the same names.** -/
theorem SameLines.mem_namesIn_iff {output output' : Octets} (h : SameLines output output')
    (name : String) : name ∈ Helper.namesIn output ↔ name ∈ Helper.namesIn output' :=
  ⟨h.1.mem_namesIn, h.2.mem_namesIn⟩

end Clipboard
