import Clipboard.Helper.Tool
import Clipboard.Proofs.Text.Blank
import Clipboard.Proofs.Text.Utf8Lossy

/-!
# Listings of names

A helper tool lists the formats on offer by name, each on a line of its own.  The listing may
be indented, may hold lines that name nothing, and may hold octets that are no text at all.
A name is read from it as the tool has written it, if it is a name that can stand on a line:
one that is not empty, holds no line feed and has no white space at its ends.

* `trimmedLinesFrom_lf`, `trimmedLinesFrom_line`: the lines of a text are read one by one;
* `Lists.mem_namesIn`: a name that is listed is read.
-/

namespace Clipboard

/-! ## The lines of a text -/

variable {done : List (List Char)} {line text : List Char}

theorem trimmedLinesFrom_cons {c : Char} (hc : c ≠ '\n') (done : List (List Char))
    (line rest : List Char) :
    trimmedLinesFrom done line (c :: rest) = trimmedLinesFrom done (c :: line) rest := by
  rw [trimmedLinesFrom]
  exact hc

/-- The lines that have been read come first. -/
theorem trimmedLinesFrom_done (done : List (List Char)) (line text : List Char) :
    trimmedLinesFrom done line text = done.reverse ++ trimmedLinesFrom [] line text := by
  induction text generalizing done line with
  | nil => simp [trimmedLinesFrom]
  | cons c rest ih =>
      by_cases hc : c = '\n'
      · subst hc
        rw [trimmedLinesFrom, trimmedLinesFrom, ih (_ :: done), ih [_]]
        simp
      · rw [trimmedLinesFrom_cons hc, trimmedLinesFrom_cons hc]
        exact ih done (c :: line)

/-- A line feed ends a line, and the next one begins. -/
theorem trimmedLinesFrom_lf (text rest : List Char) (done : List (List Char)) (line : List Char) :
    trimmedLinesFrom done line (text ++ '\n' :: rest) =
      trimmedLinesFrom done line text ++ trimmedLinesFrom [] [] rest := by
  induction text generalizing done line with
  | nil =>
      rw [List.nil_append, trimmedLinesFrom, trimmedLinesFrom]
      exact trimmedLinesFrom_done _ [] rest
  | cons c text ih =>
      by_cases hc : c = '\n'
      · subst hc
        rw [List.cons_append, trimmedLinesFrom, trimmedLinesFrom]
        exact ih _ []
      · rw [List.cons_append, trimmedLinesFrom_cons hc, trimmedLinesFrom_cons hc]
        exact ih done (c :: line)

/-- What holds no line feed is a line. -/
theorem trimmedLinesFrom_line (htext : '\n' ∉ text) (line : List Char) :
    trimmedLinesFrom [] line text = [Blank.trimChars (line.reverse ++ text)] := by
  induction text generalizing line with
  | nil => simp [trimmedLinesFrom]
  | cons c rest ih =>
      obtain ⟨hc, hrest⟩ := List.ne_and_not_mem_of_not_mem_cons htext
      rw [trimmedLinesFrom_cons hc.symm, ih hrest]
      simp

/-- A line is read wherever it stands. -/
theorem trimChars_mem_trimmedLines {earlier line later : List Char}
    (hearlier : LinesBefore '\n' earlier) (hlater : LinesAfter '\n' later)
    (hline : '\n' ∉ line) (hne : Blank.trimChars line ≠ []) :
    Blank.trimChars line ∈ trimmedLines (earlier ++ line ++ later) := by
  have hfirst : Blank.trimChars line ∈ trimmedLinesFrom [] [] (line ++ later) := by
    obtain rfl | ⟨lines, rfl⟩ := hlater
    · rw [List.append_nil, trimmedLinesFrom_line hline]
      exact List.mem_singleton_self _
    · rw [trimmedLinesFrom_lf, trimmedLinesFrom_line hline]
      exact List.mem_append_left _ (List.mem_singleton_self _)
  have hmem : Blank.trimChars line ∈ trimmedLinesFrom [] [] (earlier ++ line ++ later) := by
    obtain rfl | ⟨lines, rfl⟩ := hearlier
    · exact hfirst
    · rw [List.append_assoc, List.append_assoc, List.singleton_append, trimmedLinesFrom_lf]
      exact List.mem_append_right _ hfirst
  exact List.mem_filter.mpr ⟨hmem, by simpa using hne⟩

/-! ## Names on lines -/

/-- A name that can stand on a line of its own and be read from it. -/
structure Listable (name : String) : Prop where
  nonempty : name ≠ ""
  oneLine : '\n' ∉ name.toList
  starts : ∀ c ∈ name.toList.head?, Blank.isBlank c = false
  ends : ∀ c ∈ name.toList.getLast?, Blank.isBlank c = false

instance (name : String) : Decidable (Listable name) :=
  decidable_of_iff
    (name ≠ "" ∧ '\n' ∉ name.toList ∧ name.toList.head?.all (! Blank.isBlank ·) = true ∧
      name.toList.getLast?.all (! Blank.isBlank ·) = true)
    ⟨fun ⟨hne, hline, hfirst, hlast⟩ =>
      ⟨hne, hline, by simpa [Option.all_eq_true] using hfirst,
        by simpa [Option.all_eq_true] using hlast⟩,
     fun h => ⟨h.nonempty, h.oneLine, by simpa [Option.all_eq_true] using h.starts,
      by simpa [Option.all_eq_true] using h.ends⟩⟩

/-- An output in which a name is on a line of its own, with any white space around it, among
any other lines. -/
def Lists (output : Octets) (name : String) : Prop :=
  ∃ (before after : Octets) (left right : List Char),
    output = before ++ Utf8.encode (left ++ name.toList ++ right) ++ after ∧
      LinesBefore 0x0A before ∧ LinesAfter 0x0A after ∧
      ∀ c ∈ left ++ right, Blank.isBlank c = true ∧ c ≠ '\n'

/-- A name that is listed is read from the listing. -/
theorem Lists.mem_namesIn {output : Octets} {name : String} (h : Lists output name)
    (hname : Listable name) : name ∈ Helper.namesIn output := by
  obtain ⟨before, after, left, right, rfl, hbefore, hafter, hpadding⟩ := h
  obtain ⟨earlier, later, hread, hearlier, hlater⟩ :=
    Utf8.decodeLossy_line (left ++ name.toList ++ right) hbefore hafter
  have hchars : name.toList ≠ [] := by simpa using hname.nonempty
  have htrim : Blank.trimChars (left ++ name.toList ++ right) = name.toList :=
    Blank.trimChars_padded (fun c hc => (hpadding c (List.mem_append_left _ hc)).1)
      (fun c hc => (hpadding c (List.mem_append_right _ hc)).1)
      hchars hname.starts hname.ends
  have hline : '\n' ∉ left ++ name.toList ++ right := by
    intro hmem
    rcases List.mem_append.mp hmem with hmem | hright
    · rcases List.mem_append.mp hmem with hleft | hin
      · exact (hpadding _ (List.mem_append_left _ hleft)).2 rfl
      · exact hname.oneLine hin
    · exact (hpadding _ (List.mem_append_right _ hright)).2 rfl
  have hne : Blank.trimChars (left ++ name.toList ++ right) ≠ [] := by
    rw [htrim]
    exact hchars
  have hmem := trimChars_mem_trimmedLines hearlier hlater hline hne
  rw [Helper.namesIn, hread]
  exact List.mem_map.mpr ⟨_, hmem, by rw [htrim, String.ofList_toList]⟩

end Clipboard
