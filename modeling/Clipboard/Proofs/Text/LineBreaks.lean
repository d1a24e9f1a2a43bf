import Clipboard.Text.LineBreaks
import Clipboard.Proofs.Text.Terminator

/-!
# Canonical line breaks

`unify` runs over the text twice.  The equations here say what the two passes
come to at the beginning of a text, so that everything else is an induction
that never looks at the passes again.

* `unify_crlf`, `unify_cons`: the first line break or character of a text;
* `cr_notMem_unify`, `unify_eq_self`: canonical texts are those without CR;
* `unify_expand`: what `expand` does to a canonical text is undone;
* `breaks_eq_count`: a text has as many line breaks as its canonical form has LF;
* `paired_expand`: in an expanded text CR and LF stand together only.
-/

namespace Clipboard.LineBreaks

theorem joinFrom_append (done before text : List Char) :
    joinFrom (done ++ before) text = before.reverse ++ joinFrom done text := by
  fun_induction joinFrom done text with
  | case1 done => simp [joinFrom]
  | case2 done rest ih => simpa [joinFrom] using ih
  | case3 done c rest hc ih =>
      rw [joinFrom]
      · simpa using ih
      · exact hc

theorem joinFrom_singleton (c : Char) (text : List Char) :
    joinFrom [c] text = c :: join text := by
  simpa [join] using joinFrom_append [] [c] text

@[simp] theorem unify_nil : unify [] = [] := rfl

theorem unify_crlf (rest : List Char) :
    unify ('\r' :: '\n' :: rest) = '\n' :: unify rest := by
  rw [unify, join, joinFrom, joinFrom_singleton]
  rfl

theorem unify_cons {c : Char} {rest : List Char} (h : c = '\r' → rest.head? ≠ some '\n') :
    unify (c :: rest) = soften c :: unify rest := by
  rw [unify, join, joinFrom, joinFrom_singleton]
  · rfl
  · rintro rest rfl rfl
    exact h rfl rfl

theorem unify_cons_of_ne {c : Char} (h : c ≠ '\r') (rest : List Char) :
    unify (c :: rest) = c :: unify rest := by
  rw [unify_cons (fun hc => absurd hc h), soften, if_neg h]

theorem cr_notMem_unify (text : List Char) : '\r' ∉ unify text := by
  intro hmem
  obtain ⟨c, _, hc⟩ := List.mem_map.mp hmem
  unfold soften at hc
  split at hc
  · exact absurd hc (by decide)
  · next hne => exact hne hc

/-- A text without CR is canonical as it is. -/
theorem unify_eq_self {text : List Char} (h : '\r' ∉ text) : unify text = text := by
  induction text with
  | nil => rfl
  | cons c rest ih =>
      rw [List.mem_cons, not_or] at h
      rw [unify_cons_of_ne (Ne.symm h.1), ih h.2]

theorem unify_unify (text : List Char) : unify (unify text) = unify text :=
  unify_eq_self (cr_notMem_unify text)

/-- A character that is no line break is there before and after. -/
theorem mem_unify_iff {c : Char} (hr : c ≠ '\r') (hn : c ≠ '\n') (text : List Char) :
    c ∈ unify text ↔ c ∈ text := by
  have hjoin : ∀ done rest, c ∈ joinFrom done rest ↔ c ∈ done ∨ c ∈ rest := by
    intro done rest
    fun_induction joinFrom done rest with
    | case1 done => simp
    | case2 done rest ih => simp [ih, hr, hn]
    | case3 done d rest hd ih => simp [ih, or_left_comm, or_assoc]
  have hsoft : ∀ d, soften d = c ↔ d = c := by
    intro d
    unfold soften
    split
    · next hd => exact ⟨fun h => absurd h.symm hn, fun h => absurd (h.symm.trans hd) hr⟩
    · exact Iff.rfl
  rw [unify, List.mem_map]
  simp [hsoft, join, hjoin]

/-- LF alone is found again where CR LF was written. -/
theorem unify_expand {text : List Char} (h : '\r' ∉ text) : unify (expand text) = text := by
  induction text with
  | nil => rfl
  | cons c rest ih =>
      rw [List.mem_cons, not_or] at h
      by_cases hc : c = '\n'
      · subst hc
        show unify ('\r' :: '\n' :: expand rest) = _
        rw [unify_crlf, ih h.2]
      · have hexp : expand (c :: rest) = c :: expand rest := by simp [expand, hc]
        rw [hexp, unify_cons_of_ne (Ne.symm h.1), ih h.2]

theorem expand_append (s t : List Char) : expand (s ++ t) = expand s ++ expand t :=
  List.flatMap_append

/-- A text may be cut before or after it is expanded. -/
theorem untilNul_expand (text : List Char) :
    untilNul (expand text) = expand (untilNul text) := by
  refine takeWhile_flatMap ?_ ?_ text
  · intro c hc d hd
    split at hd
    · simp only [List.mem_cons, List.not_mem_nil, or_false] at hd
      rcases hd with rfl | rfl <;> rfl
    · rw [List.mem_singleton.mp hd]; exact hc
  · intro c hc
    have hc : c = '\x00' := by simpa using hc
    subst hc
    exact ⟨'\x00', [], rfl, by decide⟩

/-- How many line breaks a text has: CR LF is one, and so is either by itself. -/
def breaks : List Char → Nat
  | [] => 0
  | '\r' :: '\n' :: rest => breaks rest + 1
  | c :: rest => breaks rest + if c = '\r' ∨ c = '\n' then 1 else 0

/-- Every line break is one LF in canonical form. -/
theorem breaks_eq_count (text : List Char) : breaks text = (unify text).count '\n' := by
  fun_induction breaks text with
  | case1 => rfl
  | case2 rest ih => rw [unify_crlf, List.count_cons_self, ih]
  | case3 c rest hc ih =>
      have hfirst : c = '\r' → rest.head? ≠ some '\n' := by
        rintro rfl hhead
        obtain ⟨rest', rfl⟩ := List.head?_eq_some_iff.mp hhead
        exact hc rest' rfl rfl
      have hsoft : soften c = '\n' ↔ c = '\r' ∨ c = '\n' := by
        unfold soften
        split
        · next hr => simp [hr]
        · next hr => simp [hr]
      rw [unify_cons hfirst, List.count_cons, ih]
      simp [hsoft]

/-- LF stands only after CR, and CR only before LF. -/
structure Paired (text : List Char) : Prop where
  cr_before : ∀ before after, text = before ++ '\n' :: after → ∃ lines, before = lines ++ ['\r']
  lf_after : ∀ before after, text = before ++ '\r' :: after → ∃ lines, after = '\n' :: lines

theorem Paired.crlf_cons {text : List Char} (h : Paired text) : Paired ('\r' :: '\n' :: text) where
  cr_before before after heq := by
    match before with
    | [] => exact absurd (List.cons.inj heq).1 (by decide)
    | [b] => exact ⟨[], by rw [← (List.cons.inj heq).1]; rfl⟩
    | b :: b' :: before =>
        obtain ⟨hb, heq⟩ := List.cons.inj heq
        obtain ⟨hb', heq⟩ := List.cons.inj heq
        obtain ⟨lines, rfl⟩ := h.cr_before before after heq
        exact ⟨b :: b' :: lines, rfl⟩
  lf_after before after heq := by
    match before with
    | [] => exact ⟨text, (List.cons.inj heq).2.symm⟩
    | [b] => exact absurd (List.cons.inj (List.cons.inj heq).2).1 (by decide)
    | b :: b' :: before =>
        exact h.lf_after before after (List.cons.inj (List.cons.inj heq).2).2

theorem Paired.cons {text : List Char} (h : Paired text) {c : Char} (hr : c ≠ '\r')
    (hn : c ≠ '\n') : Paired (c :: text) where
  cr_before before after heq := by
    match before with
    | [] => exact absurd (List.cons.inj heq).1 hn
    | b :: before =>
        obtain ⟨lines, rfl⟩ := h.cr_before before after (List.cons.inj heq).2
        exact ⟨b :: lines, rfl⟩
  lf_after before after heq := by
    match before with
    | [] => exact absurd (List.cons.inj heq).1 hr
    | b :: before => exact h.lf_after before after (List.cons.inj heq).2

/-- In an expanded text CR and LF stand together only. -/
theorem paired_expand {text : List Char} (h : '\r' ∉ text) : Paired (expand text) := by
  induction text with
  | nil => exact ⟨fun before after heq => by simp [expand] at heq,
      fun before after heq => by simp [expand] at heq⟩
  | cons c rest ih =>
      rw [List.mem_cons, not_or] at h
      by_cases hc : c = '\n'
      · subst hc
        exact (ih h.2).crlf_cons
      · have hexp : expand (c :: rest) = c :: expand rest := by simp [expand, hc]
        rw [hexp]
        exact (ih h.2).cons (Ne.symm h.1) hc

/-- The canonical form of a text is that of its characters. -/
theorem unifyText_eq (text : String) : unifyText text = String.ofList (unify text.toList) := by
  unfold unifyText unifyText?
  split
  · rfl
  · next h =>
      have hcr : '\r' ∉ text.toList := by simpa using h
      rw [unify_eq_self hcr, String.ofList_toList, Option.getD_none]

end Clipboard.LineBreaks
