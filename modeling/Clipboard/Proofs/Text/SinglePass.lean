import Clipboard.Proofs.Text.LineBreaks

/-!
# Canonical form in a single pass

`unify` runs over the whole text twice.  A single pass that looks one character ahead comes to the
same, since the second pass takes every CR that the first has left by itself, whatever stands beside
it by then.  So a text may be brought into canonical form piece by piece, if no piece ends between a
CR and its LF.

* `unify_eq_scan`: two passes over the text are one;
* `unify_append`, `unify_append_of_cut`: pieces may be taken by themselves, and a CR LF that is cut
  becomes two line breaks;
* `unifyText_scans`: the same said of texts, with what it means for canonical texts.
-/

namespace Clipboard.LineBreaks

variable {a b : List Char} {c : Char}

/-- The text with LF for every line break, in a single pass: CR LF together is one LF, any other CR
is one, and every other character stays. -/
def scan : List Char → List Char
  | [] => []
  | '\r' :: '\n' :: rest => '\n' :: scan rest
  | '\r' :: rest => '\n' :: scan rest
  | c :: rest => c :: scan rest

/-- A CR that no LF follows is a line break of its own. -/
theorem unify_cr {rest : List Char} (h : rest.head? ≠ some '\n') :
    unify ('\r' :: rest) = '\n' :: unify rest := by
  rw [unify_cons fun _ => h]
  rfl

theorem head?_ne_of_forall_ne {rest : List Char} (h : ∀ rest', rest ≠ c :: rest') :
    rest.head? ≠ some c := by
  intro hhead
  obtain ⟨rest', hrest⟩ := List.head?_eq_some_iff.mp hhead
  exact h rest' hrest

/-- Two passes over the whole text are a single one. -/
theorem unify_eq_scan (text : List Char) : unify text = scan text := by
  -- along the single pass, so that each case is one step of it
  fun_induction scan text with
  | case1 => rfl
  | case2 rest ih => rw [unify_crlf, ih]
  | case3 rest hrest ih => rw [unify_cr (head?_ne_of_forall_ne hrest), ih]
  | case4 c rest _ hcr ih => rw [unify_cons_of_ne hcr, ih]

example : scan "\r\r\n\n\r\n".toList = "\n\n\n\n".toList := by decide

/-- A CR LF is cut where one piece of a text ends and the next begins. -/
def Cut (a b : List Char) : Prop := a.getLast? = some '\r' ∧ b.head? = some '\n'

theorem Cut.cons (h : Cut a b) (c : Char) : Cut (c :: a) b :=
  ⟨by rw [List.getLast?_cons, h.1]; rfl, h.2⟩

/-- Pieces are brought into canonical form by themselves, unless a CR LF is cut. -/
theorem unify_append (h : ¬ Cut a b) : unify (a ++ b) = unify a ++ unify b := by
  fun_induction scan a with
  | case1 => rfl
  | case2 rest ih =>
      have hrest : ¬ Cut rest b := fun hcut => h ((hcut.cons _).cons _)
      rw [List.cons_append, List.cons_append, unify_crlf, unify_crlf, ih hrest, List.cons_append]
  | case3 rest hrest ih =>
      have hcut : ¬ Cut rest b := fun hcut => h (hcut.cons _)
      -- the CR may be the last of its piece, and then the next begins with no LF
      have hnext : (rest ++ b).head? ≠ some '\n' := by
        cases rest with
        | nil =>
            intro hhead
            exact h ⟨rfl, hhead⟩
        | cons d rest' => simpa using head?_ne_of_forall_ne hrest
      rw [List.cons_append, unify_cr hnext, unify_cr (head?_ne_of_forall_ne hrest), ih hcut,
        List.cons_append]
  | case4 c rest _ hcr ih =>
      have hcut : ¬ Cut rest b := fun hcut => h (hcut.cons _)
      rw [List.cons_append, unify_cons_of_ne hcr, unify_cons_of_ne hcr, ih hcut, List.cons_append]

/-- A CR LF that is cut is one line break in the whole text, and two in the pieces. -/
theorem unify_append_of_cut (h : Cut a b) :
    (unify a ++ unify b).length = (unify (a ++ b)).length + 1 := by
  obtain ⟨before, rfl⟩ := List.getLast?_eq_some_iff.mp h.1
  obtain ⟨after, rfl⟩ := List.head?_eq_some_iff.mp h.2
  -- nothing is cut before the CR, whatever follows it
  have hbefore (rest : List Char) :
      unify (before ++ '\r' :: rest) = unify before ++ unify ('\r' :: rest) :=
    unify_append fun hcut => absurd hcut.2 (by simp)
  have hwhole : before ++ ['\r'] ++ '\n' :: after = before ++ '\r' :: '\n' :: after := by simp
  have hcr : unify ['\r'] = ['\n'] := unify_cr (by simp)
  have hlf : unify ('\n' :: after) = '\n' :: unify after := unify_cons_of_ne (by decide) after
  rw [hwhole, hbefore, hbefore, unify_crlf, hcr, hlf]
  simp only [List.length_append, List.length_cons, List.length_nil]
  omega

theorem unify_append_iff : unify (a ++ b) = unify a ++ unify b ↔ ¬ Cut a b := by
  refine ⟨fun heq hcut => ?_, unify_append⟩
  have hlength := unify_append_of_cut hcut
  rw [heq] at hlength
  omega

/-- A text is left as it is if and only if it has no CR. -/
theorem unifyText?_eq_none_iff {text : String} :
    unifyText? text = none ↔ '\r' ∉ text.toList := by
  unfold unifyText?
  split
  · next hcr => simpa using hcr
  · next hcr => simpa using hcr

/-- Canonical form is what a single pass from left to right makes of a text.  So it has no CR, is
its own canonical form, is the text itself if and only if that has no CR, and may be made of two
pieces of a text by themselves if and only if these do not cut a CR LF. -/
theorem unifyText_scans :
    (∀ text : String, (unifyText text).toList = scan text.toList ∧
      '\r' ∉ (unifyText text).toList ∧
      unifyText (unifyText text) = unifyText text ∧
      (unifyText? text = none ↔ '\r' ∉ text.toList)) ∧
    ∀ a b : String, unifyText (a ++ b) = unifyText a ++ unifyText b ↔
      ¬ (a.toList.getLast? = some '\r' ∧ b.toList.head? = some '\n') := by
  have hchars (text : String) : (unifyText text).toList = unify text.toList := by
    rw [unifyText_eq, String.toList_ofList]
  refine ⟨fun text => ⟨?_, ?_, ?_, unifyText?_eq_none_iff⟩, fun a b => ?_⟩
  · rw [hchars, unify_eq_scan]
  · rw [hchars]
    exact cr_notMem_unify text.toList
  · rw [← String.toList_inj, hchars, hchars, unify_unify]
  · rw [← String.toList_inj, String.toList_append, hchars, hchars, hchars, String.toList_append]
    exact unify_append_iff

end Clipboard.LineBreaks
