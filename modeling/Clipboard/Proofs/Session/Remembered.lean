import Clipboard.Proofs.Session.Resolving

/-!
# What is remembered of formats

Programs ask for formats again and again, for any kinds and through backends of any
names, which may answer otherwise each time, with no format at all, or not at all.  What is
remembered can be told at any time from the answers that there have been: for each name
and kind it is the first of them that named a format.

* `settled?_append`: what one more answer settles;
* `Recalls.resolve`, `Recalls.questioned`: the registry holds what the answers have settled,
  after one question and after any run of them;
* `resolve_settled`, `resolve_unsettled`: what a question comes to;
* `resolve_run`: so every question of a run is answered from the answers before it.
-/

namespace Clipboard

variable {σ ι : Type}

/-- An answer that a backend gave when it was asked for the formats of a kind. -/
structure Asking (ι : Type) where
  /-- The backend that was asked. -/
  asked : ι
  kind : Kind
  answer : Outcome Failure (List Format)

/-- The formats that an answer names, if it names any. -/
def Asking.formats? (a : Asking ι) : Option (List Format) :=
  match a.answer with
  | .done [] => none
  | .done formats => some formats
  | _ => none

/-- The backend that notes down its answers when it is asked for formats. -/
def Backend.attested (i : ι) (b : Backend σ) : Backend (σ × List (Asking ι)) :=
  { b.zoom Prod.fst (fun s t => (s, t.2)) with
    formatsFor := fun kind s =>
      ((b.formatsFor kind s.1).1,
        ((b.formatsFor kind s.1).2, s.2 ++ [⟨i, kind, (b.formatsFor kind s.1).1⟩])) }

/-- The first answer with formats that a backend of some name gave for a kind. -/
def settled? (b : ι → Backend σ) (name : String) (kind : Kind) (answers : List (Asking ι)) :
    Option (List Format) :=
  (answers.filter fun a => ((b a.asked).name, a.kind) = (name, kind)).findSome? Asking.formats?

/-- The state after some questions, each to a backend for a kind. -/
def questioned (b : ι → Backend σ) (questions : List (ι × Kind))
    (d : Host (σ × List (Asking ι))) : Host (σ × List (Asking ι)) :=
  questions.foldl (fun d q => (((b q.1).attested q.1).resolve q.2 d).2) d

/-- The registry holds for each name and kind what the answers have settled. -/
def Recalls (b : ι → Backend σ) (d : Host (σ × List (Asking ι))) : Prop :=
  ∀ name kind, d.registry.find? name kind = settled? b name kind d.world.2

variable {b : ι → Backend σ} {d : Host (σ × List (Asking ι))} {answers : List (Asking ι)}
  {name : String} {kind kind' : Kind} {formats : List Format} {place : Nat}

/-! ## What answers settle -/

/-- One more answer settles what was open, if it is for that name and that kind. -/
theorem settled?_append (a : Asking ι) :
    settled? b name kind (answers ++ [a]) =
      (settled? b name kind answers).or
        (if ((b a.asked).name, a.kind) = (name, kind) then a.formats? else none) := by
  unfold settled?
  rw [List.filter_append, List.findSome?_append]
  by_cases hkey : ((b a.asked).name, a.kind) = (name, kind)
  · rw [if_pos hkey, List.filter_cons_of_pos (by simpa using hkey)]
    simp
  · rw [if_neg hkey, List.filter_cons_of_neg (by simpa using hkey)]
    simp

/-- What is settled are some formats. -/
theorem settled?_ne_nil (h : settled? b name kind answers = some formats) : formats ≠ [] := by
  obtain ⟨a, -, ha⟩ := List.exists_of_findSome?_eq_some h
  unfold Asking.formats? at ha
  split at ha
  · cases ha
  · next hne _ =>
      cases ha
      exact hne
  · cases ha

/-! ## Places -/

theorem Registry.slot?_eq_none_iff {r : Registry} :
    r.slot? name kind = none ↔ r.find? name kind = none := by
  simp [slot?, find?]

/-- A further answer takes nobody's place. -/
theorem Registry.slot?_keep {r : Registry} (h : r.slot? name kind = some place) (name' : String)
    (kind' : Kind) (formats : List Format) :
    (r.keep name' kind' formats).slot? name kind = some place := by
  unfold slot? keep at *
  rw [List.findIdx?_append, h]
  rfl

/-! ## One question -/

/-- What is settled is given, and nobody is asked. -/
theorem resolve_settled (h : Recalls b d) {i : ι}
    (hsettled : settled? b (b i).name kind d.world.2 = some formats) :
    ((b i).attested i).resolve kind d = (.done formats, d) :=
  Backend.resolve_of_find? ((h _ kind).trans hsettled)

/-- What is open is asked for, once, and settled if formats are named. -/
theorem resolve_unsettled (h : Recalls b d) {i : ι}
    (hopen : settled? b (b i).name kind d.world.2 = none) :
    let asked := (b i).formatsFor kind d.world.1
    let world := (asked.2, d.world.2 ++ [⟨i, kind, asked.1⟩])
    ((b i).attested i).resolve kind d =
      match asked.1 with
      | .done [] => (.failed ((b i).noFormat kind), ⟨world, d.registry⟩)
      | .done formats => (.done formats, ⟨world, d.registry.keep (b i).name kind formats⟩)
      | .failed e => (.failed e, ⟨world, d.registry⟩)
      | .unwound => (.unwound, ⟨world, d.registry⟩) := by
  intro asked world
  have hnew : d.registry.find? ((b i).attested i).name kind = none := (h _ kind).trans hopen
  have hasked : ((b i).attested i).formatsFor kind d.world = (asked.1, world) := rfl
  split
  · next hanswer => exact Backend.resolve_of_empty hnew (hanswer ▸ hasked)
  · next hne hanswer => exact Backend.resolve_of_formats hnew (hanswer ▸ hasked) hne
  · next hanswer => exact Backend.resolve_of_failed hnew (hanswer ▸ hasked)
  · next hanswer => exact Backend.resolve_of_unwound hnew (hanswer ▸ hasked)

/-- A question keeps the registry in line with the answers. -/
theorem Recalls.resolve (h : Recalls b d) (i : ι) (kind : Kind) :
    Recalls b (((b i).attested i).resolve kind d).2 := by
  cases hsettled : settled? b (b i).name kind d.world.2 with
  | some formats =>
      rw [resolve_settled h hsettled]
      exact h
  | none =>
      rw [resolve_unsettled h hsettled]
      have hnew : d.registry.find? (b i).name kind = none := (h _ kind).trans hsettled
      -- An answer without formats settles nothing, and nothing is remembered of it.
      have hidle {w : σ} {answer : Outcome Failure (List Format)}
          (hnone : (⟨i, kind, answer⟩ : Asking ι).formats? = none) :
          Recalls b ⟨(w, d.world.2 ++ [⟨i, kind, answer⟩]), d.registry⟩ := by
        intro name kind'
        rw [settled?_append, hnone, ite_self, Option.or_none]
        exact h name kind'
      split
      · next hanswer => exact hidle (by rw [hanswer]; rfl)
      · next formats hne hanswer =>
          have hnamed : (⟨i, kind, ((b i).formatsFor kind d.world.1).1⟩ : Asking ι).formats? =
              some formats := by
            rw [hanswer]
            cases formats with
            | nil => exact absurd rfl hne
            | cons f rest => rfl
          intro name kind'
          rw [settled?_append, hnamed, ← h name kind']
          by_cases hkey : ((b i).name, kind) = (name, kind')
          · obtain ⟨rfl, rfl⟩ := Prod.mk.inj hkey
            rw [if_pos rfl, hnew, Option.none_or]
            exact Registry.find?_keep_self hnew formats
          · rw [if_neg hkey, Option.or_none]
            exact Registry.find?_keep_of_ne hkey formats
      · next hanswer => exact hidle (by rw [hanswer]; rfl)
      · next hanswer => exact hidle (by rw [hanswer]; rfl)

/-- A place that is taken stays taken. -/
theorem slot?_resolve (h : Recalls b d) (hplace : d.registry.slot? name kind' = some place)
    (i : ι) (kind : Kind) :
    (((b i).attested i).resolve kind d).2.registry.slot? name kind' = some place := by
  cases hsettled : settled? b (b i).name kind d.world.2 with
  | some formats =>
      rw [resolve_settled h hsettled]
      exact hplace
  | none =>
      rw [resolve_unsettled h hsettled]
      split
      · exact hplace
      · exact Registry.slot?_keep hplace _ _ _
      · exact hplace
      · exact hplace

/-- What is settled stays settled. -/
theorem settled?_resolve (h : Recalls b d)
    (hsettled : settled? b name kind' d.world.2 = some formats) (i : ι) (kind : Kind) :
    settled? b name kind' (((b i).attested i).resolve kind d).2.world.2 = some formats := by
  have hmore (answer : Outcome Failure (List Format)) :
      settled? b name kind' (d.world.2 ++ [⟨i, kind, answer⟩]) = some formats := by
    rw [settled?_append, hsettled, Option.some_or]
  cases hown : settled? b (b i).name kind d.world.2 with
  | some formats' =>
      rw [resolve_settled h hown]
      exact hsettled
  | none =>
      rw [resolve_unsettled h hown]
      split <;> exact hmore _

/-! ## Any run of questions -/

theorem Recalls.questioned (h : Recalls b d) (questions : List (ι × Kind)) :
    Recalls b (questioned b questions d) := by
  induction questions generalizing d with
  | nil => exact h
  | cons q rest ih => exact ih (h.resolve q.1 q.2)

theorem slot?_questioned (h : Recalls b d) (hplace : d.registry.slot? name kind = some place)
    (questions : List (ι × Kind)) :
    (questioned b questions d).registry.slot? name kind = some place := by
  induction questions generalizing d with
  | nil => exact hplace
  | cons q rest ih => exact ih (h.resolve q.1 q.2) (slot?_resolve h hplace q.1 q.2)

theorem settled?_questioned (h : Recalls b d)
    (hsettled : settled? b name kind d.world.2 = some formats) (questions : List (ι × Kind)) :
    settled? b name kind (questioned b questions d).world.2 = some formats := by
  induction questions generalizing d with
  | nil => exact hsettled
  | cons q rest ih => exact ih (h.resolve q.1 q.2) (settled?_resolve h hsettled q.1 q.2)

/-- What is settled has a place that it keeps. -/
theorem exists_place (h : Recalls b d) (hsettled : settled? b name kind d.world.2 = some formats) :
    ∃ place, ∀ after, (questioned b after d).registry.slot? name kind = some place := by
  cases hslot : d.registry.slot? name kind with
  | some place => exact ⟨place, slot?_questioned h hslot⟩
  | none =>
      have hfound := (h name kind).trans hsettled
      rw [Registry.slot?_eq_none_iff.mp hslot] at hfound
      cases hfound

/-- What a question is answered with is settled from then on. -/
theorem settled?_of_done {i : ι} {kind : Kind} (h : Recalls b d)
    (hdone : (((b i).attested i).resolve kind d).1 = .done formats) :
    settled? b (b i).name kind (((b i).attested i).resolve kind d).2.world.2 = some formats := by
  rw [← h.resolve i kind]
  cases hsettled : settled? b (b i).name kind d.world.2 with
  | some formats' =>
      rw [resolve_settled h hsettled] at hdone ⊢
      cases hdone
      exact (h _ kind).trans hsettled
  | none =>
      have hnew : d.registry.find? (b i).name kind = none := (h _ kind).trans hsettled
      rw [resolve_unsettled h hsettled] at hdone ⊢
      split at hdone
      · cases hdone
      · cases hdone
        exact Registry.find?_keep_self hnew _
      · cases hdone
      · cases hdone

/-- **A question is answered from the answers before it.**  Whatever has been asked of any
backends since nothing was remembered, and however they answered: once a backend of some
name has named formats of a kind, these are what every backend of that name gives for that
kind, and none is asked.  Until then the backend that the question goes to is asked, once;
its failure is handed on, no formats are a failure too, and neither is remembered.  Other
names and other kinds play no part in this, not even a kind that goes by the name of text.
What is given is never empty; it is given again from then on, from the one place where it is
remembered. -/
theorem resolve_run (b : ι → Backend σ) (w : σ) (before : List (ι × Kind)) (i : ι) (kind : Kind) :
    let d := questioned b before ⟨(w, []), {}⟩
    let asked := (b i).formatsFor kind d.world.1
    let world := (asked.2, d.world.2 ++ [⟨i, kind, asked.1⟩])
    let r := ((b i).attested i).resolve kind d
    (r = match settled? b (b i).name kind d.world.2 with
      | some formats => (.done formats, d)
      | none =>
        match asked.1 with
        | .done [] =>
          (.failed (.rejected
            ((b i).name ++ " backend has no native format for " ++ kind.display)),
            ⟨world, d.registry⟩)
        | .done formats => (.done formats, ⟨world, d.registry.keep (b i).name kind formats⟩)
        | .failed e => (.failed e, ⟨world, d.registry⟩)
        | .unwound => (.unwound, ⟨world, d.registry⟩)) ∧
    Kind.text ≠ .custom "text" ∧
    ∀ formats, r.1 = .done formats → formats ≠ [] ∧
      ∃ place, ∀ after j, (b j).name = (b i).name →
        let later := questioned b after r.2
        later.registry.slot? (b i).name kind = some place ∧
          ((b j).attested j).resolve kind later = (.done formats, later) := by
  intro d asked world r
  have h : Recalls b d := Recalls.questioned (fun _ _ => rfl) before
  refine ⟨?_, by simp, fun formats hdone => ?_⟩
  · split
    · next formats hsettled => exact resolve_settled h hsettled
    · next hopen => exact resolve_unsettled h hopen
  · have hafter : Recalls b r.2 := h.resolve i kind
    have hsettled := settled?_of_done h hdone
    obtain ⟨place, hplace⟩ := exists_place hafter hsettled
    refine ⟨settled?_ne_nil hsettled, place, fun after j hname => ⟨hplace after, ?_⟩⟩
    refine resolve_settled (hafter.questioned after) ?_
    rw [hname]
    exact settled?_questioned hafter hsettled after

/-- What was settled by the third answer is what the fourth question is given, though the
backend would name another format by then. -/
example :
    let answers : List (Outcome Failure (List Format)) :=
      [.failed (.system "out of handles"), .done [], .done [⟨.number 13, .utf16le, true⟩],
        .done [⟨.number 1, .latin1, true⟩]]
    let fickle : Unit → Backend (List (Outcome Failure (List Format))) := fun _ =>
      { name := "fickle"
        ownership := .service
        convention := .unix
        formatsFor := fun _ s => (s.headD .unwound, s.tail)
        acquire := pure ()
        release := pure ()
        offers := fun _ => pure false
        read := fun _ => pure none
        write := fun _ => pure ()
        clear := pure () }
    let d := questioned fickle (List.replicate 3 ((), .text)) ⟨(answers, []), {}⟩
    (((fickle ()).attested ()).resolve .text d).1 = .done [⟨.number 13, .utf16le, true⟩] := by
  decide +kernel

end Clipboard
