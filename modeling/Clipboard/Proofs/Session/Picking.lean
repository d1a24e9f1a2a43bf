import Clipboard.Listing
import Clipboard.Proofs.Actions
import Mathlib.Logic.Function.Iterate

/-!
# Picking a format from one listing

A backend that can list what is on offer looks all formats up in one listing.  Asking about one
format after the other would list once for every question.  As long as the listings are the
same, and the first format is one that the backend can ask about at all, both find the same
format or fail with the same failure.  What is found depends on what is listed, and not on the
order of the listing.

* `Action.Settled`: a call that is answered alike however often it is made;
* `probe_listed`: questions that are each answered by a listing;
* `pickByListing_eq_probe`: one listing does for all questions;
* `pickByListing_congr`: what is picked depends on what is listed alone;
* `pickListed_eq`: it is the first format that is listed.
-/

namespace Clipboard

open Action

variable {σ τ ε α : Type}

namespace Action

/-- A call that comes to the same however often it is made. -/
def Settled (x : Action σ ε α) (o : Outcome ε α) (s : σ) : Prop :=
  ∀ n, (x ((fun t => (x t).2)^[n] s)).1 = o

variable {x : Action σ ε α} {o : Outcome ε α} {s : σ}

theorem Settled.apply (h : x.Settled o s) : x s = (o, (x s).2) := Prod.ext (h 0) rfl

theorem Settled.next (h : x.Settled o s) : x.Settled o (x s).2 := fun n => h (n + 1)

/-- A call is settled if it comes to the same in all states that it leads to. -/
theorem settled_of_keeps {P : σ → Prop} (hs : P s)
    (hkeeps : ∀ t, P t → (x t).1 = o ∧ P (x t).2) : x.Settled o s := by
  intro n
  induction n generalizing s with
  | zero => exact (hkeeps s hs).1
  | succ n ih => exact ih (hkeeps s hs).2

theorem settled_of_unchanged (h : x s = (o, s)) : x.Settled o s := by
  refine settled_of_keeps (P := (· = s)) rfl ?_
  rintro t rfl
  rw [h]
  exact ⟨rfl, rfl⟩

end Action

/-- The first of some things with a property: it has the property, and none before it has. -/
def FirstOf (things : List α) (P : α → Prop) (a : α) : Prop :=
  ∃ before after, things = before ++ a :: after ∧ P a ∧ ∀ a' ∈ before, ¬ P a'

theorem find?_eq_some_iff_firstOf {things : List α} {p : α → Bool} {P : α → Prop} {a : α}
    (hp : ∀ a ∈ things, p a = true ↔ P a) : things.find? p = some a ↔ FirstOf things P a := by
  rw [List.find?_eq_some_iff_append]
  constructor
  · rintro ⟨ha, before, after, rfl, hbefore⟩
    refine ⟨before, after, rfl, (hp a (by simp)).mp ha, fun a' ha' hP => ?_⟩
    have hfalse := hbefore a' ha'
    rw [(hp a' (by simp [ha'])).mpr hP] at hfalse
    cases hfalse
  · rintro ⟨before, after, rfl, ha, hbefore⟩
    refine ⟨(hp a (by simp)).mpr ha, before, after, rfl, fun a' ha' => ?_⟩
    have hP := mt (hp a' (by simp [ha'])).mp (hbefore a' ha')
    simpa using hP

/-- Listings that come to the same: the same members, the same failure, or no end. -/
inductive SameListed : Outcome Failure (List α) → Outcome Failure (List α) → Prop
  | done {listed listed' : List α} (h : ∀ a, a ∈ listed ↔ a ∈ listed') :
      SameListed (.done listed) (.done listed')
  | same (o : Outcome Failure (List α)) : SameListed o o

variable [BEq α] {own : Format.Id → Except Failure α} {listing : Action σ Failure (List α)}
  {listed listed' : List α} {s : σ} {a : α}

/-- A format that the backend can ask about is looked up in the listing. -/
theorem offersListed_of_ok {id : Format.Id} (h : own id = .ok a) (s : σ) :
    offersListed own listing id s = ((listing s).1.map (·.contains a), (listing s).2) := by
  rw [offersListed, h, bind_done (ofExcept_ok a s)]
  exact map_apply (·.contains a) listing s

/-- About any other it does not even list. -/
theorem offersListed_of_error {id : Format.Id} {failure : Failure} (h : own id = .error failure)
    (s : σ) : offersListed own listing id s = (.failed failure, s) := by
  rw [offersListed, h, bind_failed (ofExcept_error failure s)]

/-- If every question is answered by the same listing, that listing decides. -/
theorem probe_listed (h : listing.Settled (.done listed) s) (formats : List Format) :
    (probe (offersListed own listing) formats s).1 = .ofExcept (pickListed own listed formats) := by
  induction formats generalizing s with
  | nil => rfl
  | cons f rest ih =>
      rw [probe_cons]
      cases hown : own f.id with
      | error failure =>
          rw [offersListed_of_error hown, pickListed, hown]
          rfl
      | ok a =>
          rw [offersListed_of_ok hown, h.apply, pickListed_cons hown]
          cases hmem : listed.contains a with
          | true => simp [hmem, Outcome.ofExcept]
          | false => simpa [hmem] using ih h.next

/-- **One listing does for all questions.**  If the listings during a call would all come to the
same, and the first format is one that the backend can ask about, a single listing finds what
asking about one format after the other finds, or fails as that does. -/
theorem pickByListing_eq_probe {o : Outcome Failure (List α)} (h : listing.Settled o s)
    {f : Format} (hown : own f.id = .ok a) (rest : List Format) :
    (pickByListing own listing (f :: rest) s).1 =
      (probe (offersListed own listing) (f :: rest) s).1 := by
  cases o with
  | done listed =>
      rw [probe_listed h, pickByListing, bind_done h.apply]
      rfl
  | failed e =>
      rw [pickByListing, bind_failed h.apply, probe_cons, offersListed_of_ok hown, h.apply]
      rfl
  | unwound =>
      rw [pickByListing, bind_unwound h.apply, probe_cons, offersListed_of_ok hown, h.apply]
      rfl

/-- Where the backend can ask about every format, the first that is listed is found. -/
theorem pickListed_map {β : Type} {g : β → Format} {key : β → α} {things : List β}
    (h : ∀ x ∈ things, own (g x).id = .ok (key x)) :
    pickListed own listed (things.map g) =
      .ok ((things.find? fun x => listed.contains (key x)).map g) := by
  induction things with
  | nil => rfl
  | cons x rest ih =>
      obtain ⟨hx, hrest⟩ := List.forall_mem_cons.mp h
      rw [List.map_cons, pickListed_cons hx, ih hrest, List.find?_cons]
      cases listed.contains (key x) <;> rfl

theorem pickListed_eq {key : Format → α} {formats : List Format}
    (h : ∀ f ∈ formats, own f.id = .ok (key f)) :
    pickListed own listed formats = .ok (formats.find? fun f => listed.contains (key f)) := by
  have hmap : pickListed own listed (formats.map id) = _ := pickListed_map h
  simpa using hmap

section Same

variable [LawfulBEq α]

/-- The same is found in lists with the same members. -/
theorem pickListed_congr (h : ∀ a, a ∈ listed ↔ a ∈ listed') (formats : List Format) :
    pickListed own listed formats = pickListed own listed' formats := by
  induction formats with
  | nil => rfl
  | cons f rest ih =>
      cases hown : own f.id with
      | error failure => rw [pickListed, pickListed, hown]
      | ok a =>
          have hcontains : listed.contains a = listed'.contains a := by
            rw [Bool.eq_iff_iff, List.contains_iff_mem, List.contains_iff_mem]
            exact h a
          rw [pickListed_cons hown, pickListed_cons hown, ih, hcontains]

/-- **What is picked depends on what is listed alone.** -/
theorem pickByListing_congr {listing' : Action τ Failure (List α)} {t : τ}
    (h : SameListed (listing s).1 (listing' t).1) (formats : List Format) :
    (pickByListing own listing formats s).1 = (pickByListing own listing' formats t).1 := by
  rw [pickByListing, pickByListing, bind_apply, bind_apply]
  rcases hrun : listing s with ⟨o, s'⟩
  rcases hrun' : listing' t with ⟨o', t'⟩
  rw [hrun, hrun'] at h
  cases h with
  | done hmem => exact congrArg Outcome.ofExcept (pickListed_congr hmem formats)
  | same => cases o <;> rfl

end Same

end Clipboard
