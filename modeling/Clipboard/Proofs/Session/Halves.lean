import Clipboard.Proofs.Session.Access

/-!
# The two halves of a reading

Content is read in two steps, first looking for a format in which there is some, and then
taking it in that format.  Asking whether there is content is the first of them alone, and
asking whether there is text is the first and then both.

* `offers_eq`, `read_eq`, `readText_eq`: asking and reading begin with the same search;
* `hasText_apply`: what asking for text comes to.
-/

namespace Clipboard

open Action

variable {σ : Type}

namespace Handle

/-- The first half of a reading: looking for a format in which there is content. -/
def search (h : Handle σ) (kind : Kind) : Action (Host σ) AccessError (Option Format) := do
  h.ensureOpen
  let formats ← h.formatsToRead kind
  h.pick formats

/-- The second half: taking the content in the format that was found. -/
def fetch (h : Handle σ) (kind : Kind) : Option Format → Action (Host σ) AccessError Payload
  | none => Action.fail (.absent kind)
  | some f => do
    match ← (Host.on (h.backend.read f)).mapCause .ofReading with
    | none => Action.fail (.absent kind)
    | some payload => return payload

/-- The second half for text, with the text spelt out. -/
def fetchText (h : Handle σ) (found : Option Format) : Action (Host σ) AccessError String := do
  let payload ← h.fetch .text found
  Action.ofExcept ((payload.text h.backend.convention).mapError .ofText)

variable (h : Handle σ)

theorem offers_eq (kind : Kind) :
    h.offers kind = h.search kind >>= fun found => Pure.pure found.isSome := by
  rw [offers, search, bind_assoc_apply]
  refine congrArg (h.ensureOpen >>= ·) (funext fun _ => ?_)
  rw [bind_assoc_apply]

theorem read_eq (kind : Kind) : h.read kind = h.search kind >>= h.fetch kind := by
  rw [read, search, bind_assoc_apply]
  refine congrArg (h.ensureOpen >>= ·) (funext fun _ => ?_)
  rw [bind_assoc_apply]
  refine congrArg (h.formatsToRead kind >>= ·) (funext fun formats => ?_)
  refine congrArg (h.pick formats >>= ·) (funext fun found => ?_)
  cases found <;> rfl

theorem readText_eq : h.readText = h.search .text >>= h.fetchText := by
  rw [readText, read_eq, bind_assoc_apply]
  rfl

/-- Whatever a reading may have failed with is a no. -/
theorem hasText_apply (d : Host σ) :
    h.hasText d =
      match h.search .text d with
      | (.done none, d') => (.done false, d')
      | (.done (some _), d') => recover (fun _ => false) ((fun _ => true) <$> h.readText) d'
      | (.failed _, d') => (.done false, d')
      | (.unwound, d') => (.unwound, d') := by
  rw [hasText, offers_eq, bind_assoc_apply, recover, bind_apply]
  rcases h.search .text d with ⟨(_ | f) | e | _, d'⟩ <;> rfl

end Handle

end Clipboard
