import Clipboard.Outcome
import Clipboard.Failure

/-!
# Backends

A backend is a way to reach a clipboard.  It is a record of what it can be asked
to do, over whatever state it lives in: another program, a display server, or
memory.  Between a successful `acquire` and the `release` after it, it may be
asked what is on offer, and to read, replace or clear the content.

* `probe` looks for a format by asking about one after the other, and
  `probe_cons` says where it stops;
* `Backend.zoom` is a backend within a larger state.
-/

namespace Clipboard

/-- Who keeps content after it has been written. -/
inductive Ownership where
  /-- This program, through a window: it ends with the program. -/
  | window
  /-- A service or another program. -/
  | service
  deriving DecidableEq, Repr

/-- The first of some formats that is on offer, by asking about each in turn. -/
def probe {σ : Type} (offers : Format.Id → Action σ Failure Bool) :
    List Format → Action σ Failure (Option Format)
  | [] => pure none
  | f :: rest => do
    if ← offers f.id then return some f
    probe offers rest

/-- A way to reach a clipboard. -/
structure Backend (σ : Type) where
  /-- A short name, which formats are remembered under. -/
  name : String
  ownership : Ownership
  convention : Convention
  /-- The native formats of a kind, most preferred first. -/
  formatsFor : Kind → Action σ Failure (List Format)
  /-- One try to gain access, without waiting. -/
  acquire : Action σ Failure Unit
  /-- Giving access up.  This cannot fail, though it may unwind. -/
  release : Action σ Empty Unit
  /-- Whether the content is on offer in a format. -/
  offers : Format.Id → Action σ Failure Bool
  /-- The first of some formats that the content is on offer in. -/
  pick : List Format → Action σ Failure (Option Format) := probe offers
  /-- The content in a format, unless it is not there. -/
  read : Format → Action σ Failure (Option Payload)
  /-- Putting new content in the place of all that is there. -/
  write : List (Format × Payload) → Action σ Failure Unit
  /-- Putting nothing in its place. -/
  clear : Action σ Failure Unit
  /-- Whether content that this program wrote is no longer its to keep. -/
  displaced : σ → Bool := fun _ => true

namespace Backend

variable {σ τ : Type}

/-- The backend within a state that contains the one it lives in. -/
def zoom (view : τ → σ) (put : σ → τ → τ) (b : Backend σ) : Backend τ where
  name := b.name
  ownership := b.ownership
  convention := b.convention
  formatsFor kind := (b.formatsFor kind).zoom view put
  acquire := b.acquire.zoom view put
  release := b.release.zoom view put
  offers id := (b.offers id).zoom view put
  pick formats := (b.pick formats).zoom view put
  read f := (b.read f).zoom view put
  write items := (b.write items).zoom view put
  clear := b.clear.zoom view put
  displaced t := b.displaced (view t)

end Backend

/-- Probing asks about the first format and goes on only if it is not on offer. -/
theorem probe_cons {σ : Type} (offers : Format.Id → Action σ Failure Bool) (f : Format)
    (rest : List Format) (s : σ) :
    probe offers (f :: rest) s =
      match offers f.id s with
      | (.done true, s') => (.done (some f), s')
      | (.done false, s') => probe offers rest s'
      | (.failed e, s') => (.failed e, s')
      | (.unwound, s') => (.unwound, s') := by
  simp only [probe, Action.bind_apply]
  rcases offers f.id s with ⟨⟨_ | _⟩ | _ | _, s'⟩ <;> rfl

end Clipboard
