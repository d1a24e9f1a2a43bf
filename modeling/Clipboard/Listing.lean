import Clipboard.Backend

/-!
# Listings

A backend that can list everything on offer need not ask about one format after
the other.  It reads the identifier of a format in terms of its own, and looks
that up in the listing.

* `pickListed_cons` says where the search stops: at the first format that is
  listed, or at the first whose identifier means nothing to the backend.
-/

namespace Clipboard

variable {σ α : Type} [BEq α]

/-- Whether a format is listed. -/
def offersListed (own : Format.Id → Except Failure α) (listing : Action σ Failure (List α))
    (id : Format.Id) : Action σ Failure Bool := do
  let a ← Action.ofExcept (own id)
  return (← listing).contains a

/-- The first of some formats that is in a list. -/
def pickListed (own : Format.Id → Except Failure α) (listed : List α) :
    List Format → Except Failure (Option Format)
  | [] => .ok none
  | f :: rest =>
    match own f.id with
    | .error failure => .error failure
    | .ok a => if listed.contains a then .ok (some f) else pickListed own listed rest

/-- The first of some formats that is listed, by a single listing. -/
def pickByListing (own : Format.Id → Except Failure α) (listing : Action σ Failure (List α))
    (formats : List Format) : Action σ Failure (Option Format) := do
  let listed ← listing
  Action.ofExcept (pickListed own listed formats)

/-- A search that gets past the first format is a search among the others. -/
theorem pickListed_cons {own : Format.Id → Except Failure α} {f : Format} {a : α}
    (h : own f.id = .ok a) (listed : List α) (rest : List Format) :
    pickListed own listed (f :: rest) =
      if listed.contains a then .ok (some f) else pickListed own listed rest := by
  simp [pickListed, h]

end Clipboard
