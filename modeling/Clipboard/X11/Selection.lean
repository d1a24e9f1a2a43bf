import Clipboard.X11.Protocol

/-!
# Owned content

What a client offers while it owns the selection, and how that ends: the client
gives it up, loses its connection, or is told that another window owns the
selection.  The last may be old news: a dispossession from before the present
claim is passed over.

* `Selection.hear_foreign`: news of another window or selection changes nothing.
-/

namespace Clipboard.X11

/-- Content by target, and the time from which the client owns the selection. -/
structure Claim where
  items : List (Atom × Octets)
  since : Timestamp
  deriving DecidableEq, Repr

/-- What a client holds of the selection. -/
structure Selection where
  claim : Option Claim := none
  /-- Whether the client has its connection. -/
  alive : Bool := true
  deriving DecidableEq, Repr

/-- Whether one time comes before another: the way on from the first to the
second is shorter than the way back. -/
def precedes (a b : Timestamp) : Bool := 2147483648 ≤ (a - b).toNat

namespace Selection

/-- Offering new content from a time on. -/
def take (s : Selection) (items : List (Atom × Octets)) (since : Timestamp) : Selection :=
  { s with claim := some ⟨items, since⟩ }

/-- Offering nothing any more. -/
def release (s : Selection) : Selection := { s with claim := none }

/-- Losing the connection. -/
def cutOff (_ : Selection) : Selection := { claim := none, alive := false }

/-- Another window owns the selection from a time on.  That is old news for a
claim that was made later; the present time is later than any claim. -/
def yieldTo (s : Selection) (time : Timestamp) : Selection :=
  match s.claim with
  | some claim => if time ≠ 0 ∧ precedes time claim.since then s else s.release
  | none => s

/-- Hearing of a dispossession. -/
def hear (atoms : Atoms) (window : Window) (s : Selection) (d : Dispossession) : Selection :=
  if d.selection = atoms.clipboard ∧ d.owner = window then s.yieldTo d.time else s

/-- News of another window or another selection changes nothing. -/
theorem hear_foreign {atoms : Atoms} {window : Window} {d : Dispossession}
    (h : d.selection ≠ atoms.clipboard ∨ d.owner ≠ window) (s : Selection) :
    s.hear atoms window d = s := by
  unfold hear
  split
  · next h' => rcases h with h | h <;> simp_all
  · rfl

/-- The targets that content is offered in: the list of targets comes first. -/
def offered (atoms : Atoms) (items : List (Atom × Octets)) : List Atom :=
  atoms.targets :: items.map (·.1)

/-- Content as it is delivered for a target, if it is offered in it. -/
def delivery? (atoms : Atoms) (items : List (Atom × Octets)) (target : Atom) : Option Property :=
  if target = atoms.targets then some ⟨atoms.atom, .atoms (offered atoms items)⟩
  else (items.find? fun i => i.1 = target).map fun i => ⟨i.1, .octets i.2⟩

/-- What is delivered for an inquiry, unless it is refused. -/
def answer? (atoms : Atoms) (s : Selection) (i : Inquiry) : Option Property :=
  if i.selection = atoms.clipboard then s.claim.bind fun c => delivery? atoms c.items i.target
  else none

end Selection

/-- Where an inquiry wants its answer.  Clients of an old kind leave it out, and
expect it under the name of the target. -/
def Inquiry.place (i : Inquiry) : Atom := if i.property = 0 then i.target else i.property

namespace Selection

/-- Dealing with an inquiry: storing the content, if it is delivered, and then
telling the one who asks. -/
def answer (atoms : Atoms) (s : Selection) (i : Inquiry) : List Post :=
  match s.answer? atoms i with
  | some value =>
    [.store i.requestor i.place value,
      .reply ⟨i.time, i.requestor, i.selection, i.target, i.place⟩]
  | none => [.reply ⟨i.time, i.requestor, i.selection, i.target, 0⟩]

end Selection

end Clipboard.X11
