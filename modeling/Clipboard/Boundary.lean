import Clipboard.Shared

/-!
# The boundary

The shared clipboard for programs in other languages.  Texts cross the boundary
as octets, and all that a call says of itself is whether it succeeded.  A call
that takes a text has places of its caller to put it in, which hold something
already.  A caller may have no octets to pass, or no place; such a call fails
before it reaches the clipboard.

* `setText_none`, `getText_none` and `getTextAndLength_none` say so.
-/

namespace Clipboard.Boundary

variable {τ : Type}

/-- The answer of a call on the shared clipboard, if it succeeds. -/
def attempt {α : Type} (x : Action (Shared τ) AccessError α) (s : Shared τ) :
    Option α × Shared τ :=
  ((x s).1.value?, (x s).2)

variable (o : Surroundings τ)

/-- Putting octets on the clipboard, if they are UTF-8. -/
def setOctets (bytes : Octets) (s : Shared τ) : Bool × Shared τ :=
  match Utf8.decode bytes with
  | .error _ => (false, s)
  | .ok text =>
    let (answer, s) := attempt (Shared.setText o (String.ofList text)) s
    (answer.isSome, s)

/-- Putting a terminated text on the clipboard: the octets before the first zero. -/
def setText (bytes : Option Octets) (s : Shared τ) : Bool × Shared τ :=
  match bytes with
  | none => (false, s)
  | some bytes => setOctets o bytes.untilZero s

/-- Putting so many octets on the clipboard.  Of no octets there need be none. -/
def setTextOfLength (bytes : Option Octets) (length : Nat) (s : Shared τ) : Bool × Shared τ :=
  if length = 0 then setOctets o [] s
  else
    match bytes with
    | none => (false, s)
    | some bytes => setOctets o (bytes.take length) s

/-- Putting the text on the clipboard, terminated, in the caller's place, if there is one.
A text that holds NUL has no terminated form.  The answer is whether this succeeded,
and what the place holds then. -/
def getText (place : Option Octets) (s : Shared τ) : (Bool × Option Octets) × Shared τ :=
  match place with
  | none => ((false, place), s)
  | some _ =>
    let (answer, s) := attempt (Shared.getText o) s
    match answer with
    | some text =>
      if text.toList.contains '\x00' then ((false, place), s)
      else ((true, some (Utf8.encode text.toList ++ [0])), s)
    | none => ((false, place), s)

/-- Putting the text on the clipboard, with a zero after it, and its length without that
in the caller's places, if there are both. -/
def getTextAndLength (textPlace : Option Octets) (lengthPlace : Option Nat) (s : Shared τ) :
    (Bool × Option Octets × Option Nat) × Shared τ :=
  match textPlace, lengthPlace with
  | some _, some _ =>
    let (answer, s) := attempt (Shared.getText o) s
    match answer with
    | some text =>
      let bytes := Utf8.encode text.toList
      ((true, some (bytes ++ [0]), some bytes.length), s)
    | none => ((false, textPlace, lengthPlace), s)
  | _, _ => ((false, textPlace, lengthPlace), s)

/-- Whether there is text on the clipboard. -/
def hasText (s : Shared τ) : Bool × Shared τ :=
  let (answer, s) := attempt (Shared.hasText o) s
  (answer.getD false, s)

/-- Without octets there is nothing to put on the clipboard. -/
theorem setText_none (s : Shared τ) : setText o none s = (false, s) := rfl

/-- Without a place for it no text is taken. -/
theorem getText_none (s : Shared τ) : getText o none s = ((false, none), s) := rfl

/-- Without a place for the text none is taken. -/
theorem getTextAndLength_none (lengthPlace : Option Nat) (s : Shared τ) :
    getTextAndLength o none lengthPlace s = ((false, none, lengthPlace), s) := rfl

end Clipboard.Boundary
