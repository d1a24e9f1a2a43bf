import Clipboard.Listing
import Clipboard.Text.Quoted
import Clipboard.X11.Connection

/-!
# The clipboard of a display server

A client offers content by owning the clipboard selection, and reads the content
of another owner by having the selection converted.  While it owns the selection
it reads its own content without asking anybody.

* `Connection.backend` is the clipboard as a backend;
* `Connection.claim` leaves either the new content and its ownership, or no
  content at all.
-/

namespace Clipboard.X11.Connection

variable {σ : Type} (c : Connection σ)

/-- The formats of text, most preferred first. -/
def textFormats : List Format :=
  [⟨.number c.atoms.utf8, .utf8, true⟩, ⟨.number c.atoms.plainUtf8, .utf8, true⟩,
    .readOnly (.number c.atoms.latin1) .latin1, .readOnly (.number c.atoms.text) .utf8]

/-- The octets of the longest name that can be asked about.  Its length is told
in sixteen bits. -/
def longestName : Nat := 65535

/-- The formats of a kind.  There is no answer for a name that is too long. -/
def formatsFor : Kind → Action σ Failure (List Format)
  | .text => return c.textFormats
  | .custom name =>
    if longestName < name.utf8ByteSize then Action.unwind
    else do
      let target ← asked .internAtom (c.intern name)
      return [⟨.number target, .opaqueData, true⟩]

/-- The target of a format. -/
def target : Format.Id → Except Failure Atom
  | .number id => .ok id
  | .named name => .error (.rejected ("X11 formats are atoms, got name " ++ Quoted.quote name))

/-- The content that the client itself offers. -/
def own : Action σ Failure (Option (List (Atom × Octets))) :=
  Action.ask fun s => (c.selection s).claim.map (·.items)

/-- The targets that the content is offered in. -/
def offeredTargets : Action σ Failure (List Atom) := do
  match ← c.own with
  | some items => return items.map (·.1)
  | none => c.foreignTargets

/-- Whether a property of some type is an answer to a conversion.  Data of an
application may have any type; text has the type of its target, and where the
owner was free to choose, only UTF-8 is understood. -/
def fits (target : Atom) (encoding : Encoding) (type : Atom) : Bool :=
  if encoding = .opaqueData then true
  else if target = c.atoms.text then type = c.atoms.utf8
  else type = target

/-- The content in a target that is offered by another owner. -/
def readForeign (target : Atom) (encoding : Encoding) : Action σ Failure (Option Octets) := do
  match ← c.convert target with
  | some value =>
    return if c.fits target encoding value.type then some value.data.bytes else none
  | none => return none

/-- The content in a target. -/
def readTarget (target : Atom) (encoding : Encoding) : Action σ Failure (Option Octets) := do
  match ← c.own with
  | some items => return (items.find? fun i => i.1 = target).map (·.2)
  | none => c.readForeign target encoding

/-- The octets of content that fit into one message. -/
def limit : Nat := c.longest - 24

/-- The items as content to be offered, or the reason why they cannot be. -/
def contentOf : List (Format × Payload) → Except Failure (List (Atom × Octets))
  | [] => .ok []
  | (f, payload) :: rest =>
    if c.limit < payload.bytes.length then
      .error (.rejected
        s!"{payload.bytes.length} bytes exceeds the X11 request limit of {c.limit} bytes")
    else
      match target f.id with
      | .error failure => .error failure
      | .ok a => (contentOf rest).map ((a, payload.bytes) :: ·)

/-- Changing what the client holds of the selection. -/
def amend (f : Selection → Selection) : Action σ Failure Unit :=
  Action.update fun s => c.setSelection (f (c.selection s)) s

/-- Claiming the selection and asking who owns it then.  The claim is passed on along with the
question. -/
def contend (since : Timestamp) : Action σ Failure Window := do
  (c.send [.claim c.window c.atoms.clipboard since]).mapCause fun hitch =>
    .protocol (Request.setSelectionOwner.name ++ ": " ++ hitch.reason)
  c.askOwner

/-- The failure of a claim that left the selection to a window. -/
def stillOwned (window : Window) : Failure :=
  .rejected ("selection owner is still window 0x" ++
    String.ofList (Quoted.hex window.toNat))

/-- Owning the selection with new content.  The content has to be in place
before others can ask for it, and is given up if the claim fails. -/
def claim (items : List (Atom × Octets)) : Action σ Failure Unit := do
  let since ← c.learnTime
  c.amend (·.take items since)
  fun s =>
    match c.contend since s with
    | (.done owner, s') =>
      if owner = c.window then (.done (), s')
      else (.failed (stillOwned owner), (c.amend Selection.release s').2)
    | (.failed failure, s') => (.failed failure, (c.amend Selection.release s').2)
    | (.unwound, s') => (.unwound, s')

/-- The backend of the client. -/
def backend : Backend σ where
  name := "x11"
  ownership := .window
  convention := .unix
  formatsFor kind := c.formatsFor kind
  acquire := fun s =>
    if (c.selection s).alive then (.done (), s)
    else (.failed (.unavailable "X11 connection lost"), s)
  release := pure ()
  offers := offersListed target c.offeredTargets
  pick := pickByListing target c.offeredTargets
  read f := do
    let a ← Action.ofExcept (target f.id)
    return (← c.readTarget a f.encoding).map fun bytes => ⟨bytes, f.encoding⟩
  write items := do
    let content ← Action.ofExcept (c.contentOf items)
    c.claim content
  clear := c.claim []
  displaced s := (c.selection s).claim.isNone

end Clipboard.X11.Connection
