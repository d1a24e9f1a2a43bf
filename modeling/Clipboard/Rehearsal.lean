import Clipboard.InMemory
import Clipboard.Trace

/-!
# Rehearsed backends

A backend that plays a part: it answers from a list of entries, unless it has
been told to react otherwise the next time it is asked to do something.  Every
call is noted down before it is answered.  It need not be open to be used.
-/

namespace Clipboard

/-- What a rehearsed backend can be told to react to. -/
inductive Cue where
  | acquire
  | release
  | formatsFor
  | offers
  | read
  | write
  | clear
  deriving DecidableEq, Repr

/-- How it reacts. -/
inductive Reaction where
  /-- As usual. -/
  | usual
  | fail (f : Failure)
  | unwind
  /-- As though there were nothing there, and without doing anything. -/
  | nothing
  deriving DecidableEq, Repr

/-- The part that a rehearsed backend plays. -/
structure Part where
  name : String
  ownership : Ownership := .service
  convention : Convention := .unix
  textFormats : List Format
  /-- The formats of every other kind, where it does not name them itself. -/
  customFormats : Option (List Format) := none

/-- The state of a rehearsed backend. -/
structure Rehearsal where
  entries : List (Format.Id × Octets) := []
  /-- The calls so far, latest last. -/
  calls : List Call := []
  /-- How to react to the calls to come. -/
  reactions : Cue → List Reaction := fun _ => []

namespace Rehearsal

/-- The next reaction to a cue, and the reactions after it. -/
def take (s : Rehearsal) (cue : Cue) : Reaction × Rehearsal :=
  ((s.reactions cue).headD .usual,
    { s with reactions := fun c => if c = cue then (s.reactions c).tail else s.reactions c })

/-- A call: noted, then answered as it was told to be. -/
def play {α : Type} (cue : Cue) (call : Call) (blank : α) (usual : Rehearsal → α × Rehearsal) :
    Action Rehearsal Failure α := fun s =>
  let (reaction, s) := take { s with calls := s.calls ++ [call] } cue
  match reaction with
  | .usual => (.done (usual s).1, (usual s).2)
  | .fail f => (.failed f, s)
  | .unwind => (.unwound, s)
  | .nothing => (.done blank, s)

/-- Giving access up, which is noted and cannot fail. -/
def dismiss : Action Rehearsal Empty Unit := fun s =>
  let (reaction, s) := take { s with calls := s.calls ++ [.release] } .release
  match reaction with
  | .unwind => (.unwound, s)
  | _ => (.done (), s)

/-- The calls, which are then forgotten. -/
def drain (s : Rehearsal) : List Call × Rehearsal := (s.calls, { s with calls := [] })

/-- The backend that plays a part. -/
def backend (part : Part) : Backend Rehearsal where
  name := part.name
  ownership := part.ownership
  convention := part.convention
  formatsFor kind := play .formatsFor (.formatsFor kind) [] fun s =>
    (match kind with
      | .text => part.textFormats
      | .custom name => part.customFormats.getD [⟨.named name, .opaqueData, true⟩], s)
  acquire := play .acquire .acquire () fun s => ((), s)
  release := dismiss
  offers id := play .offers (.offers id) false fun s => ((contentOf? s.entries id).isSome, s)
  read f := play .read (.read f) none fun s =>
    ((contentOf? s.entries f.id).map fun bytes => ⟨bytes, f.encoding⟩, s)
  write items := play .write (.write items) () fun s =>
    ((), { s with entries := items.map fun item => (item.1.id, item.2.bytes) })
  clear := play .clear .clear () fun s => ((), { s with entries := [] })

end Rehearsal

end Clipboard
