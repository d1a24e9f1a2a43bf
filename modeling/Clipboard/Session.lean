import Clipboard.Registry
import Clipboard.Retry

/-!
# Sessions

Access to a clipboard is gained by trying to acquire its backend, again and
again while another owner holds it, and is given up at the end of the session,
however the session ends.  Within a session the content is asked about, read,
replaced or cleared through a `Handle`; once closed, it refuses everything.

A `Board` is a clipboard that opens a session for every single operation.

* `Backend.opening` tells the tries and pauses of an opening;
* `Handle.close_close`: closing twice is closing once;
* `Board.session` releases the backend on every way out.
-/

namespace Clipboard

variable {σ α : Type}

/-- How an opening went. -/
structure Opening where
  /-- The tries that were made. -/
  tries : Nat
  /-- The pauses between them. -/
  pauses : List Duration
  /-- What the last try came to. -/
  last : Outcome Failure Unit

/-- Trying from try `n` on, with so many left after it.  A try that finds the
clipboard busy is followed by a pause and another try; any other is the last. -/
def Backend.openingFrom (b : Backend σ) (p : Policy) (n : Nat) : (left : Nat) → σ → Opening × σ
  | 0, s => (⟨n, [], (b.acquire s).1⟩, (b.acquire s).2)
  | left + 1, s =>
    match b.acquire s with
    | (.failed (.busy _), s') =>
      let next := b.openingFrom p (n + 1) left s'
      ({ next.1 with pauses := p.pause n :: next.1.pauses }, next.2)
    | (last, s') => (⟨n, [], last⟩, s')

/-- An opening under a policy. -/
def Backend.opening (b : Backend σ) (p : Policy) (s : σ) : Opening × σ :=
  b.openingFrom p 1 (p.tries - 1) s

/-- Access to a clipboard. -/
structure Handle (σ : Type) where
  backend : Backend σ
  isOpen : Bool

/-- Gaining access, or saying after how many tries there is none and why. -/
def Backend.openHandle (b : Backend σ) (p : Policy) :
    Action (Host σ) AccessError (Handle σ) := fun d =>
  let (o, w) := b.opening p d.world
  let outcome := match o.last with
    | .done () => .done ⟨b, true⟩
    | .failed f => .failed (.acquireFailed o.tries f.message)
    | .unwound => .unwound
  (outcome, { d with world := w })

namespace Handle

/-- Closing the handle, which answers with the closed one.  Only the first time
releases the backend.  If that unwinds, the handle is open as before. -/
def close (h : Handle σ) : Action (Host σ) Empty (Handle σ) :=
  if h.isOpen then do
    Host.on h.backend.release
    return { h with isOpen := false }
  else return h

/-- Closing twice is closing once. -/
theorem close_close (h : Handle σ) : (h.close >>= fun h => h.close) = h.close := by
  unfold close
  split
  · simp
  · next hc => simp [hc]

/-- Letting go of the handle at the end of its life, which closes it. -/
def dispose (h : Handle σ) : Action (Host σ) Empty Unit := do
  let _ ← h.close

/-- Closing the handle and letting go of it.  If the closing unwinds, letting go
of the handle on the way out closes it once more. -/
def finish (h : Handle σ) : Action (Host σ) Empty Unit := fun d =>
  match h.close d with
  | (.done h, d) => h.dispose d
  | (_, d) => (.unwound, (h.dispose d).2)

/-- Refusing what comes after the closing. -/
def ensureOpen (h : Handle σ) : Action (Host σ) AccessError Unit :=
  if h.isOpen then pure () else Action.fail .closed

/-- The formats of a kind, for reading. -/
def formatsToRead (h : Handle σ) (kind : Kind) : Action (Host σ) AccessError (List Format) :=
  (h.backend.resolve kind).mapCause .ofReading

/-- The formats of a kind, for writing. -/
def formatsToWrite (h : Handle σ) (kind : Kind) : Action (Host σ) AccessError (List Format) :=
  (h.backend.resolve kind).mapCause .ofWriting

/-- The first of some formats that is on offer. -/
def pick (h : Handle σ) (formats : List Format) :
    Action (Host σ) AccessError (Option Format) :=
  (Host.on (h.backend.pick formats)).mapCause .ofReading

/-- Whether there is content of a kind. -/
def offers (h : Handle σ) (kind : Kind) : Action (Host σ) AccessError Bool := do
  h.ensureOpen
  let formats ← h.formatsToRead kind
  return (← h.pick formats).isSome

/-- The content of a kind in the first format that it is on offer in.  The owner
may change between the question and the reading, so that it is gone again. -/
def read (h : Handle σ) (kind : Kind) : Action (Host σ) AccessError Payload := do
  h.ensureOpen
  let formats ← h.formatsToRead kind
  match ← h.pick formats with
  | none => Action.fail (.absent kind)
  | some f =>
    match ← (Host.on (h.backend.read f)).mapCause .ofReading with
    | none => Action.fail (.absent kind)
    | some payload => return payload

/-- The content as text. -/
def readText (h : Handle σ) : Action (Host σ) AccessError String := do
  let payload ← h.read .text
  Action.ofExcept ((payload.text h.backend.convention).mapError .ofText)

/-- Whether the content can be read as text. -/
def hasText (h : Handle σ) : Action (Host σ) AccessError Bool :=
  Action.recover (fun _ => false) do
    if ← h.offers .text then
      let _ ← h.readText
      return true
    else return false

/-- The failure of a backend that takes nothing of a kind. -/
def nothingWritable (h : Handle σ) : AccessError :=
  .writeFailed (h.backend.name ++ " backend offers no writable format")

/-- Putting items in the place of the content. -/
def store (h : Handle σ) (items : List (Format × Payload)) :
    Action (Host σ) AccessError Unit :=
  if items.isEmpty then Action.fail h.nothingWritable
  else (Host.on (h.backend.write items)).mapCause .ofWriting

/-- Octets in every format that can be written. -/
def itemsOfOctets (bytes : Octets) (formats : List Format) :
    List (Format × Payload) :=
  (formats.filter (·.writable)).map fun f => (f, ⟨bytes, f.encoding⟩)

/-- A text in each of some formats, or the first fault. -/
def encodeEach (text : String) (convention : Convention) :
    List Format → Except TextFault (List (Format × Payload))
  | [] => .ok []
  | f :: rest =>
    match Payload.ofText text f.encoding convention with
    | .error fault => .error fault
    | .ok payload => (encodeEach text convention rest).map ((f, payload) :: ·)

/-- A text in every format that takes text, or the first fault. -/
def itemsOfText (text : String) (convention : Convention) (formats : List Format) :
    Except TextFault (List (Format × Payload)) :=
  encodeEach text convention (formats.filter (·.takesText))

/-- Putting octets of a kind in the place of the content. -/
def write (h : Handle σ) (kind : Kind) (bytes : Octets) : Action (Host σ) AccessError Unit := do
  h.ensureOpen
  let formats ← h.formatsToWrite kind
  h.store (itemsOfOctets bytes formats)

/-- Putting a text in the place of the content. -/
def writeText (h : Handle σ) (text : String) : Action (Host σ) AccessError Unit := do
  h.ensureOpen
  let formats ← h.formatsToWrite .text
  let items ← Action.ofExcept
    ((itemsOfText text h.backend.convention formats).mapError .ofText)
  h.store items

/-- Putting nothing in the place of the content. -/
def clear (h : Handle σ) : Action (Host σ) AccessError Unit := do
  h.ensureOpen
  (Host.on h.backend.clear).mapCause .ofWriting

end Handle

/-- A clipboard that is opened for every operation. -/
structure Board (σ : Type) where
  backend : Backend σ
  policy : Policy := {}

namespace Board

/-- A session for one operation.  Its handle is let go of whether the operation
answers, fails or unwinds. -/
def session (c : Board σ) (body : Handle σ → Action (Host σ) AccessError α) :
    Action (Host σ) AccessError α := do
  let h ← c.backend.openHandle c.policy
  (body h).thenAlways h.dispose

/-- Putting a text on the clipboard. -/
def setText (c : Board σ) (text : String) : Action (Host σ) AccessError Unit :=
  c.session (·.writeText text)

/-- The text on the clipboard. -/
def getText (c : Board σ) : Action (Host σ) AccessError String :=
  c.session (·.readText)

/-- Whether `getText` would answer.  It never fails. -/
def hasText (c : Board σ) : Action (Host σ) AccessError Bool :=
  Action.recover (fun _ => false) (c.session (·.hasText))

/-- Putting octets of a kind on the clipboard. -/
def setContents (c : Board σ) (kind : Kind) (bytes : Octets) : Action (Host σ) AccessError Unit :=
  c.session (·.write kind bytes)

/-- The octets of a kind on the clipboard. -/
def getContents (c : Board σ) (kind : Kind) : Action (Host σ) AccessError Octets :=
  c.session fun h => return (← h.read kind).bytes

/-- Putting nothing on the clipboard. -/
def clear (c : Board σ) : Action (Host σ) AccessError Unit :=
  c.session (·.clear)

end Board

end Clipboard
