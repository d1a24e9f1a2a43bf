import Clipboard.Backend
import Clipboard.Duration
import Clipboard.X11.Selection

/-!
# Connections

What a client can do over its connection to a display server, as a record: what
is said of a client holds whatever the server and the other clients do, and
however late.  On this stand the exchanges of several messages: learning the
time, having the selection converted to a target, and receiving content that
comes in parts.

While a client waits, it takes in one notice after the other, passes over those
that it does not wait for, and gives up when no further notice comes in time.
-/

namespace Clipboard.X11

/-- What waiting for a notice comes to. -/
inductive Heard where
  | notice (n : Notice)
  /-- No notice in time. -/
  | silence
  /-- The connection is lost, and nothing can come any more. -/
  | hangup
  deriving DecidableEq, Repr

/-- Why messages that have no answer did not get to the server. -/
structure Hitch where
  /-- The message that could not be sent, unless all of them were and waited to be passed on. -/
  post : Option Post
  reason : String
  deriving DecidableEq, Repr

/-- Why a request that has an answer fails. -/
inductive Fault where
  | unsent (reason : String)
  /-- There is no answer, or it is a failure. -/
  | unanswered (reason : String)
  deriving DecidableEq, Repr

/-- The failure of messages names the one that could not be sent. -/
def Hitch.failure (h : Hitch) : Failure :=
  .protocol ((h.post.map (·.request.name)).getD "flush" ++ ": " ++ h.reason)

/-- The failure of a request names it, and says whether the answer is what failed. -/
def Fault.failure (r : Request) : Fault → Failure
  | unsent reason => .protocol (r.name ++ ": " ++ reason)
  | unanswered reason => .protocol (r.name ++ " reply: " ++ reason)

/-- A client's connection to a display server. -/
structure Connection (σ : Type) where
  /-- The window that stands for the client. -/
  window : Window
  atoms : Atoms
  /-- The octets of the longest message. -/
  longest : Nat
  /-- How long to wait for a notice. -/
  patience : Duration
  /-- What the client holds of the selection. -/
  selection : σ → Selection
  setSelection : Selection → σ → σ
  /-- Sending messages that have no answer. -/
  send : List Post → Action σ Hitch Unit
  /-- Asking for the number of a name. -/
  intern : String → Action σ Fault Atom
  /-- Asking for the window that owns the selection. -/
  owner : Action σ Fault Window
  /-- Asking for the value of the transfer property, which is then removed. -/
  collect : Action σ Fault Property
  /-- Waiting for the next notice. -/
  listen : σ → Heard × σ
  /-- Passing over the notices that have come in. -/
  discard : σ → σ
  /-- No more notices than this come in before the selection is asked for again. -/
  horizon : σ → Nat

namespace Connection

/-- The connection within a state that contains the one it is over. -/
def zoom {σ τ : Type} (view : τ → σ) (put : σ → τ → τ) (c : Connection σ) : Connection τ where
  window := c.window
  atoms := c.atoms
  longest := c.longest
  patience := c.patience
  selection t := c.selection (view t)
  setSelection selection t := put (c.setSelection selection (view t)) t
  send posts := (c.send posts).zoom view put
  intern name := (c.intern name).zoom view put
  owner := c.owner.zoom view put
  collect := c.collect.zoom view put
  listen t := ((c.listen (view t)).1, put (c.listen (view t)).2 t)
  discard t := put (c.discard (view t)) t
  horizon t := c.horizon (view t)

variable {σ α : Type} (c : Connection σ)

/-- Sending messages, with the failure that a hitch is. -/
def sending (posts : List Post) : Action σ Failure Unit := (c.send posts).mapCause Hitch.failure

/-- A request that has an answer, with the failure that a fault is. -/
def asked (r : Request) (x : Action σ Fault α) : Action σ Failure α := x.mapCause (Fault.failure r)

/-- The failure of an owner that does not answer in time. -/
def noAnswer : Failure :=
  .protocol s!"selection owner did not answer within {c.patience.millis} ms"

/-- The failure of a connection that is lost. -/
def stopped : Failure := .unavailable "X11 event pump stopped"

/-- Waiting for a notice that is recognised, among so many. -/
def awaitAmong (accept : Notice → Option α) : Nat → Action σ Failure α
  | 0 => Action.fail c.noAnswer
  | left + 1 => fun s =>
    match c.listen s with
    | (.notice n, s') =>
      match accept n with
      | some a => (.done a, s')
      | none => awaitAmong accept left s'
    | (.silence, s') => (.failed c.noAnswer, s')
    | (.hangup, s') => (.failed stopped, s')

/-- Waiting for a notice that is recognised. -/
def awaitNotice (accept : Notice → Option α) : Action σ Failure α := fun s =>
  c.awaitAmong accept (c.horizon s) s

/-- A reply to an inquiry about the clipboard, and where the content is. -/
def replied : Notice → Option Atom
  | .replied r =>
    if r.requestor = c.window ∧ r.selection = c.atoms.clipboard then some r.property else none
  | .changed _ => none

/-- The time of a change of the timestamp property. -/
def stamped : Notice → Option Timestamp
  | .changed n =>
    if n.window = c.window ∧ n.property = c.atoms.timestamp then some n.time else none
  | .replied _ => none

/-- A new value of the transfer property. -/
def delivered : Notice → Option Unit
  | .changed n =>
    if n.window = c.window ∧ n.property = c.atoms.transfer ∧ n.removed = false then some ()
    else none
  | .replied _ => none

/-- The value of the transfer property, which is then removed.  That is what
makes an owner that sends content in parts send the next one. -/
def take : Action σ Failure Property := asked .getProperty c.collect

/-- Receiving parts after those in `done`, latest first, of a type that is known
unless it is zero, until an empty one comes. -/
def receiveFrom (type : Atom) (done : List Octets) : Nat → Action σ Failure Property
  | 0 => Action.fail c.noAnswer
  | left + 1 => do
    c.awaitNotice c.delivered
    let part ← c.take
    if part.data.bytes.isEmpty then return ⟨type, .octets done.reverse.flatten⟩
    else receiveFrom (if type = 0 then part.type else type) (part.data.bytes :: done) left

/-- Receiving content that comes in parts, which have the type of the first. -/
def receive : Action σ Failure Property := fun s => c.receiveFrom 0 [] (c.horizon s + 1) s

/-- Having the selection converted to a target, unless its owner refuses. -/
def convert (target : Atom) : Action σ Failure (Option Property) := do
  Action.update c.discard
  c.sending [
    .remove c.window c.atoms.transfer,
    .inquire ⟨0, c.window, c.atoms.clipboard, target, c.atoms.transfer⟩]
  let place ← c.awaitNotice c.replied
  if place = 0 then return none
  else
    let value ← c.take
    if value.type = c.atoms.incremental then return some (← c.receive)
    else return some value

/-- The time on the server. -/
def learnTime : Action σ Failure Timestamp := do
  Action.update c.discard
  c.sending [.touch c.window c.atoms.timestamp]
  c.awaitNotice c.stamped

/-- Asking who owns the selection. -/
def askOwner : Action σ Failure Window := asked .getSelectionOwner c.owner

/-- The targets in the answer to a conversion to the list of targets. -/
def targetsIn : Option Property → List Atom
  | some value =>
    if value.type = c.atoms.atom ∨ value.type = c.atoms.targets then
      atomsOfOctets value.data.bytes
    else []
  | none => []

/-- The targets that another owner offers.  Without an owner there are none. -/
def foreignTargets : Action σ Failure (List Atom) := do
  if (← c.askOwner) = 0 then return []
  else return c.targetsIn (← c.convert c.atoms.targets)

end Connection

end Clipboard.X11
