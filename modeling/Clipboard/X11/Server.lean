import Clipboard.X11.Connection

/-!
# A display server

A server with any number of clients, each of them a window, its properties, the
events on their way to it, and what it holds of the selection.  Beside them
there is a foreign client, which answers as it has been told to.

A client deals with its events in the order in which they were sent, by `catchUp`.
Content that comes in parts is fed to the asking window: each time the property
is removed, the next part takes its place.

* `Server.client_amend_self` and `Server.client_amend_of_ne`: what is done to
  one client leaves the others as they are;
* `Server.connection` is the connection of one client.
-/

namespace Clipboard.X11

/-- How the foreign client delivers content. -/
inductive Delivery where
  | whole (value : Property)
  /-- Announced, and then in parts.  An empty part is the last. -/
  | parts (list : List Property)
  /-- Said to be there, though it is not. -/
  | hollow
  deriving DecidableEq, Repr

/-- What the foreign client does when it is asked for a target. -/
inductive Answer where
  | refuse
  | silence
  /-- Delivering, after some notices that have nothing to do with it if it is noisy. -/
  | deliver (noisy : Bool) (d : Delivery)
  deriving DecidableEq, Repr

/-- Who owns the selection. -/
inductive Owner where
  | nobody
  | foreign
  | client (index : Nat)
  deriving DecidableEq, Repr

/-- A client. -/
structure Client where
  connected : Bool := true
  /-- Events that it has been sent and has not dealt with, oldest first. -/
  pending : List Event := []
  /-- Notices that it has not looked at, oldest first. -/
  inbox : List Notice := []
  selection : Selection := {}
  properties : List (Atom × Property) := []
  /-- The parts that will take the place of a property, and the property. -/
  feed : List Property := []
  feedPlace : Atom := 0
  deriving DecidableEq, Repr

/-- A client that is not there. -/
def Client.gone : Client := { connected := false, selection := Selection.cutOff {} }

/-- The server. -/
structure Server where
  /-- The names that have been given numbers, from `firstNumber` on. -/
  names : List String
  clients : List Client := []
  owner : Owner := .nobody
  /-- What the foreign client does, by target.  It refuses all others. -/
  answers : List (Atom × Answer) := []
  /-- What the foreign client has been sent, oldest first. -/
  mail : List Post := []
  /-- The time in milliseconds, which does not start over. -/
  time : Nat := 1000
  /-- The time from which the selection has its owner. -/
  ownerSince : Nat := 0
  /-- The length of the longest message, in units of four octets. -/
  longest : Nat := 16384
  refusesClaims : Bool := false
  /-- Whether the foreign client takes the selection as soon as a client is told
  that a client owns it. -/
  takesOver : Bool := false
  /-- Whether asking for the owner fails. -/
  hidesOwner : Bool := false
  /-- A request upon which the connection is closed. -/
  hangsUpOn : Option Request := none
  deriving DecidableEq, Repr

namespace Server

/-! ## Names -/

/-- The names that every server numbers alike, from one on. -/
def predefinedNames : List String :=
  ["PRIMARY", "SECONDARY", "ARC", "ATOM", "BITMAP", "CARDINAL", "COLORMAP", "CURSOR",
    "CUT_BUFFER0", "CUT_BUFFER1", "CUT_BUFFER2", "CUT_BUFFER3", "CUT_BUFFER4", "CUT_BUFFER5",
    "CUT_BUFFER6", "CUT_BUFFER7", "DRAWABLE", "FONT", "INTEGER", "PIXMAP", "POINT", "RECTANGLE",
    "RESOURCE_MANAGER", "RGB_COLOR_MAP", "RGB_BEST_MAP", "RGB_BLUE_MAP", "RGB_DEFAULT_MAP",
    "RGB_GRAY_MAP", "RGB_GREEN_MAP", "RGB_RED_MAP", "STRING", "VISUALID", "WINDOW",
    "WM_COMMAND", "WM_HINTS", "WM_CLIENT_MACHINE", "WM_ICON_NAME", "WM_ICON_SIZE", "WM_NAME",
    "WM_NORMAL_HINTS", "WM_SIZE_HINTS", "WM_ZOOM_HINTS", "MIN_SPACE", "NORM_SPACE", "MAX_SPACE",
    "END_SPACE", "SUPERSCRIPT_X", "SUPERSCRIPT_Y", "SUBSCRIPT_X", "SUBSCRIPT_Y",
    "UNDERLINE_POSITION", "UNDERLINE_THICKNESS", "STRIKEOUT_ASCENT", "STRIKEOUT_DESCENT",
    "ITALIC_ANGLE", "X_HEIGHT", "QUAD_WIDTH", "WEIGHT", "POINT_SIZE", "RESOLUTION", "COPYRIGHT",
    "NOTICE", "FONT_NAME", "FAMILY_NAME", "FULL_NAME", "CAP_HEIGHT", "WM_CLASS",
    "WM_TRANSIENT_FOR"]

/-- The names that clipboards go by, in the order in which they are numbered. -/
def clipboardNames : List String :=
  ["CLIPBOARD", "TARGETS", "UTF8_STRING", "text/plain;charset=utf-8", "TEXT", "INCR",
    "CLIPD_TRANSFER", "CLIPD_TIMESTAMP"]

/-- The number of the first name that is not predefined. -/
def firstNumber : Nat := 100

/-- The most names that can be given numbers. -/
def nameCapacity : Nat := 4294967296 - firstNumber

/-- A server on which a clipboard has been opened. -/
def start : Server := { names := clipboardNames }

/-- The atoms of the names that clipboards go by. -/
def atoms : Atoms where
  clipboard := 100
  targets := 101
  utf8 := 102
  plainUtf8 := 103
  latin1 := 31
  text := 104
  incremental := 105
  transfer := 106
  timestamp := 107
  atom := 4

/-- The primary selection, which is not the clipboard. -/
def primary : Atom := 1

/-- The atom of a name that has one. -/
def number? (s : Server) (name : String) : Option Atom :=
  match predefinedNames.findIdx? (· = name) with
  | some i => some (.ofNat (i + 1))
  | none => (s.names.findIdx? (· = name)).map fun i => .ofNat (firstNumber + i)

/-- The atom of a name, which gets the next number if it has none. -/
def intern (s : Server) (name : String) : Atom × Server :=
  match s.number? name with
  | some a => (a, s)
  | none => (.ofNat (firstNumber + s.names.length), { s with names := s.names ++ [name] })

/-- The name of an atom. -/
def nameOf? (s : Server) (a : Atom) : Option String :=
  if a.toNat < firstNumber then
    if a = 0 then none else predefinedNames[a.toNat - 1]?
  else s.names[a.toNat - firstNumber]?

/-- The time as clients are told it. -/
def stamp (s : Server) : Timestamp := .ofNat s.time

/-- The time that a client tells: the last that looks like that, or the present one.  There is
none before the server has been started. -/
def moment? (s : Server) (t : Timestamp) : Option Nat :=
  if t = 0 then some s.time
  else if (s.stamp - t).toNat ≤ s.time then some (s.time - (s.stamp - t).toNat)
  else none

/-- Time goes by until clients are told a time. -/
def waitFor (s : Server) (t : Timestamp) : Server :=
  { s with time := s.time + (t - s.stamp).toNat }

/-! ## Clients -/

/-- The client with an index. -/
def client (s : Server) (i : Nat) : Client := s.clients.getD i .gone

/-- Something done to one client. -/
def amend (s : Server) (i : Nat) (f : Client → Client) : Server :=
  { s with clients := s.clients.modify i f }

/-- What is done to a client is done. -/
theorem client_amend_self {s : Server} {i : Nat} (h : i < s.clients.length)
    (f : Client → Client) : (s.amend i f).client i = f (s.client i) := by
  simp [client, amend, List.getD_eq_getElem?_getD, h]

/-- The other clients are as they were. -/
theorem client_amend_of_ne {i j : Nat} (h : i ≠ j) (s : Server) (f : Client → Client) :
    (s.amend i f).client j = s.client j := by
  simp [client, amend, List.getD_eq_getElem?_getD, h]

/-- The window of a client. -/
def windowOf (i : Nat) : Window := .ofNat (0x200000 * (i + 1))

/-- The window of the foreign client. -/
def foreignWindow : Window := 0x3000001

/-- The client with a window. -/
def clientOf? (s : Server) (w : Window) : Option Nat :=
  (List.range s.clients.length).find? fun i => windowOf i = w

/-- The client that owns the selection, if it is connected. -/
def ownerClient? (s : Server) : Option Nat :=
  match s.owner with
  | .client i => if (s.client i).connected then some i else none
  | _ => none

/-- The window that owns the selection.  A client that has lost its connection
has no window any more. -/
def ownerWindow (s : Server) : Window :=
  match s.owner with
  | .foreign => foreignWindow
  | _ => (s.ownerClient?.map windowOf).getD 0

/-- Sending an event to a client. -/
def deliver (s : Server) (i : Nat) (e : Event) : Server :=
  s.amend i fun c => if c.connected then { c with pending := c.pending ++ [e] } else c

/-- Telling a client that a property of its window has changed. -/
def announce (s : Server) (i : Nat) (property : Atom) (removed : Bool) : Server :=
  s.deliver i (.noticed (.changed ⟨s.stamp, windowOf i, property, removed⟩))

/-- Storing a property of a client's window. -/
def put (s : Server) (i : Nat) (property : Atom) (value : Property) : Server :=
  (s.amend i fun c =>
    { c with properties := (property, value) :: c.properties.filter (·.1 ≠ property) }).announce
      i property false

/-- Removing a property of a client's window.  If it is being fed, the next part
takes its place. -/
def drop (s : Server) (i : Nat) (property : Atom) : Server :=
  let c := s.client i
  if (c.properties.lookup property).isNone then s
  else
    let s := (s.amend i fun c =>
      { c with properties := c.properties.filter (·.1 ≠ property) }).announce i property true
    match c.feed with
    | next :: rest =>
      if property = c.feedPlace then
        (s.amend i fun c => { c with feed := rest }).put i property next
      else s
    | [] => s

/-- Closing the connection of a client.  It still deals with the notices that
were on their way, and then offers nothing any more. -/
def disconnect (s : Server) (i : Nat) : Server :=
  s.amend i fun c =>
    { c with
      connected := false
      pending := []
      inbox := c.inbox ++ c.pending.filterMap fun
        | .noticed n => some n
        | _ => none
      selection := c.selection.cutOff
      feed := [] }

/-! ## The selection -/

/-- Giving the selection to an owner from a time on.  A client that loses it to another is told. -/
def passTo (s : Server) (next : Owner) (time : Nat) : Server :=
  let s' := match s.owner with
    | .client i =>
      if next = Owner.client i then s
      else s.deliver i (.dispossessed ⟨.ofNat time, windowOf i, atoms.clipboard⟩)
    | _ => s
  { s' with owner := next, ownerSince := time }

/-- Whether a claim is refused: all are, or it is to another selection, or it comes from before
the selection had its present owner. -/
def declines (s : Server) (selection : Atom) (time : Nat) : Bool :=
  s.refusesClaims || selection ≠ atoms.clipboard || time < s.ownerSince

/-- Telling a client what became of its inquiry. -/
def respond (s : Server) (i : Nat) (q : Inquiry) (place : Atom) : Server :=
  s.deliver i (.noticed (.replied ⟨q.time, q.requestor, q.selection, q.target, place⟩))

/-- Notices that have nothing to do with an inquiry. -/
def disturb (s : Server) (i : Nat) (q : Inquiry) : Server :=
  ((s.deliver i
    (.noticed (.replied ⟨q.time, q.requestor, primary, q.target, q.place⟩))).deliver i
    (.noticed (.replied ⟨q.time, foreignWindow, q.selection, q.target, q.place⟩))).announce i
    atoms.timestamp false

/-- The foreign client delivers. -/
def supply (s : Server) (i : Nat) (q : Inquiry) : Delivery → Server
  | .whole value => (s.put i q.place value).respond i q q.place
  | .parts list =>
    ((s.amend i fun c => { c with feed := list, feedPlace := q.place }).put i q.place
      ⟨atoms.incremental, .octets [0, 0, 0, 0]⟩).respond i q q.place
  | .hollow => s.respond i q q.place

/-- The foreign client is asked. -/
def askForeign (s : Server) (i : Nat) (q : Inquiry) : Server :=
  match (s.answers.lookup q.target).getD .refuse with
  | .refuse => s.respond i q 0
  | .silence => s
  | .deliver noisy d => (if noisy then s.disturb i q else s).supply i q d

/-- A client has the selection converted.  Without an owner that is there, it is
refused. -/
def inquire (s : Server) (i : Nat) (q : Inquiry) : Server :=
  if q.selection ≠ atoms.clipboard then s.respond i q 0
  else
    match s.owner, s.ownerClient? with
    | .foreign, _ => s.askForeign i q
    | _, some j => s.deliver j (.inquired q)
    | _, none => s.respond i q 0

/-! ## Messages -/

/-- What a message from a client does. -/
def handle (s : Server) (i : Nat) : Post → Server
  | .store w property value =>
    match s.clientOf? w with
    | some j => s.put j property value
    | none => { s with mail := s.mail ++ [.store w property value] }
  | .touch w property =>
    match s.clientOf? w with
    | some j => s.announce j property false
    | none => s
  | .remove w property =>
    match s.clientOf? w with
    | some j => s.drop j property
    | none => s
  | .inquire q => s.inquire i q
  | .claim _ selection t =>
    match s.moment? t with
    | some time => if s.declines selection time then s else s.passTo (.client i) time
    | none => s
  | .reply r =>
    match s.clientOf? r.requestor with
    | some j => s.deliver j (.noticed (.replied r))
    | none => { s with mail := s.mail ++ [.reply r] }

/-- Whether the server closes the connection upon a request. -/
def refuses (s : Server) (r : Request) : Bool := s.hangsUpOn = some r

/-- A message from a client, if the client is connected. -/
def post (s : Server) (i : Nat) (p : Post) : Server :=
  if (s.client i).connected then
    if s.refuses p.request then s.disconnect i else s.handle i p
  else s

/-- A request that has an answer. -/
def request {α : Type} (i : Nat) (r : Request) (answer : Action Server Fault α) :
    Action Server Fault α := fun s =>
  if (s.client i).connected then
    if s.refuses r then (.failed (.unanswered "connection closed"), s.disconnect i) else answer s
  else (.failed (.unanswered "connection closed"), s)

/-- A client learns the number of a name, unless there are no numbers left. -/
def requestAtom (i : Nat) (name : String) : Action Server Fault Atom :=
  request i .internAtom fun s =>
    if "fail/".isPrefixOf name ∨ (s.number? name).isNone ∧ nameCapacity ≤ s.names.length then
      (.failed (.unanswered "name refused"), s)
    else (.done (s.intern name).1, (s.intern name).2)

/-- A client learns which window owns the selection. -/
def requestOwner (i : Nat) : Action Server Fault Window :=
  request i .getSelectionOwner fun s =>
    if s.hidesOwner then (.failed (.unanswered "request refused"), s)
    else
      (.done s.ownerWindow,
        if s.takesOver ∧ s.ownerClient?.isSome then s.passTo .foreign s.time else s)

/-- A client takes a property of its window. -/
def requestProperty (i : Nat) (property : Atom) : Action Server Fault Property :=
  request i .getProperty fun s =>
    (.done (((s.client i).properties.lookup property).getD .absent), s.drop i property)

/-! ## Events -/

/-- A client deals with an event. -/
def dealWith (s : Server) (i : Nat) : Event → Server
  | .inquired q => ((s.client i).selection.answer atoms q).foldl (fun s p => s.post i p) s
  | .dispossessed d =>
    s.amend i fun c => { c with selection := c.selection.hear atoms (windowOf i) d }
  | .noticed n => s.amend i fun c => { c with inbox := c.inbox ++ [n] }
  | .other => s

/-- A client deals with the oldest of its events. -/
def advance (s : Server) (i : Nat) : Server :=
  match (s.client i).pending with
  | [] => s
  | e :: rest => (s.amend i fun c => { c with pending := rest }).dealWith i e

/-- A client deals with so many of its events. -/
def advanceBy (s : Server) (i : Nat) : Nat → Server
  | 0 => s
  | n + 1 => (s.advance i).advanceBy i n

/-- A client deals with the events that it has been sent so far. -/
def catchUp (s : Server) (i : Nat) : Server := s.advanceBy i (s.client i).pending.length

/-- Every client in turn deals with the events that it has been sent. -/
def catchUpAll (s : Server) : Server := (List.range s.clients.length).foldl catchUp s

/-- All clients deal with all events.  What they send each other while they deal
with inquiries are notices, which are dealt with in a second round. -/
def settle (s : Server) : Server := s.catchUpAll.catchUpAll

/-- A client looks at the oldest notice, if it has one. -/
def heard? (s : Server) (i : Nat) : Option (Notice × Server) :=
  match (s.client i).inbox with
  | [] => none
  | n :: rest => some (n, s.amend i fun c => { c with inbox := rest })

/-- A client waits for a notice, while all others go on. -/
def listen (s : Server) (i : Nat) : Heard × Server :=
  match s.heard? i with
  | some (n, s) => (.notice n, s)
  | none =>
    let s := s.settle
    match s.heard? i with
    | some (n, s) => (.notice n, s)
    | none => if (s.client i).connected then (.silence, s) else (.hangup, s)

/-- Notices that a client can still get without a further inquiry: those that it
has, two for every event that somebody has to deal with, and two for every part
of what it is being fed. -/
def horizon (s : Server) (i : Nat) : Nat :=
  (s.client i).inbox.length + 2 * s.clients.foldl (fun n c => n + c.pending.length) 0 +
    2 * (s.client i).feed.length + 2

/-- The connection of a client. -/
def connection (i : Nat) (longest : Nat) (patience : Duration) : Connection Server where
  window := windowOf i
  atoms := atoms
  longest := 4 * longest
  patience := patience
  selection s := (s.client i).selection
  setSelection selection s := s.amend i fun c => { c with selection := selection }
  send posts := fun s =>
    if (s.client i).connected then (.done (), posts.foldl (fun s p => s.post i p) s)
    else (.failed ⟨none, "connection closed"⟩, s)
  intern name := requestAtom i name
  owner := requestOwner i
  collect := requestProperty i atoms.transfer
  listen s := s.listen i
  discard s := s.amend i fun c => { c with inbox := [] }
  horizon s := s.horizon i

/-- The most clients that there can be.  The windows of more would not all differ. -/
def capacity : Nat := 2047

/-- A further client, and its index, if there is room for one. -/
def connect (s : Server) : Option (Nat × Server) :=
  if s.clients.length < capacity then
    some (s.clients.length, { s with clients := s.clients ++ [{}] })
  else none

/-! ## The foreign client -/

/-- The foreign client takes the selection, and answers in a new way. -/
def foreignTakes (s : Server) (answers : List (Atom × Answer)) : Server :=
  { s.passTo .foreign s.time with answers := answers }

/-- The selection is left without an owner. -/
def vacate (s : Server) : Server := s.passTo .nobody s.time

/-- The foreign client asks a client for the content, and gets mail. -/
def foreignAsks (s : Server) (i : Nat) (q : Inquiry) : List Post × Server :=
  let s := ({ s with mail := [] }.deliver i (.inquired q)).settle
  (s.mail, { s with mail := [] })

end Server

end Clipboard.X11
