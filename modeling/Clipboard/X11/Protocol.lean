import Clipboard.Octets

/-!
# The selection protocol

What clients of a display server say to each other about a selection.  A
selection has an owner, which is a window.  Another client asks for its content
in a format, called a target; the owner stores the content as a property of the
asking window, and notifies that window.

Names are numbered by the server, and a number that stands for a name is an
atom.  Zero is no atom, no window, and the present time.
-/

namespace Clipboard.X11

/-- A name, by its number. -/
abbrev Atom : Type := UInt32

/-- A window, by its number. -/
abbrev Window : Type := UInt32

/-- A time in milliseconds.  It starts over after 32 bits. -/
abbrev Timestamp : Type := UInt32

/-- The content of a property. -/
inductive Data where
  | octets (bytes : Octets)
  /-- A list of names. -/
  | atoms (list : List Atom)
  deriving DecidableEq, Repr

/-- The octets of an atom, low octet first. -/
def octetsOfAtom (a : Atom) : Octets :=
  let n := a.toNat
  [.ofNat (n % 256), .ofNat (n / 256 % 256), .ofNat (n / 65536 % 256), .ofNat (n / 16777216)]

/-- The content as octets. -/
def Data.bytes : Data → Octets
  | octets bytes => bytes
  | atoms list => list.flatMap octetsOfAtom

/-- The atom with these octets. -/
def atomOfOctets (a b c d : UInt8) : Atom :=
  .ofNat (a.toNat + 256 * b.toNat + 65536 * c.toNat + 16777216 * d.toNat)

/-- The atoms whose octets stand one after the other.  What is left over at the
end is passed over. -/
def atomsOfOctets : Octets → List Atom
  | a :: b :: c :: d :: rest => atomOfOctets a b c d :: atomsOfOctets rest
  | _ => []

/-- A value that a window has under a name. -/
structure Property where
  type : Atom
  data : Data
  deriving DecidableEq, Repr

/-- What is found where there is no property. -/
def Property.absent : Property := ⟨0, .octets []⟩

/-- A client asks for a selection. -/
structure Inquiry where
  time : Timestamp
  requestor : Window
  selection : Atom
  target : Atom
  /-- Where the content is to be stored, or zero. -/
  property : Atom
  deriving DecidableEq, Repr

/-- A selection has another owner. -/
structure Dispossession where
  time : Timestamp
  /-- The window that has owned it. -/
  owner : Window
  selection : Atom
  deriving DecidableEq, Repr

/-- An inquiry has been dealt with. -/
structure Reply where
  time : Timestamp
  requestor : Window
  selection : Atom
  target : Atom
  /-- Where the content has been stored, or zero if it was refused. -/
  property : Atom
  deriving DecidableEq, Repr

/-- A property of a window has a new value, or none any more. -/
structure Change where
  time : Timestamp
  window : Window
  property : Atom
  removed : Bool
  deriving DecidableEq, Repr

/-- What a client is told about an inquiry of its own. -/
inductive Notice where
  | replied (r : Reply)
  | changed (c : Change)
  deriving DecidableEq, Repr

/-- What a client is told. -/
inductive Event where
  | inquired (i : Inquiry)
  | dispossessed (d : Dispossession)
  | noticed (n : Notice)
  /-- Something that has nothing to do with selections. -/
  | other
  deriving DecidableEq, Repr

/-- What a client tells the server without waiting for an answer. -/
inductive Post where
  /-- Storing a property of a window. -/
  | store (window : Window) (property : Atom) (value : Property)
  /-- Adding nothing to a property, which is a change all the same. -/
  | touch (window : Window) (property : Atom)
  | remove (window : Window) (property : Atom)
  | inquire (i : Inquiry)
  /-- Claiming a selection for a window. -/
  | claim (window : Window) (selection : Atom) (time : Timestamp)
  | reply (r : Reply)
  deriving DecidableEq, Repr

/-- What a client can ask of the server. -/
inductive Request where
  | internAtom
  | getSelectionOwner
  | setSelectionOwner
  | convertSelection
  | getProperty
  | changeProperty
  | deleteProperty
  | sendEvent
  deriving DecidableEq, Repr

/-- What a request is called in failures. -/
def Request.name : Request → String
  | internAtom => "intern_atom"
  | getSelectionOwner => "get_selection_owner"
  | setSelectionOwner => "set_selection_owner"
  | convertSelection => "convert_selection"
  | getProperty => "get_property"
  | changeProperty => "change_property"
  | deleteProperty => "delete_property"
  | sendEvent => "send_event"

/-- The request that a message without answer makes. -/
def Post.request : Post → Request
  | store .. | touch .. => .changeProperty
  | remove .. => .deleteProperty
  | inquire _ => .convertSelection
  | claim .. => .setSelectionOwner
  | reply _ => .sendEvent

/-- The names that clipboards go by. -/
structure Atoms where
  /-- The selection. -/
  clipboard : Atom
  /-- The target that lists the other targets. -/
  targets : Atom
  utf8 : Atom
  plainUtf8 : Atom
  latin1 : Atom
  /-- Text in an encoding of the owner's choice. -/
  text : Atom
  /-- The type that announces content in parts. -/
  incremental : Atom
  /-- The property that content is delivered in. -/
  transfer : Atom
  /-- The property that is touched to learn the time. -/
  timestamp : Atom
  /-- The type of a list of names. -/
  atom : Atom
  deriving DecidableEq, Repr

/-- The atoms of a list are read back from its octets. -/
theorem atomsOfOctets_bytes (list : List Atom) : atomsOfOctets (Data.atoms list).bytes = list := by
  induction list with
  | nil => rfl
  | cons a list ih =>
    have ha : atomOfOctets (.ofNat (a.toNat % 256)) (.ofNat (a.toNat / 256 % 256))
        (.ofNat (a.toNat / 65536 % 256)) (.ofNat (a.toNat / 16777216)) = a := by
      have := a.toNat_lt
      apply UInt32.toNat_inj.mp
      simp only [atomOfOctets, UInt8.toNat_ofNat', UInt32.toNat_ofNat']
      omega
    simp only [Data.bytes] at ih ⊢
    simp [octetsOfAtom, atomsOfOctets, ih, ha]

end Clipboard.X11
