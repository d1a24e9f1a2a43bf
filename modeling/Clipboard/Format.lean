import Clipboard.Payload

/-!
# Formats

A program asks for content by kind: text, or a format that applications have
agreed on by name.  A platform names its formats natively, by number or by
name, and a kind may go by several native formats, some of which are only read.
-/

namespace Clipboard

/-- What a program puts on a clipboard or takes off it. -/
inductive Kind where
  | text
  /-- A format that applications know by this name. -/
  | custom (name : String)
  deriving DecidableEq, Repr

/-- The kind in words. -/
def Kind.display : Kind → String
  | text => "text"
  | custom name => name

/-- How a platform identifies a format. -/
inductive Format.Id where
  | number (id : UInt32)
  | named (name : String)
  deriving DecidableEq, Repr

/-- The identifier in words. -/
def Format.Id.display : Format.Id → String
  | number id => s!"#{id.toNat}"
  | named name => name

/-- A format of a platform and the encoding that its content has. -/
structure Format where
  id : Format.Id
  encoding : Encoding
  /-- Whether it is offered when this program writes.  Any format is read. -/
  writable : Bool := true
  deriving DecidableEq, Repr

namespace Format

/-- A format that is read and never offered. -/
def readOnly (id : Format.Id) (encoding : Encoding) : Format := ⟨id, encoding, false⟩

/-- Whether text is offered in this format. -/
def takesText (f : Format) : Bool := f.writable && f.encoding != .opaqueData

end Format

end Clipboard
