import Clipboard.Octets

/-!
# Latin-1

Every octet is the character of the same number, so any octets can be read, and
a text can be written if all its characters are below U+0100.
-/

namespace Clipboard.Latin1

/-- Whether a character has a place in Latin-1. -/
def holds (c : Char) : Bool := c.toNat < 256

/-- The first character that cannot be written, if there is one. -/
def foreign? (text : List Char) : Option Char := text.find? (! holds ·)

/-- The octets of a text whose characters can all be written. -/
def encode (text : List Char) : Octets := text.map fun c => .ofNat c.toNat

/-- The text that the octets spell. -/
def decode (bytes : Octets) : List Char := bytes.map fun b => Char.ofNat b.toNat

end Clipboard.Latin1
