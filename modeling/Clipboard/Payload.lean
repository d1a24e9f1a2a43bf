import Clipboard.Text.Utf8
import Clipboard.Text.Utf16
import Clipboard.Text.Latin1
import Clipboard.Text.LineBreaks

/-!
# Text as content

Content is octets with a note on how they carry text.  A platform has its own
convention for text: how its lines end, and whether a NUL unit ends it.
`Payload.ofText` writes a text for a platform and `Payload.text` reads one.
Line breaks are brought into canonical form before writing and after reading,
so that texts that differ in their line breaks alone are written alike.
-/

namespace Clipboard

/-- How octets carry text. -/
inductive Encoding where
  | utf8
  | utf16le
  | latin1
  /-- Not at all: the octets mean something to an application only. -/
  | opaqueData
  deriving DecidableEq, Repr

/-- How a platform lays out text. -/
structure Convention where
  /-- Lines end in CR LF rather than in LF. -/
  crlf : Bool
  /-- The text ends before the first NUL unit. -/
  terminated : Bool
  deriving DecidableEq, Repr

namespace Convention

/-- Lines end in LF, and the text with the octets. -/
def unix : Convention := ⟨false, false⟩

/-- Lines end in CR LF, and the text before a NUL unit. -/
def windows : Convention := ⟨true, true⟩

end Convention

namespace Encoding

/-- The octets of one unit. -/
def unitWidth : Encoding → Nat
  | utf16le => 2
  | _ => 1

end Encoding

/-- Why a text cannot be written, or octets cannot be read as text. -/
inductive TextFault where
  /-- The text holds NUL, where NUL ends a text. -/
  | holdsNul
  /-- A character has no place in Latin-1. -/
  | notLatin1 (c : Char)
  /-- Text cannot be written without an encoding. -/
  | unwritable
  /-- Text cannot be read without an encoding. -/
  | unreadable
  /-- UTF-16 takes two octets a unit. -/
  | oddLength (octets : Nat)
  /-- The octets are not UTF-8. -/
  | notUtf8 (fault : Utf8.Fault)
  /-- A surrogate stands without its partner. -/
  | loneSurrogate
  deriving DecidableEq, Repr

namespace TextFault

/-- The number of a character in hexadecimal, of four digits or more. -/
def codePoint (c : Char) : String :=
  let digits := (Nat.toDigits 16 c.toNat).map Char.toUpper
  String.ofList (List.replicate (4 - digits.length) '0' ++ digits)

/-- The fault in words. -/
def message : TextFault → String
  | holdsNul => "text contains NUL, which this platform uses as a terminator"
  | notLatin1 c => "character U+" ++ codePoint c ++ " has no Latin-1 representation"
  | unwritable => "opaque format cannot carry text"
  | unreadable => "opaque format cannot be read as text"
  | oddLength n => s!"UTF-16 data has odd length {n}"
  | notUtf8 fault => "invalid UTF-8: " ++ fault.message
  | loneSurrogate => "invalid UTF-16: invalid utf-16: lone surrogate found"

end TextFault

/-- Content with a note on how it carries text. -/
structure Payload where
  bytes : Octets
  encoding : Encoding
  deriving DecidableEq, Repr

namespace Payload

/-- The characters of a text as a platform lays them out, its end apart. -/
def layout (convention : Convention) (text : List Char) : List Char :=
  let lines := LineBreaks.unify text
  if convention.crlf then LineBreaks.expand lines else lines

/-- The octets of characters in an encoding. -/
def encodeChars (text : List Char) : Encoding → Except TextFault Octets
  | .utf8 => .ok (Utf8.encode text)
  | .utf16le => .ok (Utf16.encode text)
  | .latin1 =>
    match Latin1.foreign? text with
    | some c => .error (.notLatin1 c)
    | none => .ok (Latin1.encode text)
  | .opaqueData => .error .unwritable

/-- The NUL unit that ends a text, where a platform has one. -/
def terminator (encoding : Encoding) (convention : Convention) : Octets :=
  if convention.terminated then List.replicate encoding.unitWidth 0 else []

/-- A text written for a platform. -/
def ofChars (text : List Char) (encoding : Encoding) (convention : Convention) :
    Except TextFault Payload :=
  if convention.terminated && text.contains '\x00' then .error .holdsNul
  else (encodeChars (layout convention text) encoding).map fun bytes =>
    ⟨bytes ++ terminator encoding convention, encoding⟩

/-- A text written for a platform. -/
def ofText (text : String) (encoding : Encoding) (convention : Convention) :
    Except TextFault Payload :=
  ofChars text.toList encoding convention

/-- The octets of text, without what follows a NUL octet where that ends it. -/
def octetsOfText (convention : Convention) (bytes : Octets) : Octets :=
  if convention.terminated then bytes.untilZero else bytes

/-- The units of text, without what follows a NUL unit where that ends it. -/
def unitsOfText (convention : Convention) (bytes : Octets) : List UInt16 :=
  let units := Utf16.unitsOf bytes
  if convention.terminated then Utf16.untilZero units else units

/-- The characters that content spells, with the line breaks it has. -/
def rawChars (p : Payload) (convention : Convention) : Except TextFault (List Char) :=
  match p.encoding with
  | .utf8 => (Utf8.decode (octetsOfText convention p.bytes)).mapError .notUtf8
  | .utf16le =>
    if p.bytes.length % 2 ≠ 0 then .error (.oddLength p.bytes.length)
    else
      match Utf16.ofUnits? (unitsOfText convention p.bytes) with
      | some text => .ok text
      | none => .error .loneSurrogate
  | .latin1 => .ok (Latin1.decode (octetsOfText convention p.bytes))
  | .opaqueData => .error .unreadable

/-- The characters that content spells, in canonical form. -/
def chars (p : Payload) (convention : Convention) : Except TextFault (List Char) :=
  (p.rawChars convention).map LineBreaks.unify

/-- The text that content spells, in canonical form. -/
def text (p : Payload) (convention : Convention) : Except TextFault String :=
  (p.chars convention).map String.ofList

end Payload

end Clipboard
