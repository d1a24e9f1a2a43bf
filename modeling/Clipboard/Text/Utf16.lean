import Clipboard.Octets

/-!
# UTF-16, little end first

A character up to U+FFFF is one unit, any other a surrogate pair, and each unit
is two octets with the low one first.

* `units` and `ofUnits?` go between characters and units; units that hold a
  surrogate without its partner spell no text;
* `octetsOf` and `unitsOf` go between units and octets.
-/

namespace Clipboard.Utf16

/-- The units of one character. -/
def unitsOfChar (c : Char) : List UInt16 :=
  let n := c.toNat
  if n < 0x10000 then [.ofNat n]
  else [.ofNat (0xD800 + (n - 0x10000) / 1024), .ofNat (0xDC00 + (n - 0x10000) % 1024)]

/-- The units of a text. -/
def units (text : List Char) : List UInt16 := text.flatMap unitsOfChar

/-- Whether a unit is the first half of a pair. -/
def isHigh (u : UInt16) : Bool := 0xD800 ≤ u && u < 0xDC00

/-- Whether a unit is the second half of a pair. -/
def isLow (u : UInt16) : Bool := 0xDC00 ≤ u && u < 0xE000

/-- The character of a surrogate pair. -/
def pair (high low : UInt16) : Char :=
  Char.ofNat (0x10000 + (high.toNat - 0xD800) * 1024 + (low.toNat - 0xDC00))

/-- Reading on after the characters `done`, latest first, and after `high` if
that half of a pair still waits for the other. -/
def ofUnitsFrom (done : List Char) : Option UInt16 → List UInt16 → Option (List Char)
  | none, [] => some done.reverse
  | some _, [] => none
  | none, u :: rest =>
    if isHigh u then ofUnitsFrom done (some u) rest
    else if isLow u then none
    else ofUnitsFrom (Char.ofNat u.toNat :: done) none rest
  | some high, u :: rest =>
    if isLow u then ofUnitsFrom (pair high u :: done) none rest else none

/-- The characters that the units spell, if every surrogate has its partner. -/
def ofUnits? (units : List UInt16) : Option (List Char) := ofUnitsFrom [] none units

/-- The octets of one unit. -/
def octetsOfUnit (u : UInt16) : Octets := [.ofNat (u.toNat % 256), .ofNat (u.toNat / 256)]

/-- The octets of units. -/
def octetsOf (units : List UInt16) : Octets := units.flatMap octetsOfUnit

/-- The unit with these octets. -/
def unit (low high : UInt8) : UInt16 := .ofNat (low.toNat + 256 * high.toNat)

/-- Reading units after those in `done`, latest first. -/
def unitsFrom (done : List UInt16) : Octets → List UInt16
  | low :: high :: rest => unitsFrom (unit low high :: done) rest
  | _ => done.reverse

/-- The units of the octets, without a last odd octet. -/
def unitsOf (bytes : Octets) : List UInt16 := unitsFrom [] bytes

/-- The units before the first zero unit, or all of them. -/
def untilZero (units : List UInt16) : List UInt16 := units.takeWhile (· != 0)

/-- The octets of a text. -/
def encode (text : List Char) : Octets := octetsOf (units text)

end Clipboard.Utf16
