import Clipboard.Octets

/-!
# UTF-8

A character is written as a lead octet and up to three continuation octets.
The reader takes one octet at a time: between characters, or within a character
that still owes octets, with the range that the next one has to lie in.  The
first continuation octet of some leads has a narrower range, which rules out
overlong forms, surrogates and numbers above U+10FFFF.

* `encode` writes characters;
* `decode` reads octets or states the first fault: a sequence that cannot be
  continued, or one that the end cuts off;
* `decodeLossy` reads any octets, with U+FFFD for every such sequence.
-/

namespace Clipboard.Utf8

/-- The octets of one character. -/
def encodeChar (c : Char) : Octets :=
  let n := c.toNat
  if n < 0x80 then [.ofNat n]
  else if n < 0x800 then [.ofNat (0xC0 + n / 64), .ofNat (0x80 + n % 64)]
  else if n < 0x10000 then
    [.ofNat (0xE0 + n / 4096), .ofNat (0x80 + n / 64 % 64), .ofNat (0x80 + n % 64)]
  else
    [.ofNat (0xF0 + n / 262144), .ofNat (0x80 + n / 4096 % 64),
      .ofNat (0x80 + n / 64 % 64), .ofNat (0x80 + n % 64)]

/-- The octets of a text. -/
def encode (text : List Char) : Octets := text.flatMap encodeChar

/-- A character that has begun: the continuation octets it owes beyond the next
one, the range of the next one, the number read so far, and the octets taken. -/
structure Begun where
  owed : Nat
  low : UInt8
  high : UInt8
  value : Nat
  taken : Nat
  deriving DecidableEq, Repr

/-- What one octet leads to. -/
inductive Progress where
  /-- The octet completes a character. -/
  | char (c : Char)
  /-- The character needs more octets. -/
  | more (b : Begun)
  /-- The octet cannot stand here. -/
  | refused
  deriving DecidableEq, Repr

/-- The first octet of a character. -/
def first (b : UInt8) : Progress :=
  let n := b.toNat
  if n < 0x80 then .char (Char.ofNat n)
  else if n < 0xC2 then .refused
  else if n < 0xE0 then .more ⟨0, 0x80, 0xBF, n - 0xC0, 1⟩
  else if n = 0xE0 then .more ⟨1, 0xA0, 0xBF, 0, 1⟩
  else if n = 0xED then .more ⟨1, 0x80, 0x9F, 13, 1⟩
  else if n < 0xF0 then .more ⟨1, 0x80, 0xBF, n - 0xE0, 1⟩
  else if n = 0xF0 then .more ⟨2, 0x90, 0xBF, 0, 1⟩
  else if n < 0xF4 then .more ⟨2, 0x80, 0xBF, n - 0xF0, 1⟩
  else if n = 0xF4 then .more ⟨2, 0x80, 0x8F, 4, 1⟩
  else .refused

/-- A further octet of a character. -/
def Begun.push (c : Begun) (b : UInt8) : Progress :=
  if c.low ≤ b ∧ b ≤ c.high then
    let value := c.value * 64 + (b.toNat - 0x80)
    match c.owed with
    | 0 => .char (Char.ofNat value)
    | owed + 1 => .more ⟨owed, 0x80, 0xBF, value, c.taken + 1⟩
  else .refused

/-- An octet between characters or within one. -/
def step : Option Begun → UInt8 → Progress
  | none, b => first b
  | some c, b => c.push b

/-- How many octets of the present character have been taken. -/
def taken : Option Begun → Nat
  | none => 0
  | some c => c.taken

/-- Why octets are not UTF-8. -/
inductive Fault where
  /-- The octets from `index` on, `length` of them, begin no character. -/
  | malformed (length index : Nat)
  /-- The end cuts off the character that begins at `index`. -/
  | truncated (index : Nat)
  deriving DecidableEq, Repr

/-- The fault in words. -/
def Fault.message : Fault → String
  | malformed length index => s!"invalid utf-8 sequence of {length} bytes from index {index}"
  | truncated index => s!"incomplete utf-8 byte sequence from index {index}"

/-- Reading on from the character that begins at `index`, after the characters
`done`, latest first. -/
def decodeFrom (done : List Char) (index : Nat) :
    Option Begun → Octets → Except Fault (List Char)
  | none, [] => .ok done.reverse
  | some _, [] => .error (.truncated index)
  | now, b :: rest =>
    match step now b with
    | .char c => decodeFrom (c :: done) (index + taken now + 1) none rest
    | .more begun => decodeFrom done index (some begun) rest
    | .refused => .error (.malformed (max 1 (taken now)) index)

/-- The characters that the octets spell, or the first fault. -/
def decode (bytes : Octets) : Except Fault (List Char) := decodeFrom [] 0 none bytes

/-- The character that stands for octets that spell none. -/
def replacement : Char := Char.ofNat 0xFFFD

/-- Reading on with a replacement for every sequence that spells no character.
An octet that breaks a sequence off is looked at again as a first one. -/
def decodeLossyFrom (done : List Char) : Option Begun → Octets → List Char
  | none, [] => done.reverse
  | some _, [] => (replacement :: done).reverse
  | none, b :: rest =>
    match first b with
    | .char c => decodeLossyFrom (c :: done) none rest
    | .more begun => decodeLossyFrom done (some begun) rest
    | .refused => decodeLossyFrom (replacement :: done) none rest
  | some c, b :: rest =>
    match c.push b with
    | .char c => decodeLossyFrom (c :: done) none rest
    | .more begun => decodeLossyFrom done (some begun) rest
    | .refused =>
      match first b with
      | .char c => decodeLossyFrom (c :: replacement :: done) none rest
      | .more begun => decodeLossyFrom (replacement :: done) (some begun) rest
      | .refused => decodeLossyFrom (replacement :: replacement :: done) none rest

/-- The characters that the octets spell, with replacements where they spell none. -/
def decodeLossy (bytes : Octets) : List Char := decodeLossyFrom [] none bytes

@[simp] theorem encode_nil : encode [] = [] := rfl

@[simp] theorem encode_cons (c : Char) (text : List Char) :
    encode (c :: text) = encodeChar c ++ encode text := rfl

/-- Texts are written one after the other. -/
theorem encode_append (s t : List Char) : encode (s ++ t) = encode s ++ encode t :=
  List.flatMap_append

end Clipboard.Utf8
