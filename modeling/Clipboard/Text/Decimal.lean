/-!
# Decimal numbers

Reading a number of decimal digits that has to stay within a bound.  A plus sign
may stand before the digits.  The digits are taken from the left, and the first
thing that goes wrong is what is reported: a character that is no digit, or the
digit with which the number passes the bound.
-/

namespace Clipboard.Decimal

/-- Why a text is not a number within its bound. -/
inductive Fault where
  /-- There are no characters at all. -/
  | empty
  /-- A character is no digit, or there is only a sign. -/
  | invalidDigit
  /-- The number is above the bound. -/
  | tooLarge
  deriving DecidableEq, Repr

/-- The fault in words. -/
def Fault.message : Fault → String
  | empty => "cannot parse integer from empty string"
  | invalidDigit => "invalid digit found in string"
  | tooLarge => "number too large to fit in target type"

/-- The value of a decimal digit. -/
def digit? (c : Char) : Option Nat :=
  if '0' ≤ c ∧ c ≤ '9' then some (c.toNat - '0'.toNat) else none

/-- Reading digits on after the number `value`. -/
def readFrom (bound : Nat) (value : Nat) : List Char → Except Fault Nat
  | [] => .ok value
  | c :: rest =>
    match digit? c with
    | none => .error .invalidDigit
    | some d =>
      if value * 10 + d ≤ bound then readFrom bound (value * 10 + d) rest else .error .tooLarge

/-- A number of at most `bound`, with or without a plus sign. -/
def read (bound : Nat) : List Char → Except Fault Nat
  | [] => .error .empty
  | ['+'] => .error .invalidDigit
  | '+' :: digits => readFrom bound 0 digits
  | digits => readFrom bound 0 digits

end Clipboard.Decimal
