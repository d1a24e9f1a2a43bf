import Clipboard.Session

/-!
# The operations of a clipboard

The operations that a clipboard opens a session for, as data, so that a run of
them is a list.
-/

namespace Clipboard

variable {σ : Type}

/-- What a program does with a clipboard. -/
inductive Operation where
  | setText (text : String)
  | getText
  | hasText
  | setContents (kind : Kind) (bytes : Octets)
  | getContents (kind : Kind)
  | clear
  deriving DecidableEq, Repr

/-- What it is answered with. -/
inductive Reply where
  | done
  | text (text : String)
  | flag (value : Bool)
  | octets (bytes : Octets)
  deriving DecidableEq, Repr

/-- The call that an operation is. -/
def Operation.perform (c : Board σ) : Operation → Action (Host σ) AccessError Reply
  | .setText text => (fun _ => .done) <$> c.setText text
  | .getText => .text <$> c.getText
  | .hasText => .flag <$> c.hasText
  | .setContents kind bytes => (fun _ => .done) <$> c.setContents kind bytes
  | .getContents kind => .octets <$> c.getContents kind
  | .clear => (fun _ => .done) <$> c.clear

end Clipboard
