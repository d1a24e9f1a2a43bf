import Clipboard.Backend

/-!
# Traces

What a backend has been asked to do, call by call.  `Backend.traced` is the
backend that answers as before and keeps a list of the calls, so that what is
said of all backends can speak of their calls too.
-/

namespace Clipboard

/-- A call on a backend. -/
inductive Call where
  | acquire
  | release
  | formatsFor (kind : Kind)
  | offers (id : Format.Id)
  | pick (formats : List Format)
  | read (format : Format)
  | write (items : List (Format × Payload))
  | clear
  deriving DecidableEq, Repr

namespace Backend

variable {σ ε α : Type}

/-- A call that is noted down before it is made. -/
def noted (call : Call) (x : Action σ ε α) : Action (σ × List Call) ε α :=
  fun s => ((x s.1).1, (x s.1).2, s.2 ++ [call])

/-- The backend that keeps a list of its calls, the latest last. -/
def traced (b : Backend σ) : Backend (σ × List Call) where
  name := b.name
  ownership := b.ownership
  convention := b.convention
  formatsFor kind := noted (.formatsFor kind) (b.formatsFor kind)
  acquire := noted .acquire b.acquire
  release := noted .release b.release
  offers id := noted (.offers id) (b.offers id)
  pick formats := noted (.pick formats) (b.pick formats)
  read f := noted (.read f) (b.read f)
  write items := noted (.write items) (b.write items)
  clear := noted .clear b.clear
  displaced s := b.displaced s.1

end Backend

end Clipboard
