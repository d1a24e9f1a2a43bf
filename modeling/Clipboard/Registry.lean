import Clipboard.Backend

/-!
# Remembered formats

The native formats of a kind are asked for once.  The first answer that is not
empty is kept under the name of the backend and the kind, and from then on
every backend of that name gets it without being asked again.  An empty answer
is a failure and is not kept, since it would make every later question look
like a clipboard without content.

* `Registry.find?_keep_self` and `Registry.find?_keep_of_ne`: keeping an answer
  changes that of its own key alone;
* `Backend.resolve_of_find?`: a remembered answer is given without a call.
-/

namespace Clipboard

/-- Native formats by the name of a backend and the kind of content, in the
order in which they were first asked for. -/
structure Registry where
  entries : List ((String × Kind) × List Format) := []
  deriving DecidableEq, Repr

namespace Registry

/-- The formats that are remembered. -/
def find? (r : Registry) (name : String) (kind : Kind) : Option (List Format) :=
  (r.entries.find? fun e => e.1 = (name, kind)).map (·.2)

/-- The place of an answer among those that are remembered. -/
def slot? (r : Registry) (name : String) (kind : Kind) : Option Nat :=
  r.entries.findIdx? fun e => e.1 = (name, kind)

/-- Remembering an answer. -/
def keep (r : Registry) (name : String) (kind : Kind) (formats : List Format) : Registry :=
  ⟨r.entries ++ [((name, kind), formats)]⟩

/-- A new answer is found again. -/
theorem find?_keep_self {r : Registry} {name : String} {kind : Kind}
    (h : r.find? name kind = none) (formats : List Format) :
    (r.keep name kind formats).find? name kind = some formats := by
  simp only [find?, keep, Option.map_eq_none_iff, List.find?_append] at h ⊢
  simp [h]

/-- An answer for another key is not touched. -/
theorem find?_keep_of_ne {r : Registry} {name name' : String} {kind kind' : Kind}
    (h : (name, kind) ≠ (name', kind')) (formats : List Format) :
    (r.keep name kind formats).find? name' kind' = r.find? name' kind' := by
  simp only [find?, keep, List.find?_append]
  rw [List.find?_singleton]
  simp [h]

end Registry

/-- A program that uses clipboards: the state of its backends, and the formats
that they have named. -/
structure Host (σ : Type) where
  world : σ
  registry : Registry := {}

namespace Host

variable {σ ε α : Type}

/-- A call on the state of the backends alone. -/
def on (x : Action σ ε α) : Action (Host σ) ε α :=
  x.zoom (·.world) fun w d => { d with world := w }

@[simp] theorem on_apply (x : Action σ ε α) (d : Host σ) :
    on x d = ((x d.world).1, { d with world := (x d.world).2 }) := rfl

end Host

namespace Backend

variable {σ : Type}

/-- The failure of a backend that names no format for a kind. -/
def noFormat (b : Backend σ) (kind : Kind) : Failure :=
  .rejected (b.name ++ " backend has no native format for " ++ kind.display)

/-- The native formats of a kind, remembered or asked for. -/
def resolve (b : Backend σ) (kind : Kind) : Action (Host σ) Failure (List Format) := do
  match ← Action.ask (·.registry.find? b.name kind) with
  | some formats => return formats
  | none =>
    let formats ← Host.on (b.formatsFor kind)
    if formats.isEmpty then Action.fail (b.noFormat kind)
    else
      Action.update fun d => { d with registry := d.registry.keep b.name kind formats }
      return formats

/-- What is remembered is given without a call. -/
theorem resolve_of_find? {b : Backend σ} {kind : Kind} {d : Host σ} {formats : List Format}
    (h : d.registry.find? b.name kind = some formats) :
    b.resolve kind d = (.done formats, d) := by
  simp [resolve, Action.bind_apply, Action.ask, h]

end Backend

end Clipboard
