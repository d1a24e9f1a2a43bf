import Clipboard.Desktop

/-!
# The shared clipboard

The one clipboard that all parts of a program share.  It is set up by the
environment when it is first used and is never set up again.  An environment that
cannot be read counts as one that sets nothing, and a clipboard that could not
be set up fails whatever it is asked.

* `Shared.board_of_kept`: what has been set up is kept.
-/

namespace Clipboard

/-- A program with its shared clipboard. -/
structure Shared (τ : Type) where
  host : Host (Desktop τ)
  /-- The clipboard, or why there is none, once it has been used. -/
  kept : Option (Except AccessError (Board (Desktop τ))) := none

namespace Shared

variable {τ α : Type}

/-- The settings of the environment, or the usual ones if it cannot be read. -/
def settings (env : Environment) : Settings := (Settings.ofEnvironment env).toOption.getD {}

variable (o : Surroundings τ)

/-- The shared clipboard, which is set up if it has not been. -/
def board : Action (Shared τ) AccessError (Board (Desktop τ)) := fun s =>
  match s.kept with
  | some r => (.ofExcept r, s)
  | none =>
    let (r, host) := Host.on (Desktop.openBoard o (settings s.host.world.environment)) s.host
    match r with
    | .done b => (.done b, ⟨host, some (.ok b)⟩)
    | .failed e => (.failed e, ⟨host, some (.error e)⟩)
    | .unwound => (.unwound, ⟨host, none⟩)

/-- What has been set up is kept. -/
theorem board_of_kept {s : Shared τ} {r : Except AccessError (Board (Desktop τ))}
    (h : s.kept = some r) : board o s = (.ofExcept r, s) := by
  simp [board, h]

/-- An operation on the shared clipboard. -/
def operate (body : Board (Desktop τ) → Action (Host (Desktop τ)) AccessError α) :
    Action (Shared τ) AccessError α := do
  let b ← board o
  (body b).zoom (·.host) fun host s => { s with host := host }

/-- Putting a text on it. -/
def setText (text : String) : Action (Shared τ) AccessError Unit := operate o (·.setText text)

/-- The text on it. -/
def getText : Action (Shared τ) AccessError String := operate o (·.getText)

/-- Whether `getText` would answer.  It never fails. -/
def hasText : Action (Shared τ) AccessError Bool :=
  Action.recover (fun _ => false) (operate o (·.hasText))

/-- Putting octets of a kind on it. -/
def setContents (kind : Kind) (bytes : Octets) : Action (Shared τ) AccessError Unit :=
  operate o (·.setContents kind bytes)

/-- The octets of a kind on it. -/
def getContents (kind : Kind) : Action (Shared τ) AccessError Octets :=
  operate o (·.getContents kind)

/-- Putting nothing on it. -/
def clear : Action (Shared τ) AccessError Unit := operate o (·.clear)

end Shared

end Clipboard
