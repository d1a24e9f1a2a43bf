import Clipboard.InMemory
import Clipboard.Session
import Clipboard.Settings
import Clipboard.Helper.Tool
import Clipboard.X11.Backend

/-!
# The desktop

All that a program finds around it when it looks for a clipboard: its environment, the
helper programs that it can run, and the display server that it can connect to.  The last
two are outside of the program, and how they behave is a record, `Surroundings`, so that
what is said of a program holds however they do.

`Desktop.openBackend` makes the backend that the settings call for, and
`Desktop.openBoard` a clipboard with it.
-/

namespace Clipboard

/-- How what is outside of a program behaves. -/
structure Surroundings (τ : Type) where
  /-- Whether a search for a program finds it. -/
  finds : String → τ → Bool
  /-- Running a program in an environment. -/
  run : Environment → Invocation → Action τ SpawnFault Completion
  /-- A new connection to the display that the environment names, for a client that waits
  so long for an answer. -/
  connect : Environment → Duration → τ → Except Failure (X11.Connection τ) × τ

/-- What a program finds around it. -/
structure Desktop (τ : Type) where
  environment : Environment := .empty
  /-- What is outside of the program. -/
  outside : τ
  /-- The clipboard that is kept within the program. -/
  memory : Memory := {}

namespace Desktop

/-- The variables that a clipboard is set up by. -/
def variablesRead : List String :=
  [Tool.xclip, .wlClipboard].map Tool.displayVariable ++
    [Setting.backend, .attempts, .retryDelay, .readTimeout].map Setting.variableName

variable {τ : Type} (o : Surroundings τ)

/-- Running the helper programs in the environment of the program. -/
def launcher : Launcher (Desktop τ) where
  finds program d := o.finds program d.outside
  run i := fun d =>
    let (r, outside) := o.run d.environment i d.outside
    (r, { d with outside := outside })

/-- A backend that is outside of the program. -/
def overOutside (b : Backend τ) : Backend (Desktop τ) :=
  b.zoom (·.outside) fun t d => { d with outside := t }

/-- The backend of the clipboard within the program. -/
def inMemory : Backend (Desktop τ) :=
  (Memory.backend .unix).zoom (·.memory) fun m d => { d with memory := m }

/-- The backend of a helper tool. -/
def withHelper (h : Helper) : Backend (Desktop τ) := h.backend (launcher o)

/-- A backend of the display server. -/
def connect (patience : Duration) : Action (Desktop τ) Failure (Backend (Desktop τ)) := fun d =>
  let (r, outside) := o.connect d.environment patience d.outside
  (.ofExcept (r.map fun c => overOutside c.backend), { d with outside := outside })

/-- The backend that the settings call for. -/
def openBackend (s : Settings) : Action (Desktop τ) Failure (Backend (Desktop τ)) := fun d =>
  match s.backend.resolve d.environment with
  | .x11 => connect o s.readTimeout d
  | .xclip => (.done (withHelper o (.ofEnvironment .xclip d.environment)), d)
  | .wlClipboard => (.done (withHelper o (.ofEnvironment .wlClipboard d.environment)), d)
  | .memory => (.done inMemory, { d with memory := {} })
  | other =>
    (.failed (.unavailable (other.name ++ " backend is not supported on this platform")), d)

/-- The clipboard that the settings call for. -/
def openBoard (s : Settings) : Action (Desktop τ) AccessError (Board (Desktop τ)) := do
  let b ← (openBackend o s).mapCause .ofReading
  return ⟨b, s.policy⟩

end Desktop

end Clipboard
