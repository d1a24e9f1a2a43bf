import Clipboard.Environment
import Clipboard.Retry
import Clipboard.Text.Blank
import Clipboard.Text.Decimal
import Clipboard.Text.Quoted

/-!
# Settings

What a user can choose: the backend, how often and at what pace to try a busy
clipboard, and how long to wait for another owner to answer.  Each setting has
an environment variable of its own.  `Settings.ofEnvironment` reads all four and
reports the first that cannot be read.
-/

namespace Clipboard

/-- Which backend to use. -/
inductive Choice where
  /-- The one that the session calls for. -/
  | auto
  | x11
  | xclip
  | wlClipboard
  | windows
  | memory
  deriving DecidableEq, Repr

namespace Choice

/-- The name of a choice. -/
def name : Choice → String
  | auto => "auto"
  | x11 => "x11"
  | xclip => "xclip"
  | wlClipboard => "wl-clipboard"
  | windows => "windows"
  | memory => "memory"

/-- Every spelling of a choice in small letters. -/
def spellings : List (String × Choice) :=
  [("auto", auto), ("x11", x11), ("xclip", xclip), ("wl-clipboard", wlClipboard),
    ("wayland", wlClipboard), ("windows", windows), ("win32", windows), ("memory", memory)]

/-- A text with small letters for the capitals of ASCII. -/
def small (text : String) : String := String.ofList (text.toList.map Char.toLower)

/-- What is said of a text that spells no choice. -/
def unknown (text : String) : String :=
  "unknown backend " ++ Quoted.quote (small text) ++
    " (expected auto, x11, xclip, wl-clipboard, windows or memory)"

/-- The choice that a text spells, capitals or not. -/
def read (text : String) : Except String Choice :=
  match spellings.lookup (small text) with
  | some choice => .ok choice
  | none => .error (unknown text)

/-- The choice in a session: `auto` gives way to what the session calls for. -/
def resolve (env : Environment) : Choice → Choice
  | auto =>
    if env.isSet "WAYLAND_DISPLAY" then wlClipboard
    else if env.isSet "DISPLAY" then x11
    else xclip
  | choice => choice

end Choice

/-- What a user can set. -/
inductive Setting where
  | backend
  | attempts
  | retryDelay
  | readTimeout
  deriving DecidableEq, Repr

namespace Setting

/-- The environment variable of a setting. -/
def variableName : Setting → String
  | backend => "CLIPD_BACKEND"
  | attempts => "CLIPD_ATTEMPTS"
  | retryDelay => "CLIPD_RETRY_DELAY_MS"
  | readTimeout => "CLIPD_READ_TIMEOUT_MS"

/-- The greatest number of tries that can be set. -/
def mostAttempts : Nat := 4294967295

/-- The greatest number of milliseconds that can be set. -/
def mostMillis : Nat := 18446744073709551615

end Setting

/-- All settings. -/
structure Settings where
  backend : Choice := .auto
  policy : Policy := {}
  /-- How long to wait for another owner to answer. -/
  readTimeout : Duration := Duration.ofMillis 1000
  deriving DecidableEq, Repr

/-- A variable whose value cannot be read. -/
structure Misconfigured where
  setting : Setting
  value : String
  reason : String
  deriving DecidableEq, Repr

/-- The problem in words. -/
def Misconfigured.message (p : Misconfigured) : String :=
  p.setting.variableName ++ "=" ++ Quoted.quote p.value ++ ": " ++ p.reason

namespace Settings

/-- The settings made of those that are given, and of the usual ones. -/
def ofGiven (backend : Option Choice) (attempts retryDelay readTimeout : Option Nat) : Settings :=
  let usual : Settings := {}
  { backend := backend.getD usual.backend
    policy := { usual.policy with
      attempts := attempts.getD usual.policy.attempts
      initial := (retryDelay.map Duration.ofMillis).getD usual.policy.initial }
    readTimeout := (readTimeout.map Duration.ofMillis).getD usual.readTimeout }

/-- A number of at most `bound`, with white space around it. -/
def readNumber (bound : Nat) (text : String) : Except String Nat :=
  (Decimal.read bound (Blank.trimChars text.toList)).mapError Decimal.Fault.message

/-- The value of a setting in an environment, if its variable is set to a text. -/
def given {α : Type} (env : Environment) (setting : Setting) (read : String → Except String α) :
    Except Misconfigured (Option α) :=
  match env.text? setting.variableName with
  | none => .ok none
  | some value =>
    match read value with
    | .ok a => .ok (some a)
    | .error reason => .error ⟨setting, value, reason⟩

/-- The settings of an environment, or the first of its variables that cannot
be read. -/
def ofEnvironment (env : Environment) : Except Misconfigured Settings := do
  let backend ← given env .backend Choice.read
  let attempts ← given env .attempts (readNumber Setting.mostAttempts)
  let retryDelay ← given env .retryDelay (readNumber Setting.mostMillis)
  let readTimeout ← given env .readTimeout (readNumber Setting.mostMillis)
  return ofGiven backend attempts retryDelay readTimeout

end Settings

end Clipboard
