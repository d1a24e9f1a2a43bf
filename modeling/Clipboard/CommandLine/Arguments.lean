import Clipboard.Settings

/-!
# Arguments

What the words of a command line mean.  Options for the settings may stand
before the command and after it, once in either place, and the one after the
command wins.  For a setting that is not given in a place the environment is
looked at, so its variable has to be readable unless the option stands in both.

A value that follows its option as a word of its own is looked at when the next
option or argument comes, or at the end; one that is part of the word is looked
at immediately.  A request for help ends the reading where it stands.

* `Given.or_holds`: a setting has a value in one of two places.
-/

namespace Clipboard.CommandLine

/-- Why there is nothing to be done. -/
inductive Stop where
  /-- Help is asked for. -/
  | help
  /-- The arguments make no sense. -/
  | misuse
  deriving DecidableEq, Repr

/-- What to do. -/
inductive Verb where
  | set
  | get
  | has
  | clear
  deriving DecidableEq, Repr

namespace Verb

/-- The word that stands for a verb. -/
def name : Verb → String
  | set => "set"
  | get => "get"
  | has => "has"
  | clear => "clear"

/-- All verbs. -/
def all : List Verb := [set, get, has, clear]

/-- The verb with a name. -/
def ofName? (name : String) : Option Verb := all.find? fun v => v.name = name

end Verb

/-- Values of settings. -/
structure Given where
  backend : Option Choice := none
  attempts : Option Nat := none
  retryDelay : Option Nat := none
  readTimeout : Option Nat := none
  deriving DecidableEq, Repr

namespace Given

/-- Whether a setting has a value. -/
def holds (g : Given) : Setting → Bool
  | .backend => g.backend.isSome
  | .attempts => g.attempts.isSome
  | .retryDelay => g.retryDelay.isSome
  | .readTimeout => g.readTimeout.isSome

/-- A number of tries.  There may be a minus sign before zero. -/
def readAttempts (text : String) : Option Nat :=
  match text.toList with
  | '-' :: c :: digits => if (c :: digits).all (· = '0') then some 0 else none
  | digits => (Decimal.read Setting.mostAttempts digits).toOption

/-- A number of milliseconds. -/
def readMillis (text : String) : Option Nat :=
  (Decimal.read Setting.mostMillis text.toList).toOption

/-- The values with that of one setting, if it can be read. -/
def add (g : Given) (setting : Setting) (text : String) : Option Given :=
  match setting with
  | .backend => (Choice.read text).toOption.map fun c => { g with backend := some c }
  | .attempts => (readAttempts text).map fun n => { g with attempts := some n }
  | .retryDelay => (readMillis text).map fun n => { g with retryDelay := some n }
  | .readTimeout => (readMillis text).map fun n => { g with readTimeout := some n }

/-- The values, and where there is none those of `h`. -/
def or (g h : Given) : Given where
  backend := g.backend.or h.backend
  attempts := g.attempts.or h.attempts
  retryDelay := g.retryDelay.or h.retryDelay
  readTimeout := g.readTimeout.or h.readTimeout

/-- The settings with these values. -/
def settings (g : Given) : Settings :=
  Settings.ofGiven g.backend g.attempts g.retryDelay g.readTimeout

/-- A setting has a value in one of two places. -/
theorem or_holds (g h : Given) (setting : Setting) :
    (g.or h).holds setting = (g.holds setting || h.holds setting) := by
  cases setting <;> simp [or, holds, Option.isSome_or]

/-- Adding the value of a variable, if the setting has none yet and the variable
is set. -/
def addVariable (env : Environment) (g : Given) (setting : Setting) : Option Given :=
  if g.holds setting then some g
  else
    match env.get? setting.variableName with
    | none => some g
    | some _ => (env.text? setting.variableName).bind (g.add setting)

/-- The values with those of the environment where there are none. -/
def withVariables (env : Environment) (g : Given) : Option Given := do
  let g ← g.addVariable env .backend
  let g ← g.addVariable env .attempts
  let g ← g.addVariable env .retryDelay
  g.addVariable env .readTimeout

end Given

/-- The setting that an option is for. -/
def settingOf? (option : String) : Option Setting :=
  [("backend", Setting.backend), ("attempts", Setting.attempts),
    ("retry-delay-ms", Setting.retryDelay), ("read-timeout-ms", Setting.readTimeout)].lookup option

/-- A word of the command line. -/
inductive Word where
  /-- Two dashes: nothing after them is an option. -/
  | divider
  /-- An option by its name, with the value that is part of the word. -/
  | option (name : String) (value : Option String)
  /-- An option by its letter. -/
  | letter (c : Char)
  | argument (text : String)
  deriving DecidableEq, Repr

/-- The parts of a text before and after the first equals sign. -/
def splitValue (text : List Char) : String × Option String :=
  let name := text.takeWhile (· ≠ '=')
  (String.ofList name, (text.drop name.length).tail?.map String.ofList)

/-- What a word is. -/
def Word.ofString (text : String) : Word :=
  match text.toList with
  | ['-', '-'] => divider
  | '-' :: '-' :: rest => option (splitValue rest).1 (splitValue rest).2
  | '-' :: c :: _ => letter c
  | _ => argument text

/-- What has been read of a place, before the command or after it. -/
structure Place where
  given : Given := {}
  /-- An option whose value has not been looked at, and the value if it has come. -/
  unread : Option (Setting × Option String) := none
  /-- The text to set. -/
  text : Option String := none
  noWait : Bool := false
  deriving DecidableEq, Repr

namespace Place

/-- A value for a setting that has none yet. -/
def add (p : Place) (setting : Setting) (value : String) : Except Stop Place :=
  if p.given.holds setting then .error .misuse
  else
    match p.given.add setting value with
    | some given => .ok { p with given := given }
    | none => .error .misuse

/-- Looking at the value that has not been looked at. -/
def settle (p : Place) : Except Stop Place :=
  match p.unread with
  | none => .ok p
  | some (_, none) => .error .misuse
  | some (setting, some value) => { p with unread := none }.add setting value

/-- Whether an option still needs its value. -/
def wantsValue? (p : Place) : Option Setting :=
  match p.unread with
  | some (setting, none) => some setting
  | _ => none

/-- An option that is the same everywhere. -/
def option (p : Place) (name : String) (value : Option String) : Except Stop Place :=
  if name = "help" ∧ value = none then do
    let _ ← p.settle
    .error .help
  else
    match settingOf? name with
    | none => .error .misuse
    | some setting => do
      let p ← p.settle
      match value with
      | some value => p.add setting value
      | none => return { p with unread := some (setting, none) }

/-- An option by its letter.  The only one asks for help. -/
def letter (p : Place) (c : Char) : Except Stop Place := do
  if c = 'h' then
    let _ ← p.settle
    .error .help
  else .error .misuse

/-- An option after the command. -/
def optionOf (verb : Verb) (p : Place) (name : String) (value : Option String) :
    Except Stop Place :=
  if verb = .set ∧ name = "no-wait" ∧ value = none then do
    let p ← p.settle
    if p.noWait then .error .misuse else return { p with noWait := true }
  else p.option name value

/-- An argument after the command.  Only one command has one. -/
def argument (verb : Verb) (p : Place) (text : String) : Except Stop Place := do
  let p ← p.settle
  if verb = .set ∧ p.text = none then return { p with text := some text }
  else .error .misuse

end Place

/-- Reading what stands before the command, and which command follows with what. -/
def readBefore (p : Place) : List String → Except Stop (Place × Verb × List String)
  | [] => .error .misuse
  | word :: rest =>
    match Word.ofString word, p.wantsValue? with
    | .divider, _ => .error .misuse
    | .option name value, _ => do readBefore (← p.option name value) rest
    | .letter c, _ => do readBefore (← p.letter c) rest
    | .argument text, some setting =>
      readBefore { p with unread := some (setting, some text) } rest
    | .argument text, none =>
      if text = "help" then
        match rest with
        | [] => .error .help
        | [name] => .error (if name = "help" ∨ (Verb.ofName? name).isSome then .help else .misuse)
        | _ => .error .misuse
      else
        match Verb.ofName? text with
        | some verb => .ok (p, verb, rest)
        | none => .error .misuse

/-- Reading what stands after the command. -/
def readAfter (verb : Verb) (p : Place) : List String → Except Stop Place
  | [] => p.settle
  | word :: rest =>
    match Word.ofString word, p.wantsValue? with
    | .divider, _ => do (← rest.foldlM (Place.argument verb) p).settle
    | .option name value, _ => do readAfter verb (← p.optionOf verb name value) rest
    | .letter c, _ => do readAfter verb (← p.letter c) rest
    | .argument text, some setting =>
      readAfter verb { p with unread := some (setting, some text) } rest
    | .argument text, none => do readAfter verb (← p.argument verb text) rest

/-- What a command line asks for. -/
structure Order where
  settings : Settings
  verb : Verb
  /-- The text to set, if it is given. -/
  text : Option String
  noWait : Bool
  deriving DecidableEq, Repr

/-- What the words of a command line ask for in an environment. -/
def read (env : Environment) (words : List String) : Except Stop Order := do
  let (before, verb, rest) ← readBefore {} words
  let after ← readAfter verb {} rest
  let before ← before.settle
  match after.given.withVariables env, before.given.withVariables env with
  | some inner, some _ =>
    return ⟨((after.given.or before.given).or inner).settings, verb, after.text, after.noWait⟩
  | _, _ => .error .misuse

end Clipboard.CommandLine
