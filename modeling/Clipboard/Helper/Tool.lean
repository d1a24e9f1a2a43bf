import Clipboard.Listing
import Clipboard.Helper.Launcher
import Clipboard.Text.Blank

/-!
# Clipboards of helper tools

A clipboard that is reached through the command line of a helper tool: one
program copies what it is fed, and one pastes, or lists the names of the
formats on offer.  Content is kept by the tool, in one format at a time.

A paste that fails means that there is nothing to paste, unless the tool says
that it cannot reach the display.  Both tools may write what they like beside
that: `Helper.listed` and `Helper.readOne` look at the output of a run that
succeeded and at the errors of one that failed, and at nothing else.
-/

namespace Clipboard

/-- A family of helper programs with one command line. -/
inductive Tool where
  | xclip
  | wlClipboard
  deriving DecidableEq, Repr

namespace Tool

/-- The name of the tool as a backend. -/
def name : Tool → String
  | xclip => "xclip"
  | wlClipboard => "wl-clipboard"

/-- The program that copies. -/
def copyProgram : Tool → String
  | xclip => "xclip"
  | wlClipboard => "wl-copy"

/-- The program that pastes. -/
def pasteProgram : Tool → String
  | xclip => "xclip"
  | wlClipboard => "wl-paste"

/-- The variable that names the display of the tool. -/
def displayVariable : Tool → String
  | xclip => "DISPLAY"
  | wlClipboard => "WAYLAND_DISPLAY"

/-- How the tool is asked for the formats on offer. -/
def listArguments : Tool → List String
  | xclip => ["-selection", "clipboard", "-t", "TARGETS", "-o"]
  | wlClipboard => ["--list-types"]

/-- How the tool is asked for the content in a format. -/
def readArguments : Tool → String → List String
  | xclip, target => ["-selection", "clipboard", "-t", target, "-o"]
  | wlClipboard, target => ["--no-newline", "--type", target]

/-- How the tool is told the format of new content. -/
def writeArguments : Tool → String → List String
  | xclip, target => ["-selection", "clipboard", "-t", target, "-i"]
  | wlClipboard, target => ["--type", target]

/-- The formats of text, most preferred first.  Only the first is written. -/
def textFormats : Tool → List Format
  | xclip => [
      ⟨.named "UTF8_STRING", .utf8, true⟩,
      .readOnly (.named "text/plain;charset=utf-8") .utf8,
      .readOnly (.named "STRING") .latin1,
      .readOnly (.named "TEXT") .utf8]
  | wlClipboard => [
      ⟨.named "text/plain;charset=utf-8", .utf8, true⟩,
      .readOnly (.named "UTF8_STRING") .utf8,
      .readOnly (.named "text/plain") .utf8,
      .readOnly (.named "STRING") .latin1,
      .readOnly (.named "TEXT") .utf8]

/-- The formats of a kind. -/
def formatsFor (tool : Tool) : Kind → List Format
  | .text => tool.textFormats
  | .custom name => [⟨.named name, .opaqueData, true⟩]

end Tool

/-- Whether some characters occur side by side in a text. -/
def occurs (phrase : List Char) : List Char → Bool
  | [] => phrase.isEmpty
  | c :: rest => phrase.isPrefixOf (c :: rest) || occurs phrase rest

/-- The lines of a text without the white space around them, after the lines
`done` and the beginning `line`, latest first. -/
def trimmedLinesFrom (done : List (List Char)) (line : List Char) : List Char → List (List Char)
  | [] => (Blank.trimChars line.reverse :: done).reverse
  | '\n' :: rest => trimmedLinesFrom (Blank.trimChars line.reverse :: done) [] rest
  | c :: rest => trimmedLinesFrom done (c :: line) rest

/-- The lines of a text that are not blank, without the white space around them. -/
def trimmedLines (text : List Char) : List (List Char) :=
  (trimmedLinesFrom [] [] text).filter (! ·.isEmpty)

/-- What a tool says, in small letters, when it cannot reach its display. -/
def unreachablePhrases : List String :=
  ["can't open display", "cannot open display", "failed to connect to a wayland",
    "compositor doesn't seem to implement", "connection refused"]

/-- Whether a tool says that it cannot reach its display.  Small letters stand
for the capitals of ASCII; no other capital has one of the phrases' letters. -/
def saysUnreachable (errors : Octets) : Bool :=
  let said := (Utf8.decodeLossy errors).map Char.toLower
  unreachablePhrases.any fun phrase => occurs phrase.toList said

/-- A helper tool to be used as a clipboard. -/
structure Helper where
  tool : Tool
  copy : String
  paste : String
  /-- The display that the tool is pointed at. -/
  display : Option Octets
  deriving DecidableEq, Repr

namespace Helper

/-- The tool with programs of one's own, on the display of the environment. -/
def ofPrograms (tool : Tool) (copy paste : String) (env : Environment) : Helper :=
  ⟨tool, copy, paste, env.nonempty? tool.displayVariable⟩

/-- The tool with the programs that it is known by. -/
def ofEnvironment (tool : Tool) (env : Environment) : Helper :=
  ofPrograms tool tool.copyProgram tool.pasteProgram env

variable {σ : Type}

/-- A run of one of the programs. -/
def invocation (h : Helper) (program : String) (arguments : List String) (input : Octets) :
    Invocation where
  program := program
  arguments := arguments
  input := input
  overrides := (h.display.map fun value => (h.tool.displayVariable, value)).toList

/-- The failure of a program that cannot be run. -/
def notSpawned (program : String) (fault : SpawnFault) : Failure :=
  .unavailable ("failed to spawn " ++ program ++ ": " ++ fault.message)

/-- Running one of the programs. -/
def run (h : Helper) (l : Launcher σ) (program : String) (arguments : List String)
    (input : Octets) : Action σ Failure Completion :=
  (l.start (h.invocation program arguments input)).mapCause (notSpawned program)

/-- What a paste comes to: its output if it succeeds, nothing if there is
nothing to paste. -/
def pasted (h : Helper) (c : Completion) : Except Failure (Option Octets) :=
  if c.ending.isSuccess then .ok (some c.output)
  else if saysUnreachable c.errors then
    .error (.unavailable (h.paste ++ ": " ++
      String.ofList (Blank.trimChars (Utf8.decodeLossy c.errors))))
  else .ok none

/-- The names in the output of a listing. -/
def namesIn (output : Octets) : List String :=
  (trimmedLines (Utf8.decodeLossy output)).map String.ofList

/-- The names of the formats on offer.  Without an owner there are none. -/
def listed (h : Helper) (l : Launcher σ) : Action σ Failure (List String) := do
  let c ← h.run l h.paste h.tool.listArguments []
  match ← Action.ofExcept (h.pasted c) with
  | some output => return namesIn output
  | none => return []

/-- The name of a format, which the tools go by. -/
def target : Format.Id → Except Failure String
  | .named name => .ok name
  | .number id => .error (.rejected s!"helper tools address formats by name, got #{id.toNat}")

/-- The content in one format. -/
def readOne (h : Helper) (l : Launcher σ) (f : Format) :
    Action σ Failure (Option Payload) := do
  let name ← Action.ofExcept (target f.id)
  let c ← h.run l h.paste (h.tool.readArguments name) []
  return (← Action.ofExcept (h.pasted c)).map fun bytes => ⟨bytes, f.encoding⟩

/-- Feeding the program that copies. -/
def feed (h : Helper) (l : Launcher σ) (arguments : List String) (input : Octets) :
    Action σ Failure Unit := do
  let c ← h.run l h.copy arguments input
  if c.broken then
    Action.fail (.protocol ("failed to write to " ++ h.copy ++ ": Broken pipe (os error 32)"))
  else if c.ending.isSuccess then return ()
  else Action.fail (.rejected (h.copy ++ " exited with status " ++ c.ending.message))

/-- Putting the first of some items in the place of the content.  One run of
the tool serves one format. -/
def write (h : Helper) (l : Launcher σ) : List (Format × Payload) → Action σ Failure Unit
  | [] => Action.fail (.rejected "nothing to write")
  | (f, payload) :: _ => do
    let name ← Action.ofExcept (target f.id)
    h.feed l (h.tool.writeArguments name) payload.bytes

/-- Putting nothing in its place. -/
def clear (h : Helper) (l : Launcher σ) : Action σ Failure Unit :=
  match h.tool with
  | .wlClipboard => h.feed l ["--clear"] []
  | .xclip => Action.fail (.rejected "xclip cannot release the selection without replacing it")

/-- Whether a program is there. -/
def locate (l : Launcher σ) (program : String) : Action σ Failure Unit := fun s =>
  if l.finds program s then (.done (), s)
  else (.failed (.unavailable (program ++ " not found: cannot find binary path")), s)

/-- Gaining access: a display is named and the programs are there. -/
def acquire (h : Helper) (l : Launcher σ) : Action σ Failure Unit := do
  if h.display.isNone then
    Action.fail (.unavailable ("$" ++ h.tool.displayVariable ++ " is not set"))
  else
    locate l h.copy
    if h.paste = h.copy then return () else locate l h.paste

/-- The backend of a helper tool. -/
def backend (h : Helper) (l : Launcher σ) : Backend σ where
  name := h.tool.name
  ownership := .service
  convention := .unix
  formatsFor kind := pure (h.tool.formatsFor kind)
  acquire := h.acquire l
  release := pure ()
  offers := offersListed target (h.listed l)
  pick := pickByListing target (h.listed l)
  read f := h.readOne l f
  write items := h.write l items
  clear := h.clear l

end Helper

end Clipboard
