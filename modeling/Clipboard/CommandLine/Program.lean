import Clipboard.Desktop
import Clipboard.CommandLine.Arguments

/-!
# The command

A command that puts text on the clipboard, prints the text that is there, says
whether there is any, or clears it.  What it prints on the standard output is
clipboard content; all else goes to the standard error output.
-/

namespace Clipboard.CommandLine

/-- What a run of the command comes to. -/
structure Report where
  status : UInt8
  output : String := ""
  errors : String := ""
  /-- Whether it is the help, or how to ask for it, that is printed. -/
  showsUsage : Bool := false
  /-- Whether the run ends only when another program has taken the clipboard. -/
  keepsServing : Bool := false
  deriving DecidableEq, Repr

/-- How to use the command. -/
def usage : String :=
  "Read and write the system clipboard\n\n" ++
  "Usage: clipd [OPTIONS] <COMMAND>\n\n" ++
  "Commands:\n" ++
  "  set    Replace the clipboard text\n" ++
  "  get    Print the clipboard text\n" ++
  "  has    Exit 0 if the clipboard holds text, 1 otherwise\n" ++
  "  clear  Empty the clipboard\n" ++
  "  help   Print this message\n\n" ++
  "Options:\n" ++
  "      --backend <BACKEND>                  [default: auto]\n" ++
  "      --attempts <ATTEMPTS>                [default: 5]\n" ++
  "      --retry-delay-ms <RETRY_DELAY_MS>    [default: 10]\n" ++
  "      --read-timeout-ms <READ_TIMEOUT_MS>  [default: 1000]\n" ++
  "  -h, --help                               Print help\n"

/-- The run that does nothing. -/
def Report.ofStop : Stop → Report
  | .help => { status := 0, output := usage, showsUsage := true }
  | .misuse => { status := 2, errors := usage, showsUsage := true }

/-- A run that fails. -/
def Report.failure (place reason : String) : Report :=
  { status := 1, errors := place ++ ": " ++ reason ++ "\n" }

/-- A run that fails in a command. -/
def Report.refusal (verb : Verb) (e : AccessError) : Report :=
  .failure ("clipd " ++ verb.name) e.message

/-- The report of a call that answers or fails. -/
def report {σ α : Type} (verb : Verb) (answer : α → Report) (x : Action σ AccessError α) :
    σ → Report × σ := fun s =>
  match x s with
  | (.done a, s) => (answer a, s)
  | (.failed e, s) => (.refusal verb e, s)
  | (.unwound, s) => ({ status := 101 }, s)

variable {σ : Type}

/-- Putting a text on the clipboard: the one that is given, or else the one that
is read. -/
def setText (c : Board σ) (order : Order) (input : Octets) : Host σ → Report × Host σ := fun d =>
  let text : Option String := match order.text with
    | some text => some text
    | none => (Utf8.decode input).toOption.map String.ofList
  match text with
  | none => (.failure "clipd set" "stream did not contain valid UTF-8", d)
  | some text =>
    report .set
      (fun () =>
        { status := 0, keepsServing := c.backend.ownership = .window ∧ order.noWait = false })
      (c.setText text) d

/-- One command on a clipboard. -/
def perform (c : Board σ) (order : Order) (input : Octets) : Host σ → Report × Host σ :=
  match order.verb with
  | .set => setText c order input
  | .get => report .get (fun text => { status := 0, output := text }) c.getText
  | .has => report .has
      (fun has => { status := if has then 0 else 1, output := if has then "true\n" else "false\n" })
      c.hasText
  | .clear => report .clear (fun () => { status := 0 }) c.clear

/-- Whether a run reads its input. -/
def readsInput (words : List String) (env : Environment) : Bool :=
  match read env words with
  | .ok order => order.verb = .set && order.text.isNone
  | .error _ => false

/-- A run of the command with the words of its command line and what it can read. -/
def run {τ : Type} (o : Surroundings τ) (words : List String) (input : Octets) (d : Desktop τ) :
    Report × Desktop τ :=
  match read d.environment words with
  | .error stop => (.ofStop stop, d)
  | .ok order =>
    match Desktop.openBoard o order.settings d with
    | (.done c, d) =>
      let (r, host) := perform c order input ⟨d, {}⟩
      (r, host.world)
    | (.failed e, d) => (.failure "clipd" e.message, d)
    | (.unwound, d) => ({ status := 101 }, d)

end Clipboard.CommandLine
