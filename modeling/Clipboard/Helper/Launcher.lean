import Clipboard.Outcome
import Clipboard.Environment

/-!
# Running other programs

What it takes to have another program do something: a `Launcher` finds programs
and runs them to their end, feeding them what they read and collecting what they
write.  It is a record, so that what is said of a caller holds however the
programs behave.
-/

namespace Clipboard

/-- One run of a program, as asked for. -/
structure Invocation where
  /-- The program, by name or by path. -/
  program : String
  arguments : List String
  /-- What the program reads. -/
  input : Octets
  /-- Variables that are set for the program, over those of its caller. -/
  overrides : List (String × Octets)
  deriving DecidableEq, Repr

/-- Whether NUL stands in one of the words that are passed to the program.  They
are terminated texts, so that it cannot be passed. -/
def Invocation.holdsNul (i : Invocation) : Bool :=
  i.program.toList.contains '\x00' || i.arguments.any (·.toList.contains '\x00') ||
    i.overrides.any (·.2.contains 0)

/-- How a program ends. -/
inductive Ending where
  /-- With an exit status. -/
  | exited (status : UInt8)
  /-- By a signal. -/
  | killed (signal : Nat)
  deriving DecidableEq, Repr

namespace Ending

/-- Whether the program says that it did its work. -/
def isSuccess : Ending → Bool
  | exited 0 => true
  | _ => false

/-- The names of the signals, from the first on. -/
def signalNames : List String :=
  ["SIGHUP", "SIGINT", "SIGQUIT", "SIGILL", "SIGTRAP", "SIGABRT", "SIGBUS", "SIGFPE", "SIGKILL",
    "SIGUSR1", "SIGSEGV", "SIGUSR2", "SIGPIPE", "SIGALRM", "SIGTERM", "SIGSTKFLT", "SIGCHLD",
    "SIGCONT", "SIGSTOP", "SIGTSTP", "SIGTTIN", "SIGTTOU", "SIGURG", "SIGXCPU", "SIGXFSZ",
    "SIGVTALRM", "SIGPROF", "SIGWINCH", "SIGIO", "SIGPWR", "SIGSYS"]

/-- The name of a signal, if it has one. -/
def signalName? (signal : Nat) : Option String :=
  match signal with
  | 0 => none
  | n + 1 => signalNames[n]?

/-- The ending in words. -/
def message : Ending → String
  | exited status => s!"exit status: {status.toNat}"
  | killed signal =>
    match signalName? signal with
    | some name => s!"signal: {signal} ({name})"
    | none => s!"signal: {signal}"

end Ending

/-- A run of a program that has ended. -/
structure Completion where
  ending : Ending
  /-- What the program wrote. -/
  output : Octets := []
  /-- What it wrote about errors. -/
  errors : Octets := []
  /-- Whether the program went away while it was still being fed. -/
  broken : Bool := false
  deriving DecidableEq, Repr

/-- Why a program cannot be run. -/
inductive SpawnFault where
  | missing
  | forbidden
  /-- It is no program. -/
  | malformed
  /-- NUL stands in one of the words. -/
  | holdsNul
  /-- One of the words is too long. -/
  | overlong
  deriving DecidableEq, Repr

/-- The fault in words. -/
def SpawnFault.message : SpawnFault → String
  | missing => "No such file or directory (os error 2)"
  | forbidden => "Permission denied (os error 13)"
  | malformed => "Exec format error (os error 8)"
  | holdsNul => "nul byte found in provided data"
  | overlong => "Argument list too long (os error 7)"

/-- A way to find programs and run them. -/
structure Launcher (σ : Type) where
  /-- Whether there is such a program. -/
  finds : String → σ → Bool
  run : Invocation → Action σ SpawnFault Completion

/-- Running a program, unless its words cannot be passed to any. -/
def Launcher.start {σ : Type} (l : Launcher σ) (i : Invocation) :
    Action σ SpawnFault Completion :=
  if i.holdsNul then Action.fail .holdsNul else l.run i

end Clipboard
