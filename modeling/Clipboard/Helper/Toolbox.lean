import Clipboard.Helper.Launcher

/-!
# A box of helper programs

The programs that a command can be found among, and how each behaves: most keep
one item in a common store, as the tools of a clipboard do, and any run can be
told beforehand what to answer instead.  Every run is logged.

* `Toolbox.perform` is one run of a program that keeps to the store;
* `Toolbox.launcher` is the box as a way to run programs.
-/

namespace Clipboard

/-- What stands in the box under a name. -/
inductive Presence where
  | working
  | missing
  /-- A file that may not be run. -/
  | forbidden
  | directory
  /-- A file that may be run and is no program. -/
  | malformed
  deriving DecidableEq, Repr

/-- What a run is told to answer. -/
structure Response where
  output : Octets := []
  errors : Octets := []
  ending : Ending := .exited 0
  /-- Whether the run reads what it is fed. -/
  reads : Bool := true
  deriving DecidableEq, Repr

/-- A run as it is logged. -/
structure LogEntry where
  program : String
  arguments : List String
  environment : Environment
  /-- What the run has read, if it reads. -/
  input : Option Octets

/-- The box. -/
structure Toolbox where
  /-- The path of the box. -/
  directory : String := ""
  programs : List (String × Presence) := []
  /-- What the next runs are told to answer; `none` and the runs after the last
  keep to the store. -/
  responses : List (Option Response) := []
  /-- The item in the store, with its format. -/
  store : Option (String × Octets) := none
  /-- The runs so far, latest last. -/
  log : List LogEntry := []

namespace Toolbox

/-- The octets that fit between two programs while the second does not read. -/
def pipeCapacity : Nat := 65536

/-- The octets of the longest word that can be passed to a program. -/
def longestWord : Nat := 131071

/-- Whether one of the words of a run is longer.  A variable is passed with its
name and an equals sign. -/
def isOverlong (i : Invocation) : Bool :=
  i.arguments.any (longestWord < ·.utf8ByteSize) ||
    i.overrides.any fun v => longestWord < v.1.utf8ByteSize + 1 + v.2.length

/-- What stands under a name, or under a path into the box. -/
def presence (box : Toolbox) (program : String) : Presence :=
  let name := program.toList
  let within := box.directory.toList ++ ['/']
  if program = box.directory then .directory
  else if ! name.contains '/' then (box.programs.lookup program).getD .missing
  else if within.isPrefixOf name then
    (box.programs.lookup (String.ofList (name.drop within.length))).getD .missing
  else .missing

/-- Whether a search for a program finds it. -/
def finds (box : Toolbox) (program : String) : Bool :=
  match box.presence program with
  | .working | .malformed => true
  | _ => false

/-- The argument after an option. -/
def valueAfter (option : String) : List String → Option String
  | [] => none
  | a :: rest => if a = option then rest.head? else valueAfter option rest

/-- A run that finds nothing to write. -/
def unavailable (target : String) : Completion where
  ending := .exited 1
  errors := Utf8.encode s!"Error: target {target} not available\n".toList

/-- A run that writes. -/
def writes (output : Octets) : Completion := { ending := .exited 0, output := output }

/-- One run of a program that keeps to the store. -/
def perform (store : Option (String × Octets)) (arguments : List String) (input : Octets) :
    Completion × Option (String × Octets) :=
  let selects := arguments.head? = some "-selection"
  let target := (valueAfter (if selects then "-t" else "--type") arguments).getD ""
  let lists := if selects then target = "TARGETS" else arguments.contains "--list-types"
  if arguments.contains "--clear" then (writes [], none)
  else if lists then
    match store with
    | some (name, _) =>
      (writes (Utf8.encode ((if selects then "TARGETS\n" else "") ++ name ++ "\n").toList), store)
    | none => (unavailable target, store)
  else if arguments.contains "-o" || arguments.contains "--no-newline" then
    match store with
    | some (name, bytes) =>
      if name = target then (writes bytes, store) else (unavailable target, store)
    | none => (unavailable target, store)
  else (writes [], some (target, input))

/-- The environment of a run. -/
def environmentOf (env : Environment) (overrides : List (String × Octets)) : Environment :=
  overrides.foldl (fun e v => e.set v.1 (some v.2)) env

/-- Noting a run down. -/
def noted (box : Toolbox) (env : Environment) (i : Invocation) (reads : Bool) : Toolbox :=
  { box with
    responses := box.responses.tail
    log := box.log ++
      [⟨i.program, i.arguments, environmentOf env i.overrides,
        if reads then some i.input else none⟩] }

/-- A run of a program that is there. -/
def complete (env : Environment) (i : Invocation) (box : Toolbox) : Completion × Toolbox :=
  match box.responses.head?.join with
  | some r =>
    ({ ending := r.ending, output := r.output, errors := r.errors
       broken := ! r.reads && pipeCapacity < i.input.length },
      box.noted env i r.reads)
  | none =>
    let (c, store) := perform box.store i.arguments i.input
    (c, { box.noted env i true with store := store })

/-- Running a program in an environment. -/
def run (env : Environment) (i : Invocation) : Action Toolbox SpawnFault Completion := fun box =>
  match box.presence i.program with
  | .missing => (.failed .missing, box)
  | .forbidden | .directory => (.failed .forbidden, box)
  | .malformed => (.failed (if isOverlong i then .overlong else .malformed), box)
  | .working =>
    if isOverlong i then (.failed .overlong, box)
    else
      let (c, box) := box.complete env i
      (.done c, box)

/-- The runs so far, which are then forgotten. -/
def drain (box : Toolbox) : List LogEntry × Toolbox := (box.log, { box with log := [] })

end Toolbox

end Clipboard
