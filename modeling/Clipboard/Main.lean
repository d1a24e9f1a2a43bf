import Clipboard.CommandLine.Program
import Clipboard.Workstation

/-!
# The executable

Runs the command in the environment of its caller.  It reaches neither helper
programs nor a display server, so that only the clipboard in memory serves it.
-/

namespace Clipboard

/-- The environment of the caller, as far as the command looks at it. -/
def callerEnvironment : IO Environment :=
  Desktop.variablesRead.foldlM (fun env name => do
    return env.set name ((← IO.getEnv name).map fun value => value.toUTF8.toList)) .empty

/-- All that can be read from the standard input. -/
def readInput : IO Octets := do
  return (← (← IO.getStdin).readBinToEnd).toList

end Clipboard

open Clipboard in
/-- Runs the command. -/
def main (words : List String) : IO UInt32 := do
  let env ← callerEnvironment
  let input ← if CommandLine.readsInput words env then readInput else pure []
  let (report, _) := CommandLine.run Workstation.surroundings words input
    { environment := env, outside := {} }
  IO.print report.output
  IO.eprint report.errors
  return report.status.toUInt32
