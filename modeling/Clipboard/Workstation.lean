import Clipboard.Desktop
import Clipboard.Helper.Toolbox
import Clipboard.X11.Server

/-!
# Workstations

What is outside of a program on a machine with a box of helper programs and a display
server of its own.
-/

namespace Clipboard

/-- A machine with its helper programs and its display server. -/
structure Workstation where
  toolbox : Toolbox := {}
  /-- The display that the server serves, if it can be reached at all. -/
  display : Option Octets := none
  server : X11.Server := .start

namespace Workstation

/-- The screen of the display that an environment names.  Its number may stand after the
display and a point; it is zero where it is left out. -/
def screen? (w : Workstation) (env : Environment) : Option Nat :=
  match w.display, env.get? "DISPLAY" with
  | some display, some value =>
    if display.isPrefixOf value then
      match Latin1.decode (value.drop display.length) with
      | [] => some 0
      | '.' :: number => (Decimal.read 65535 number).toOption
      | _ => none
    else none
  | _, _ => none

/-- The failure of a connection that does not come about. -/
def notConnected (reason : String) : Failure := .unavailable ("X11 connect failed: " ++ reason)

/-- A connection to the display server, over the workstation. -/
def connection (i : Nat) (longest : Nat) (patience : Duration) : X11.Connection Workstation :=
  (X11.Server.connection i longest patience).zoom (·.server) fun s w => { w with server := s }

/-- A new connection to the display server, which has a single screen.  Whether there is the
screen that is asked for turns out on the connection. -/
def connect (env : Environment) (patience : Duration) (w : Workstation) :
    Except Failure (X11.Connection Workstation) × Workstation :=
  match w.screen? env with
  | none => (.error (notConnected "no such display"), w)
  | some screen =>
    match w.server.connect with
    | none => (.error (notConnected "too many clients"), w)
    | some (i, s) =>
      if screen = 0 then
        (.ok (connection i s.longest patience), { w with server := s })
      else (.error (notConnected "no such screen"), { w with server := s.disconnect i })

/-- How a workstation behaves. -/
def surroundings : Surroundings Workstation where
  finds program w := w.toolbox.finds program
  run env i := (Toolbox.run env i).zoom (·.toolbox) fun box w => { w with toolbox := box }
  connect := connect

end Workstation

end Clipboard
