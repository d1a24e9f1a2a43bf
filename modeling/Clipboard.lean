import Clipboard.Outcome
import Clipboard.Text.Utf8
import Clipboard.Text.Utf16
import Clipboard.Text.Latin1
import Clipboard.Text.LineBreaks
import Clipboard.Text.Blank
import Clipboard.Text.Decimal
import Clipboard.Text.Quoted
import Clipboard.Retry
import Clipboard.Session
import Clipboard.InMemory
import Clipboard.Rehearsal
import Clipboard.Settings
import Clipboard.Helper.Tool
import Clipboard.Helper.Toolbox
import Clipboard.X11.Backend
import Clipboard.X11.Server
import Clipboard.Workstation
import Clipboard.Boundary
import Clipboard.Main
import Clipboard.Proofs.Text.LineBreaks
import Clipboard.Proofs.Text.Utf8
import Clipboard.Proofs.Text.Latin1
import Clipboard.Proofs.Text.RoundTrip
import Clipboard.Proofs.Session.Access
import Clipboard.Proofs.Session.Faithful
import Clipboard.Proofs.Session.SetGet
import Clipboard.Proofs.Session.Within
import Clipboard.Proofs.Memory.Serving
import Clipboard.Proofs.Memory.Machine
import Clipboard.Proofs.Session.Calls
import Clipboard.Proofs.Session.Visits
import Clipboard.Proofs.X11.Connections
import Clipboard.Proofs.X11.Settling
import Clipboard.Proofs.X11.Waiting
import Clipboard.Proofs.X11.Leftovers
import Clipboard.Proofs.X11.Claiming
import Clipboard.Proofs.X11.Displays
import Clipboard.Proofs.X11.Contests
import Clipboard.Proofs.X11.Chronicle
import Clipboard.Proofs.X11.Hosting
import Clipboard.Proofs.X11.Ownership
import Clipboard.Proofs.X11.Relays
import Clipboard.Proofs.X11.Exchanges
import Clipboard.Proofs.Session.Looking
import Clipboard.Proofs.X11.Standing
import Clipboard.Proofs.X11.Naming
import Clipboard.Proofs.X11.Clipboards
import Clipboard.Proofs.X11.Sharing
import Clipboard.Proofs.X11.Ledgers
import Clipboard.Proofs.Session.Halves
import Clipboard.Proofs.InStep
import Clipboard.Proofs.Session.Agreeing
import Clipboard.Proofs.Session.Remembered
import Clipboard.Proofs.Session.Offering
import Clipboard.Proofs.X11.Delivering
import Clipboard.Proofs.Session.Apart
import Clipboard.Proofs.Text.Utf8Reading
import Clipboard.Proofs.Shared.Errands
import Clipboard.Proofs.Shared.Coherent
import Clipboard.Proofs.Shared.Reaching
import Clipboard.Proofs.Shared.Pruned
import Clipboard.Proofs.Text.Utf8Lossy
import Clipboard.Proofs.Helper.Listings
import Clipboard.Proofs.Helper.Runs
import Clipboard.Proofs.Helper.Keeping
import Clipboard.Proofs.Text.Utf16Reading
import Clipboard.Proofs.Text.Spelling
import Clipboard.Proofs.Text.Reading
import Clipboard.Proofs.Text.Writing
import Clipboard.Proofs.Settings.Values
import Clipboard.Proofs.CommandLine.Given
import Clipboard.Proofs.CommandLine.Options
import Clipboard.Proofs.CommandLine.Variables
import Clipboard.Proofs.CommandLine.Configured
import Clipboard.Proofs.Retry.Pauses
import Clipboard.Proofs.Text.SinglePass
import Clipboard.Proofs.CommandLine.Limits
import Clipboard.Proofs.Retry.Schedule
import Clipboard.Proofs.Session.Opening
import Clipboard.Proofs.Text.Utf8Pieces
import Clipboard.Proofs.Session.Failing
import Clipboard.Proofs.Session.Verdicts
import Clipboard.Proofs.Session.Deciding
import Clipboard.Proofs.Session.Picking
import Clipboard.Proofs.Helper.Lines
import Clipboard.Proofs.X11.Targets
import Clipboard.Proofs.Session.OneListing
import Clipboard.Proofs.Helper.Unreachable
import Clipboard.Proofs.Helper.Pasting
import Clipboard.Proofs.X11.Texts
import Clipboard.Proofs.Settings.Spellings
import Clipboard.Proofs.X11.Turns
import Clipboard.Proofs.X11.Inquiries
import Clipboard.Proofs.X11.Replacing
import Clipboard.Proofs.X11.Transfers
