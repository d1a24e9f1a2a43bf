import Clipboard.Format

/-!
# Failures

A backend says why it cannot do what it is asked to do, a `Failure`.  Programs
see an `AccessError`, which says what that means for the clipboard: it could
not be reached, it holds nothing suitable, or it did not take what was written.
-/

namespace Clipboard

/-- Why a backend cannot do what it is asked to do. -/
inductive Failure where
  /-- Another owner holds the clipboard just now. -/
  | busy (reason : String)
  /-- The clipboard cannot be reached at all. -/
  | unavailable (reason : String)
  /-- The platform refuses. -/
  | rejected (reason : String)
  /-- The other side misbehaves or does not answer. -/
  | protocol (reason : String)
  /-- The operating system reports an error. -/
  | system (reason : String)
  deriving DecidableEq, Repr

namespace Failure

/-- The failure in words. -/
def message : Failure → String
  | busy reason => "clipboard busy: " ++ reason
  | unavailable reason => "clipboard unavailable: " ++ reason
  | rejected reason => "rejected: " ++ reason
  | protocol reason => "protocol: " ++ reason
  | system reason => "I/O error: " ++ reason

end Failure

/-- What a program is told when the clipboard does not serve it. -/
inductive AccessError where
  /-- The clipboard could not be reached in so many tries. -/
  | acquireFailed (tries : Nat) (reason : String)
  /-- It holds no text. -/
  | noText
  /-- It holds nothing in the format of this name. -/
  | formatUnavailable (name : String)
  /-- It did not take what was written. -/
  | writeFailed (reason : String)
  /-- A text could not be written or read in the encoding of the platform. -/
  | badEncoding (reason : String)
  deriving DecidableEq, Repr

namespace AccessError

/-- The error in words. -/
def message : AccessError → String
  | acquireFailed tries reason => s!"clipboard unavailable after {tries} attempt(s): " ++ reason
  | noText => "clipboard holds no text"
  | formatUnavailable name => "clipboard holds no data in format " ++ name
  | writeFailed reason => "clipboard write rejected: " ++ reason
  | badEncoding reason => "clipboard encoding error: " ++ reason

/-- Whether trying again later may help. -/
def isTransient : AccessError → Bool
  | acquireFailed .. => true
  | _ => false

/-- A failure on the way to the content: the clipboard was not reached. -/
def ofReading (f : Failure) : AccessError := acquireFailed 1 f.message

/-- A failure to replace the content. -/
def ofWriting (f : Failure) : AccessError := writeFailed f.message

/-- A text that cannot be written or read. -/
def ofText (f : TextFault) : AccessError := badEncoding f.message

/-- The clipboard holds nothing of this kind. -/
def absent : Kind → AccessError
  | .text => noText
  | .custom name => formatUnavailable name

/-- The session has been closed before. -/
def closed : AccessError := acquireFailed 0 "clipboard handle already closed"

end AccessError

end Clipboard
