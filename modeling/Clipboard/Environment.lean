import Clipboard.Text.Utf8

/-!
# The environment

The variables that a program is started with.  A value is any octets without
meaning; a reader that needs text passes over a value that is not UTF-8, and a
reader that needs something there passes over an empty one.

* `get?_set_self` and `get?_set_of_ne`: setting a variable changes it alone.
-/

namespace Clipboard

/-- The variables that are set, by name. -/
structure Environment where
  get? : String → Option Octets

namespace Environment

/-- No variable is set. -/
def empty : Environment := ⟨fun _ => none⟩

/-- The environment with one variable set, or unset by `none`. -/
def set (env : Environment) (name : String) (value : Option Octets) : Environment :=
  ⟨fun n => if n = name then value else env.get? n⟩

/-- A variable that has been set is as it was set. -/
@[simp] theorem get?_set_self (env : Environment) (name : String) (value : Option Octets) :
    (env.set name value).get? name = value := by
  simp [set]

/-- Every other variable is as before. -/
theorem get?_set_of_ne {name name' : String} (h : name' ≠ name) (env : Environment)
    (value : Option Octets) : (env.set name value).get? name' = env.get? name' := by
  simp [set, h]

/-- The value of a variable that is set to a text. -/
def text? (env : Environment) (name : String) : Option String :=
  match env.get? name with
  | some bytes => (Utf8.decode bytes).toOption.map String.ofList
  | none => none

/-- The value of a variable that is set to something. -/
def nonempty? (env : Environment) (name : String) : Option Octets :=
  (env.get? name).filter (! ·.isEmpty)

/-- Whether a variable is set to something. -/
def isSet (env : Environment) (name : String) : Bool := (env.nonempty? name).isSome

end Environment

end Clipboard
