/-!
# Calls that can fail or be cut short

A call on a clipboard ends in one of three ways: with a value, with a stated
failure, or by unwinding, when the code below it gives up without an answer.
An `Action` is such a call together with what it does to the state it runs on,
so that an effect made before a failure is kept.

* `Action.bind_done`, `Action.bind_failed`, `Action.bind_unwound` say how a
  sequence of two calls runs;
* `Action.thenAlways_done` and `Action.thenAlways_unwound` say what a last call
  that is made in any case does to the outcome;
* `LawfulMonad` holds, so that sequences may be regrouped.
-/

namespace Clipboard

/-- How a call ends. -/
inductive Outcome (ε α : Type) where
  /-- It answers. -/
  | done (value : α)
  /-- It fails, and says why. -/
  | failed (cause : ε)
  /-- It is cut short and its caller with it. -/
  | unwound
  deriving DecidableEq, Repr

namespace Outcome

variable {ε δ α β : Type}

/-- The outcome with its answer rewritten. -/
def map (f : α → β) : Outcome ε α → Outcome ε β
  | done a => done (f a)
  | failed e => failed e
  | unwound => unwound

/-- The outcome with its cause of failure reworded. -/
def mapCause (f : ε → δ) : Outcome ε α → Outcome δ α
  | done a => done a
  | failed e => failed (f e)
  | unwound => unwound

/-- A result without unwinding is an outcome. -/
def ofExcept : Except ε α → Outcome ε α
  | .ok a => done a
  | .error e => failed e

/-- The answer, if there is one. -/
def value? : Outcome ε α → Option α
  | done a => some a
  | _ => none

/-- Whether the call answered. -/
def isDone : Outcome ε α → Bool
  | done _ => true
  | _ => false

@[simp] theorem map_done (f : α → β) (a : α) : (done a : Outcome ε α).map f = done (f a) := rfl

@[simp] theorem map_failed (f : α → β) (e : ε) : (failed e).map f = failed e := rfl

@[simp] theorem map_unwound (f : α → β) : (unwound : Outcome ε α).map f = unwound := rfl

@[simp] theorem mapCause_done (f : ε → δ) (a : α) : (done a).mapCause f = done a := rfl

@[simp] theorem mapCause_failed (f : ε → δ) (e : ε) :
    (failed e : Outcome ε α).mapCause f = failed (f e) := rfl

@[simp] theorem mapCause_unwound (f : ε → δ) :
    (unwound : Outcome ε α).mapCause f = unwound := rfl

end Outcome

/-- A call on a state of type `σ`: its outcome and the state it leaves behind,
whatever the outcome. -/
def Action (σ ε α : Type) : Type := σ → Outcome ε α × σ

namespace Action

variable {σ τ ε δ α β γ : Type}

/-- Answering at once. -/
def pure (a : α) : Action σ ε α := fun s => (.done a, s)

/-- One call, then another that may use its answer.  The second is made only
if the first answers. -/
def bind (x : Action σ ε α) (f : α → Action σ ε β) : Action σ ε β := fun s =>
  match x s with
  | (.done a, s') => f a s'
  | (.failed e, s') => (.failed e, s')
  | (.unwound, s') => (.unwound, s')

instance : Monad (Action σ ε) where
  pure := Action.pure
  bind := Action.bind

/-- Failing at once. -/
def fail (e : ε) : Action σ ε α := fun s => (.failed e, s)

/-- Giving up without an answer. -/
def unwind : Action σ ε α := fun s => (.unwound, s)

/-- A result that needs no state. -/
def ofExcept (r : Except ε α) : Action σ ε α := fun s => (.ofExcept r, s)

/-- Looking at the state. -/
def ask (f : σ → α) : Action σ ε α := fun s => (.done (f s), s)

/-- Changing the state. -/
def update (f : σ → σ) : Action σ ε Unit := fun s => (.done (), f s)

/-- The call with its cause of failure reworded. -/
def mapCause (f : ε → δ) (x : Action σ ε α) : Action σ δ α := fun s =>
  ((x s).1.mapCause f, (x s).2)

/-- The call with every failure answered. -/
def recover (f : ε → α) (x : Action σ ε α) : Action σ ε α := fun s =>
  match x s with
  | (.failed e, s') => (.done (f e), s')
  | other => other

/-- The call on a state that contains the state it is made for. -/
def zoom (view : τ → σ) (put : σ → τ → τ) (x : Action σ ε α) : Action τ ε α := fun t =>
  ((x (view t)).1, put (x (view t)).2 t)

/-- One call, and a last one whatever became of it.  What the first comes to
stands, unless the last unwinds. -/
def thenAlways (x : Action σ ε α) (last : Action σ Empty Unit) : Action σ ε α := fun s =>
  let (outcome, s) := x s
  match last s with
  | (.done (), s) => (outcome, s)
  | (_, s) => (.unwound, s)

/-- How a sequence of two calls runs. -/
theorem bind_apply (x : Action σ ε α) (f : α → Action σ ε β) (s : σ) :
    (x >>= f) s =
      match x s with
      | (.done a, s') => f a s'
      | (.failed e, s') => (.failed e, s')
      | (.unwound, s') => (.unwound, s') := rfl

@[simp] theorem pure_apply (a : α) (s : σ) :
    (Pure.pure a : Action σ ε α) s = (.done a, s) := rfl

@[simp] theorem fail_apply (e : ε) (s : σ) : (fail e : Action σ ε α) s = (.failed e, s) := rfl

/-- A call that answers hands on its answer and its state. -/
theorem bind_done {x : Action σ ε α} {s s' : σ} {a : α} (h : x s = (.done a, s'))
    (f : α → Action σ ε β) : (x >>= f) s = f a s' := by
  simp [bind_apply, h]

/-- A call that fails ends the sequence. -/
theorem bind_failed {x : Action σ ε α} {s s' : σ} {e : ε} (h : x s = (.failed e, s'))
    (f : α → Action σ ε β) : (x >>= f) s = (.failed e, s') := by
  simp [bind_apply, h]

/-- A call that unwinds ends the sequence. -/
theorem bind_unwound {x : Action σ ε α} {s s' : σ} (h : x s = (.unwound, s'))
    (f : α → Action σ ε β) : (x >>= f) s = (.unwound, s') := by
  simp [bind_apply, h]

/-- A last call that answers leaves the outcome as it is. -/
theorem thenAlways_done {x : Action σ ε α} {last : Action σ Empty Unit} {s s' : σ}
    (h : last (x s).2 = (.done (), s')) : x.thenAlways last s = ((x s).1, s') := by
  simp [thenAlways, h]

/-- A last call that unwinds takes the outcome with it. -/
theorem thenAlways_unwound {x : Action σ ε α} {last : Action σ Empty Unit} {s s' : σ}
    (h : last (x s).2 = (.unwound, s')) : x.thenAlways last s = (.unwound, s') := by
  simp [thenAlways, h]

/-- Answering with what a call answers changes nothing. -/
theorem bind_pure_self (x : Action σ ε α) : (x >>= fun a => Pure.pure a) = x := by
  funext s
  rw [bind_apply]
  rcases x s with ⟨_ | _ | _, s'⟩ <;> rfl

/-- Sequences of three calls may be grouped either way. -/
theorem bind_assoc_apply (x : Action σ ε α) (f : α → Action σ ε β) (g : β → Action σ ε γ) :
    (x >>= f >>= g) = x >>= fun a => f a >>= g := by
  funext s
  simp only [bind_apply]
  rcases x s with ⟨_ | _ | _, s'⟩ <;> rfl

instance : LawfulMonad (Action σ ε) :=
  LawfulMonad.mk' _ bind_pure_self (fun _ _ => rfl) bind_assoc_apply

end Action

end Clipboard
