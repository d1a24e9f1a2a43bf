import Clipboard.Registry

/-!
# Running calls

How the small calls run that sequences are made of.  With `Action.bind_done` and
`Action.bind_failed` they take a sequence apart from the front, one call at a
time.
-/

namespace Clipboard

variable {σ ε δ α β : Type}

namespace Action

@[simp] theorem map_apply (f : α → β) (x : Action σ ε α) (s : σ) :
    (f <$> x) s = ((x s).1.map f, (x s).2) := by
  show (x >>= fun a => Pure.pure (f a)) s = _
  rw [bind_apply]
  rcases x s with ⟨_ | _ | _, s'⟩ <;> rfl

theorem map_snd (f : α → β) (x : Action σ ε α) (s : σ) : ((f <$> x) s).2 = (x s).2 := by
  rw [map_apply]

@[simp] theorem mapCause_apply (f : ε → δ) (x : Action σ ε α) (s : σ) :
    mapCause f x s = ((x s).1.mapCause f, (x s).2) := rfl

@[simp] theorem ofExcept_ok (a : α) (s : σ) :
    (ofExcept (.ok a) : Action σ ε α) s = (.done a, s) := rfl

@[simp] theorem ofExcept_error (e : ε) (s : σ) :
    (ofExcept (.error e) : Action σ ε α) s = (.failed e, s) := rfl

@[simp] theorem recover_snd (f : ε → α) (x : Action σ ε α) (s : σ) :
    (x.recover f s).2 = (x s).2 := by
  unfold recover
  rcases x s with ⟨_ | _ | _, s'⟩ <;> rfl

theorem recover_done {x : Action σ ε α} {s s' : σ} {a : α} (h : x s = (.done a, s'))
    (f : ε → α) : x.recover f s = (.done a, s') := by
  rw [recover, h]

theorem recover_failed {x : Action σ ε α} {s s' : σ} {e : ε} (h : x s = (.failed e, s'))
    (f : ε → α) : x.recover f s = (.done (f e), s') := by
  rw [recover, h]

theorem recover_ne_failed (x : Action σ ε α) (f : ε → α) (s : σ) (e : ε) :
    (x.recover f s).1 ≠ .failed e := by
  unfold recover
  rcases x s with ⟨_ | _ | _, s'⟩ <;> simp

/-- An answer may be rewritten before or after failures are answered. -/
theorem map_recover (g : α → β) (f : ε → α) (x : Action σ ε α) :
    g <$> x.recover f = (g <$> x).recover fun e => g (f e) := by
  funext s
  rw [map_apply]
  unfold recover
  rw [map_apply]
  rcases x s with ⟨_ | _ | _, s'⟩ <;> rfl

theorem ask_bind (g : σ → β) (f : β → Action σ ε α) (s : σ) : (ask g >>= f) s = f (g s) s := rfl

/-- A sequence that answers is one of calls that answer. -/
theorem bind_eq_done {x : Action σ ε α} {f : α → Action σ ε β} {s s' : σ} {b : β}
    (h : (x >>= f) s = (.done b, s')) : ∃ a s₁, x s = (.done a, s₁) ∧ f a s₁ = (.done b, s') := by
  rw [bind_apply] at h
  rcases hx : x s with ⟨a | e | _, s₁⟩ <;> rw [hx] at h
  · exact ⟨a, s₁, rfl, h⟩
  · cases h
  · cases h

theorem mapCause_eq_done {g : ε → δ} {x : Action σ ε α} {s s' : σ} {a : α}
    (h : mapCause g x s = (.done a, s')) : x s = (.done a, s') := by
  rw [mapCause_apply] at h
  rcases hx : x s with ⟨a' | e | _, s₁⟩ <;> rw [hx] at h <;> cases h
  rfl

/-- A result that is answered with is one. -/
theorem ofExcept_eq_done {r : Except ε α} {s s' : σ} {a : α}
    (h : (ofExcept r : Action σ ε α) s = (.done a, s')) : r = .ok a ∧ s' = s := by
  cases r with
  | error e => cases h
  | ok a' =>
      cases h
      exact ⟨rfl, rfl⟩

/-- Whatever becomes of a call, the last call has the last word on the state. -/
theorem thenAlways_snd (x : Action σ ε α) (last : Action σ Empty Unit) (s : σ) :
    (x.thenAlways last s).2 = (last (x s).2).2 := by
  rcases hend : last (x s).2 with ⟨_ | e | _, s'⟩
  · rw [thenAlways_done hend]
  · exact e.elim
  · rw [thenAlways_unwound hend]

/-- With a last call after it, a call answers if both do. -/
theorem thenAlways_eq_done {x : Action σ ε α} {last : Action σ Empty Unit} {s : σ} {a : α} :
    (x.thenAlways last s).1 = .done a ↔
      (x s).1 = .done a ∧ (last (x s).2).1 = .done () := by
  rcases hend : last (x s).2 with ⟨_ | e | _, s'⟩
  · rw [thenAlways_done hend]
    simp
  · exact e.elim
  · rw [thenAlways_unwound hend]
    simp

theorem update_bind (g : σ → σ) (f : Unit → Action σ ε α) (s : σ) :
    (update g >>= f) s = f () (g s) := rfl

end Action

theorem Host.on_done {x : Action σ ε α} {d : Host σ} {a : α} {w : σ}
    (h : x d.world = (.done a, w)) : Host.on x d = (.done a, { d with world := w }) := by
  rw [Host.on_apply, h]

/-- A call on the state of the backends alone remembers no formats. -/
theorem Host.on_eq_done {x : Action σ ε α} {d d' : Host σ} {a : α}
    (h : Host.on x d = (.done a, d')) :
    x d.world = (.done a, d'.world) ∧ d'.registry = d.registry := by
  rw [Host.on_apply] at h
  obtain ⟨hfst, rfl⟩ := Prod.mk.inj h
  exact ⟨Prod.ext hfst rfl, rfl⟩

theorem Action.mapCause_of_done {f : ε → δ} {x : Action σ ε α} {s s' : σ} {a : α}
    (h : x s = (.done a, s')) : mapCause f x s = (.done a, s') := by
  rw [mapCause_apply, h]
  rfl

theorem Action.mapCause_of_failed {f : ε → δ} {x : Action σ ε α} {s s' : σ} {e : ε}
    (h : x s = (.failed e, s')) : mapCause f x s = (.failed (f e), s') := by
  rw [mapCause_apply, h]
  rfl

end Clipboard
