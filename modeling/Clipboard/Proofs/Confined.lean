import Clipboard.Proofs.Actions

/-!
# Calls that move the state within bounds

A call is confined to a relation if the state that it leaves behind, whatever it
comes to, is related to the one it was made in.  If nothing that the parts of a
sequence do leads out of the relation, the sequence does not.
-/

namespace Clipboard

variable {σ ε δ α β : Type}

/-- A relation that holds of every state and itself, and from step to step. -/
structure Bounds (R : σ → σ → Prop) : Prop where
  refl : ∀ s, R s s
  trans : ∀ {s t u}, R s t → R t u → R s u

/-- What a property is kept by bounds. -/
theorem Bounds.keeping (P : σ → Prop) : Bounds fun s s' : σ => P s → P s' where
  refl _ h := h
  trans h h' hs := h' (h hs)

theorem Bounds.and {R R' : σ → σ → Prop} (h : Bounds R) (h' : Bounds R') :
    Bounds fun s s' => R s s' ∧ R' s s' where
  refl s := ⟨h.refl s, h'.refl s⟩
  trans hs ht := ⟨h.trans hs.1 ht.1, h'.trans hs.2 ht.2⟩

/-- A call that moves the state within a relation, whatever it comes to. -/
def Action.Confined (R : σ → σ → Prop) (x : Action σ ε α) : Prop := ∀ s, R s (x s).2

namespace Action

variable {R : σ → σ → Prop} {x : Action σ ε α} {f : α → Action σ ε β}

theorem confined_pure (hR : Bounds R) (a : α) : Confined R (pure a : Action σ ε α) :=
  fun s => hR.refl s

theorem confined_fail (hR : Bounds R) (e : ε) : Confined R (fail e : Action σ ε α) :=
  fun s => hR.refl s

theorem confined_unwind (hR : Bounds R) : Confined R (unwind : Action σ ε α) :=
  fun s => hR.refl s

theorem confined_ofExcept (hR : Bounds R) (r : Except ε α) : Confined R (ofExcept r) :=
  fun s => hR.refl s

theorem confined_ask (hR : Bounds R) (g : σ → α) : Confined R (ask g : Action σ ε α) :=
  fun s => hR.refl s

theorem confined_update {g : σ → σ} (h : ∀ s, R s (g s)) :
    Confined R (update g : Action σ ε Unit) := h

theorem Confined.mapCause (h : Confined R x) (g : ε → δ) : Confined R (x.mapCause g) := h

theorem Confined.recover (h : Confined R x) (g : ε → α) : Confined R (x.recover g) := by
  intro s
  rw [recover_snd]
  exact h s

/-- A sequence is confined if its first call is, and whatever may come after. -/
theorem Confined.bind (hR : Bounds R) (hx : Confined R x) (hf : ∀ a, Confined R (f a)) :
    Confined R (x >>= f) := by
  intro s
  have hfirst := hx s
  rw [bind_apply]
  rcases hrun : x s with ⟨a | e | _, s'⟩ <;> rw [hrun] at hfirst
  · exact hR.trans hfirst (hf a s')
  · exact hfirst
  · exact hfirst

theorem Confined.map (hx : Confined R x) (g : α → β) : Confined R (g <$> x) := by
  intro s
  rw [map_snd]
  exact hx s

end Action

end Clipboard
