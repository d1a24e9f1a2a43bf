import Clipboard.Proofs.Actions

/-!
# Asking for formats

What asking for the formats of a kind comes to: a remembered answer is given as
it is, and otherwise the backend is asked and its answer is remembered if it is
not empty.  `resolve_of_find?` is the first case; the others are here, and

* `registry_resolve`: what is remembered after a question;
* `remembered_of_resolve`: what a question is answered with is remembered.
-/

namespace Clipboard

/-- What is found after an answer is kept: what was found before, or the answer. -/
theorem Registry.find?_keep (r : Registry) (name name' : String) (kind kind' : Kind)
    (formats : List Format) :
    (r.keep name kind formats).find? name' kind' =
      (r.find? name' kind').or (if (name, kind) = (name', kind') then some formats else none) := by
  simp only [find?, keep, List.find?_append, List.find?_singleton]
  cases r.entries.find? fun e => e.1 = (name', kind') with
  | some e => rfl
  | none => by_cases h : (name, kind) = (name', kind') <;> simp [h]

namespace Backend

variable {σ : Type} {b : Backend σ} {kind : Kind} {d : Host σ}

theorem resolve_of_formats {formats : List Format} {w : σ}
    (hnew : d.registry.find? b.name kind = none)
    (hasked : b.formatsFor kind d.world = (.done formats, w)) (hne : formats ≠ []) :
    b.resolve kind d = (.done formats, ⟨w, d.registry.keep b.name kind formats⟩) := by
  have hempty : ¬ formats.isEmpty = true := by simpa using hne
  rw [resolve, Action.ask_bind, hnew]
  dsimp only
  rw [Action.bind_done (Host.on_done hasked), if_neg hempty, Action.update_bind]
  rfl

theorem resolve_of_empty {w : σ} (hnew : d.registry.find? b.name kind = none)
    (hasked : b.formatsFor kind d.world = (.done [], w)) :
    b.resolve kind d = (.failed (b.noFormat kind), { d with world := w }) := by
  rw [resolve, Action.ask_bind, hnew]
  dsimp only
  rw [Action.bind_done (Host.on_done hasked)]
  rfl

theorem resolve_of_failed {e : Failure} {w : σ} (hnew : d.registry.find? b.name kind = none)
    (hasked : b.formatsFor kind d.world = (.failed e, w)) :
    b.resolve kind d = (.failed e, { d with world := w }) := by
  have hon : Host.on (b.formatsFor kind) d = (.failed e, { d with world := w }) := by
    rw [Host.on_apply, hasked]
  rw [resolve, Action.ask_bind, hnew]
  exact Action.bind_failed hon _

theorem resolve_of_unwound {w : σ} (hnew : d.registry.find? b.name kind = none)
    (hasked : b.formatsFor kind d.world = (.unwound, w)) :
    b.resolve kind d = (.unwound, { d with world := w }) := by
  have hon : Host.on (b.formatsFor kind) d = (.unwound, { d with world := w }) := by
    rw [Host.on_apply, hasked]
  rw [resolve, Action.ask_bind, hnew]
  exact Action.bind_unwound hon _

/-- Asking for formats is one question to the backend, or none. -/
theorem world_resolve (b : Backend σ) (kind : Kind) (d : Host σ) :
    (b.resolve kind d).2.world = d.world ∨
      (b.resolve kind d).2.world = (b.formatsFor kind d.world).2 := by
  cases hkept : d.registry.find? b.name kind with
  | some kept =>
      rw [resolve_of_find? hkept]
      exact .inl rfl
  | none =>
      refine .inr ?_
      rcases hasked : b.formatsFor kind d.world with ⟨answer | e | _, w⟩
      · by_cases hempty : answer = []
        · rw [resolve_of_empty hkept (hempty ▸ hasked)]
        · rw [resolve_of_formats hkept hasked hempty]
      · rw [resolve_of_failed hkept hasked]
      · rw [resolve_of_unwound hkept hasked]

/-- What is remembered after formats have been asked for is what was remembered before, and the
backend's answer if there was none. -/
theorem registry_resolve (b : Backend σ) (kind : Kind) (d : Host σ) :
    (b.resolve kind d).2.registry = d.registry ∨
      ∃ formats, d.registry.find? b.name kind = none ∧
        (b.formatsFor kind d.world).1 = .done formats ∧
        (b.resolve kind d).2.registry = d.registry.keep b.name kind formats := by
  cases hkept : d.registry.find? b.name kind with
  | some kept =>
      rw [resolve_of_find? hkept]
      exact .inl rfl
  | none =>
      rcases hasked : b.formatsFor kind d.world with ⟨answer | e | _, w⟩
      · by_cases hempty : answer = []
        · rw [resolve_of_empty hkept (hempty ▸ hasked)]
          exact .inl rfl
        · rw [resolve_of_formats hkept hasked hempty]
          exact .inr ⟨answer, rfl, rfl, rfl⟩
      · rw [resolve_of_failed hkept hasked]
        exact .inl rfl
      · rw [resolve_of_unwound hkept hasked]
        exact .inl rfl

/-- What is answered is remembered. -/
theorem remembered_of_resolve {formats : List Format} {d' : Host σ}
    (h : b.resolve kind d = (.done formats, d')) :
    d'.registry.find? b.name kind = some formats := by
  cases hkept : d.registry.find? b.name kind with
  | some kept =>
      rw [resolve_of_find? hkept] at h
      cases h
      exact hkept
  | none =>
      rcases hasked : b.formatsFor kind d.world with ⟨answer | e | _, w⟩
      · by_cases hempty : answer = []
        · rw [resolve_of_empty hkept (hempty ▸ hasked)] at h
          cases h
        · rw [resolve_of_formats hkept hasked hempty] at h
          cases h
          exact Registry.find?_keep_self hkept formats
      · rw [resolve_of_failed hkept hasked] at h
        cases h
      · rw [resolve_of_unwound hkept hasked] at h
        cases h

end Backend

end Clipboard
