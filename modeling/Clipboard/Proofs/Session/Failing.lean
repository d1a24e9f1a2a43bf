import Clipboard.Proofs.Session.Halves

/-!
# How a reading may fail

A reading fails with errors of few sorts, whatever its backend answers.  The clipboard was not
reached, or it holds nothing of the kind, or, for text alone, what it holds could not be decoded.
It never fails as a writing does.

* `Action.FailsWith.bind`: a sequence fails as its calls do;
* `Handle.read_failsWith`, `Handle.readText_failsWith`, `Handle.offers_failsWith`: the uses of a
  handle;
* `Board.getContents_failsWith`, `Board.getText_failsWith`: whole sessions.
-/

namespace Clipboard

open Action

variable {σ ε δ α β : Type}

/-- A call that fails with errors of one sort alone, in whatever state it is made. -/
def Action.FailsWith (P : ε → Prop) (x : Action σ ε α) : Prop := ∀ s e, (x s).1 = .failed e → P e

section Failing

variable {P Q : ε → Prop} {x : Action σ ε α}

theorem failsWith_pure (a : α) : (Pure.pure a : Action σ ε α).FailsWith P := by
  intro s e h
  cases h

theorem failsWith_fail {e : ε} (he : P e) : (Action.fail e : Action σ ε α).FailsWith P := by
  intro s e' h
  cases h
  exact he

theorem failsWith_ofExcept {r : Except ε α} (hr : ∀ e, r = .error e → P e) :
    (Action.ofExcept r : Action σ ε α).FailsWith P := by
  intro s e h
  cases r with
  | error e' =>
      cases h
      exact hr e rfl
  | ok a => cases h

theorem failsWith_mapCause {g : δ → ε} (y : Action σ δ α) (hg : ∀ e, P (g e)) :
    (y.mapCause g).FailsWith P := by
  intro s e h
  rw [mapCause_apply] at h
  rcases hrun : y s with ⟨a | e' | _, s'⟩ <;> rw [hrun] at h <;> cases h
  exact hg e'

theorem Action.FailsWith.mono (hx : x.FailsWith P) (hPQ : ∀ e, P e → Q e) : x.FailsWith Q :=
  fun s e h => hPQ e (hx s e h)

/-- A sequence fails as its calls do. -/
theorem Action.FailsWith.bind (hx : x.FailsWith P) {f : α → Action σ ε β}
    (hf : ∀ a, (f a).FailsWith P) : (x >>= f).FailsWith P := by
  intro s e h
  rw [bind_apply] at h
  rcases hrun : x s with ⟨a | e' | _, s'⟩ <;> rw [hrun] at h
  · exact hf a s' e h
  · cases h
    exact hx s e (by rw [hrun])
  · cases h

theorem Action.FailsWith.thenAlways (hx : x.FailsWith P) (last : Action σ Empty Unit) :
    (x.thenAlways last).FailsWith P := by
  intro s e h
  rcases hend : last (x s).2 with ⟨_ | e' | _, s'⟩
  · rw [thenAlways_done hend] at h
    exact hx s e h
  · exact e'.elim
  · rw [thenAlways_unwound hend] at h
    cases h

end Failing

/-- How reading content of a kind may fail. -/
inductive AccessError.OfContent (kind : Kind) : AccessError → Prop
  | unreached (tries : Nat) (reason : String) : OfContent kind (.acquireFailed tries reason)
  | absent : OfContent kind (.absent kind)

/-- How reading text may fail. -/
inductive AccessError.OfSpelling : AccessError → Prop
  | content {e : AccessError} (h : e.OfContent .text) : OfSpelling e
  | undecoded (fault : TextFault) : OfSpelling (.ofText fault)

theorem AccessError.OfContent.ne_writeFailed {kind : Kind} {e : AccessError}
    (h : e.OfContent kind) (reason : String) : e ≠ .writeFailed reason := by
  cases h with
  | unreached => exact nofun
  | absent => cases kind <;> exact nofun

theorem AccessError.OfContent.ne_badEncoding {kind : Kind} {e : AccessError}
    (h : e.OfContent kind) (reason : String) : e ≠ .badEncoding reason := by
  cases h with
  | unreached => exact nofun
  | absent => cases kind <;> exact nofun

theorem AccessError.OfSpelling.ne_writeFailed {e : AccessError} (h : e.OfSpelling)
    (reason : String) : e ≠ .writeFailed reason := by
  cases h with
  | content h => exact h.ne_writeFailed reason
  | undecoded fault => exact nofun

theorem AccessError.OfSpelling.ne_formatUnavailable {e : AccessError} (h : e.OfSpelling)
    (name : String) : e ≠ .formatUnavailable name := by
  cases h with
  | content h => cases h <;> exact nofun
  | undecoded fault => exact nofun

namespace Handle

variable (h : Handle σ) (kind : Kind)

theorem search_failsWith : (h.search kind).FailsWith (AccessError.OfContent kind) := by
  have hopen : h.ensureOpen.FailsWith (AccessError.OfContent kind) := by
    unfold ensureOpen
    split
    · exact failsWith_pure ()
    · exact failsWith_fail (.unreached ..)
  refine hopen.bind fun _ => (failsWith_mapCause _ fun e => .unreached ..).bind fun formats => ?_
  exact failsWith_mapCause _ fun e => .unreached ..

theorem read_failsWith : (h.read kind).FailsWith (AccessError.OfContent kind) := by
  rw [read_eq]
  refine (h.search_failsWith kind).bind fun found => ?_
  cases found with
  | none => exact failsWith_fail .absent
  | some f =>
      refine (failsWith_mapCause _ fun e => .unreached ..).bind fun given => ?_
      cases given with
      | none => exact failsWith_fail .absent
      | some payload => exact failsWith_pure payload

theorem readText_failsWith : h.readText.FailsWith AccessError.OfSpelling := by
  refine ((h.read_failsWith .text).mono fun e he => .content he).bind fun payload => ?_
  refine failsWith_ofExcept fun e he => ?_
  rcases htext : payload.text h.backend.convention with fault | text <;> rw [htext] at he
  · cases he
    exact .undecoded fault
  · cases he

theorem offers_failsWith : (h.offers kind).FailsWith (AccessError.OfContent kind) := by
  rw [offers_eq]
  exact (h.search_failsWith kind).bind fun _ => failsWith_pure _

end Handle

namespace Board

/-- A session fails to be opened because the clipboard is not reached, or fails as its body does. -/
theorem session_failsWith {P : AccessError → Prop} (c : Board σ)
    {body : Handle σ → Action (Host σ) AccessError α} (hP : ∀ n reason, P (.acquireFailed n reason))
    (hbody : ∀ h, (body h).FailsWith P) : (c.session body).FailsWith P := by
  have hopen : (c.backend.openHandle c.policy).FailsWith P := by
    intro d e h
    unfold Backend.openHandle at h
    dsimp only at h
    split at h <;> cases h
    exact hP _ _
  exact hopen.bind fun h => (hbody h).thenAlways _

theorem getContents_failsWith (c : Board σ) (kind : Kind) :
    (c.getContents kind).FailsWith (AccessError.OfContent kind) :=
  c.session_failsWith .unreached fun h => (h.read_failsWith kind).bind fun _ => failsWith_pure _

theorem getText_failsWith (c : Board σ) : c.getText.FailsWith AccessError.OfSpelling :=
  c.session_failsWith (fun n reason => .content (.unreached n reason)) fun h =>
    h.readText_failsWith

end Board

end Clipboard
