import Clipboard.Session
import Clipboard.Proofs.Actions

/-!
# Gaining and giving up access

How a session runs when the backend can be acquired and released: its body runs
on an open handle, in the state that the acquiring leaves, and the releasing
comes after it, whatever the body comes to.

* `openHandle_of_acquire`, `dispose_of_release`: the two ends of a session;
* `session_of_open`, `session_of_failed`: a whole session.
-/

namespace Clipboard

variable {σ α : Type}

/-- An opening whose last try is granted gives access. -/
theorem Backend.openHandle_of_granted {b : Backend σ} {p : Policy} {d : Host σ} {n : Nat}
    {pauses : List Duration} {w : σ} (h : b.opening p d.world = (⟨n, pauses, .done ()⟩, w)) :
    b.openHandle p d = (.done ⟨b, true⟩, { d with world := w }) := by
  rw [openHandle, h]

/-- A clipboard that is free is opened by the first try. -/
theorem Backend.openHandle_of_acquire {b : Backend σ} {d : Host σ} {w : σ}
    (h : b.acquire d.world = (.done (), w)) (p : Policy) :
    b.openHandle p d = (.done ⟨b, true⟩, { d with world := w }) := by
  have hopening : b.opening p d.world = (⟨1, [], .done ()⟩, w) := by
    unfold opening
    cases p.tries - 1 <;> simp [openingFrom, h]
  exact openHandle_of_granted hopening

/-- A clipboard that cannot be reached at all is tried once. -/
theorem Backend.openHandle_of_unavailable {b : Backend σ} {d : Host σ} {w : σ} {reason : String}
    (h : b.acquire d.world = (.failed (.unavailable reason), w)) (p : Policy) :
    b.openHandle p d = (.failed (.acquireFailed 1 (Failure.unavailable reason).message),
      { d with world := w }) := by
  have hopening : b.opening p d.world = (⟨1, [], .failed (.unavailable reason)⟩, w) := by
    unfold opening
    cases p.tries - 1 <;> simp [openingFrom, h]
  rw [openHandle, hopening]

/-- The access that is gained is to the backend. -/
theorem Backend.handle_of_openHandle {b : Backend σ} {p : Policy} {d d' : Host σ} {h : Handle σ}
    (hopen : b.openHandle p d = (.done h, d')) : h = ⟨b, true⟩ := by
  have hfst : (b.openHandle p d).1 = .done h := by rw [hopen]
  unfold openHandle at hfst
  dsimp only at hfst
  split at hfst
  · exact (Outcome.done.inj hfst).symm
  · cases hfst
  · cases hfst

namespace Handle

/-- Letting go of an open handle is releasing its backend. -/
theorem dispose_open (b : Backend σ) : (⟨b, true⟩ : Handle σ).dispose = Host.on b.release := by
  show ((Host.on b.release >>= fun _ => Pure.pure _) >>= fun _ => Pure.pure ()) = _
  rw [Action.bind_assoc_apply]
  exact Action.bind_pure_self _

theorem close_of_release {h : Handle σ} {d : Host σ} {w : σ} (hopen : h.isOpen = true)
    (hrel : h.backend.release d.world = (.done (), w)) :
    h.close d = (.done { h with isOpen := false }, { d with world := w }) := by
  rw [close, if_pos hopen, Action.bind_done (Host.on_done hrel)]
  rfl

theorem close_of_closed {h : Handle σ} (hclosed : h.isOpen = false) (d : Host σ) :
    h.close d = (.done h, d) := by
  rw [close, if_neg (by simp [hclosed])]
  rfl

theorem dispose_of_release {h : Handle σ} {d : Host σ} {w : σ} (hopen : h.isOpen = true)
    (hrel : h.backend.release d.world = (.done (), w)) :
    h.dispose d = (.done (), { d with world := w }) := by
  rw [dispose, Action.bind_done (close_of_release hopen hrel)]
  rfl

theorem dispose_of_closed {h : Handle σ} (hclosed : h.isOpen = false) (d : Host σ) :
    h.dispose d = (.done (), d) := by
  rw [dispose, Action.bind_done (close_of_closed hclosed d)]
  rfl

@[simp] theorem ensureOpen_of_open (b : Backend σ) :
    (⟨b, true⟩ : Handle σ).ensureOpen = pure () := rfl

end Handle

namespace Board

/-- A session that is given access comes to what its body comes to. -/
theorem session_of_open {c : Board σ} {body : Handle σ → Action (Host σ) AccessError α}
    {d d₁ d₂ : Host σ} {w : σ} {o : Outcome AccessError α}
    (hopen : c.backend.openHandle c.policy d = (.done ⟨c.backend, true⟩, d₁))
    (hbody : body ⟨c.backend, true⟩ d₁ = (o, d₂))
    (hrel : c.backend.release d₂.world = (.done (), w)) :
    c.session body d = (o, { d₂ with world := w }) := by
  have hlast : (⟨c.backend, true⟩ : Handle σ).dispose (body ⟨c.backend, true⟩ d₁).2 =
      (.done (), { d₂ with world := w }) := by
    rw [hbody]
    exact Handle.dispose_of_release rfl hrel
  rw [session, Action.bind_done hopen, Action.thenAlways_done hlast, hbody]

theorem session_of_failed {c : Board σ} {body : Handle σ → Action (Host σ) AccessError α}
    {d d' : Host σ} {e : AccessError} (hopen : c.backend.openHandle c.policy d = (.failed e, d')) :
    c.session body d = (.failed e, d') := by
  rw [session, Action.bind_failed hopen]

end Board

end Clipboard
