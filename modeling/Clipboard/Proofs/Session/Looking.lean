import Clipboard.Session
import Clipboard.Proofs.Confined
import Clipboard.Proofs.Session.Operations
import Clipboard.Proofs.Session.SetGet

/-!
# Sessions that look

Gaining access, asking for formats, looking for one that is on offer, reading it and
giving access up are all that a reading does.  So whatever bounds these keep within, a
whole reading keeps within, even one that fails.  If writing and clearing keep within them
too, so does every operation.

* `Looks.session`: a session is confined if its body is;
* `Looks.leave`: every reading is confined;
* `Looks.perform`: so is every operation.
-/

namespace Clipboard

open Action

variable {σ ε α : Type} {b : Backend σ} {R : Host σ → Host σ → Prop}

/-- What a reading asks of a backend keeps within bounds. -/
structure Looks (b : Backend σ) (R : Host σ → Host σ → Prop) : Prop where
  bounds : Bounds R
  acquire : Confined R (Host.on b.acquire)
  release : Confined R (Host.on b.release)
  resolve : ∀ kind, Confined R (b.resolve kind)
  pick : ∀ formats, Confined R (Host.on (b.pick formats))
  read : ∀ f, Confined R (Host.on (b.read f))

theorem Action.Confined.thenAlways {x : Action σ ε α} {last : Action σ Empty Unit}
    {Q : σ → σ → Prop} (hQ : Bounds Q) (hx : Confined Q x) (hlast : Confined Q last) :
    Confined Q (x.thenAlways last) := by
  intro s
  rw [thenAlways_snd]
  exact hQ.trans (hx s) (hlast (x s).2)

/-- Asking for formats is confined if the backend is, and if remembering them is. -/
theorem confined_resolve (hR : Bounds R) (hasked : ∀ kind, Confined R (Host.on (b.formatsFor kind)))
    (hkept : ∀ (d : Host σ) (registry : Registry), R d { d with registry := registry })
    (kind : Kind) : Confined R (b.resolve kind) := by
  refine Confined.bind hR (confined_ask hR _) fun kept => ?_
  cases kept with
  | some formats => exact confined_pure hR formats
  | none =>
      refine Confined.bind hR (hasked kind) fun formats => ?_
      by_cases hempty : formats.isEmpty = true
      · rw [if_pos hempty]
        exact confined_fail hR _
      · rw [if_neg hempty]
        exact Confined.bind hR (confined_update fun d => hkept d _) fun _ =>
          confined_pure hR formats

namespace Looks

theorem openHandle (h : Looks b R) (p : Policy) : Confined R (b.openHandle p) := by
  have hopening (left : Nat) : ∀ (n : Nat) (d : Host σ),
      R d { d with world := (b.openingFrom p n left d.world).2 } := by
    induction left with
    | zero => exact fun n d => h.acquire d
    | succ left ih =>
        intro n d
        have htried : R d { d with world := (b.acquire d.world).2 } := h.acquire d
        rw [Backend.openingFrom]
        rcases hacq : b.acquire d.world with ⟨_ | e | _, w⟩ <;> rw [hacq] at htried
        · exact htried
        · cases e with
          | busy reason => exact h.bounds.trans htried (ih (n + 1) { d with world := w })
          | _ => exact htried
        · exact htried
  exact fun d => hopening (p.tries - 1) 1 d

theorem dispose (h : Looks b R) (isOpen : Bool) :
    Confined R (⟨b, isOpen⟩ : Handle σ).dispose := by
  have hclose : Confined R (⟨b, isOpen⟩ : Handle σ).close := by
    unfold Handle.close
    split
    · exact Confined.bind h.bounds h.release fun _ => confined_pure h.bounds _
    · exact confined_pure h.bounds _
  exact Confined.bind h.bounds hclose fun _ => confined_pure h.bounds _

theorem session (h : Looks b R) (p : Policy) {body : Handle σ → Action (Host σ) AccessError α}
    (hbody : Confined R (body ⟨b, true⟩)) : Confined R ((⟨b, p⟩ : Board σ).session body) := by
  intro d
  have hopened := h.openHandle p d
  rw [Board.session, bind_apply]
  rcases hopen : b.openHandle p d with ⟨g | e | _, d'⟩ <;> rw [hopen] at hopened
  · obtain rfl := Backend.handle_of_openHandle hopen
    exact h.bounds.trans hopened
      (Confined.thenAlways h.bounds hbody (h.dispose true) d')
  · exact hopened
  · exact hopened

theorem offers (h : Looks b R) (kind : Kind) : Confined R ((⟨b, true⟩ : Handle σ).offers kind) :=
  Confined.bind h.bounds (confined_pure h.bounds _) fun _ =>
    Confined.bind h.bounds ((h.resolve kind).mapCause _) fun formats =>
      Confined.bind h.bounds ((h.pick formats).mapCause _) fun _ => confined_pure h.bounds _

theorem readKind (h : Looks b R) (kind : Kind) : Confined R ((⟨b, true⟩ : Handle σ).read kind) := by
  refine Confined.bind h.bounds (confined_pure h.bounds _) fun _ =>
    Confined.bind h.bounds ((h.resolve kind).mapCause _) fun formats =>
      Confined.bind h.bounds ((h.pick formats).mapCause _) fun found => ?_
  cases found with
  | none => exact confined_fail h.bounds _
  | some f =>
      refine Confined.bind h.bounds ((h.read f).mapCause _) fun given => ?_
      cases given with
      | none => exact confined_fail h.bounds _
      | some payload => exact confined_pure h.bounds _

theorem readText (h : Looks b R) : Confined R (⟨b, true⟩ : Handle σ).readText :=
  Confined.bind h.bounds (h.readKind .text) fun _ => confined_ofExcept h.bounds _

theorem hasText (h : Looks b R) : Confined R (⟨b, true⟩ : Handle σ).hasText := by
  refine Confined.recover (Confined.bind h.bounds (h.offers .text) fun offered => ?_) _
  cases offered with
  | false => exact confined_pure h.bounds false
  | true => exact Confined.bind h.bounds h.readText fun _ => confined_pure h.bounds true

/-- Whatever a reading comes to, it keeps within the bounds. -/
theorem leave (h : Looks b R) (p : Policy) (r : Reading) (d : Host σ) :
    R d (r.leave ⟨b, p⟩ d) := by
  cases r with
  | text => exact h.session p h.readText d
  | hasText =>
      have hsession := h.session p h.hasText
      exact Confined.recover hsession _ d
  | octets kind =>
      exact h.session p
        (Confined.bind h.bounds (h.readKind kind) fun _ => confined_pure h.bounds _) d

theorem store (h : Looks b R) (hwrite : ∀ items, Confined R (Host.on (b.write items)))
    (items : List (Format × Payload)) : Confined R ((⟨b, true⟩ : Handle σ).store items) := by
  unfold Handle.store
  by_cases hempty : items.isEmpty = true
  · rw [if_pos hempty]
    exact confined_fail h.bounds _
  · rw [if_neg hempty]
    exact (hwrite items).mapCause _

/-- An operation keeps within bounds that reading, writing and clearing keep within. -/
theorem perform (h : Looks b R) (hwrite : ∀ items, Confined R (Host.on (b.write items)))
    (hclear : Confined R (Host.on b.clear)) (p : Policy) (op : Operation) :
    Confined R (op.perform ⟨b, p⟩) := by
  have hopened : Confined R (⟨b, true⟩ : Handle σ).ensureOpen := confined_pure h.bounds ()
  cases op with
  | setText text =>
      have hbody : Confined R ((⟨b, true⟩ : Handle σ).writeText text) :=
        hopened.bind h.bounds fun _ => ((h.resolve .text).mapCause _).bind h.bounds fun formats =>
          (confined_ofExcept h.bounds _).bind h.bounds (h.store hwrite)
      exact (h.session p hbody).map _
  | getText => exact (h.session p h.readText).map _
  | hasText =>
      have hsession := h.session p h.hasText
      exact (Confined.recover hsession _).map _
  | setContents kind bytes =>
      have hbody : Confined R ((⟨b, true⟩ : Handle σ).write kind bytes) :=
        hopened.bind h.bounds fun _ => ((h.resolve kind).mapCause _).bind h.bounds fun formats =>
          h.store hwrite _
      exact (h.session p hbody).map _
  | getContents kind =>
      exact (h.session p ((h.readKind kind).bind h.bounds fun _ => confined_pure h.bounds _)).map _
  | clear =>
      have hbody : Confined R (⟨b, true⟩ : Handle σ).clear :=
        hopened.bind h.bounds fun _ => hclear.mapCause _
      exact (h.session p hbody).map _

end Looks

end Clipboard
