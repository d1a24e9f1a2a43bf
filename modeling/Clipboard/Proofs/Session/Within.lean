import Mathlib.Logic.Function.Basic
import Clipboard.Session
import Clipboard.Proofs.Actions
import Clipboard.Proofs.Session.Operations

/-!
# Backends within a larger state

A backend may live in a part of a larger state, next to others.  If that part is
a component of its own, then all that is done on the backend in the larger
state is what is done on it alone, and the rest of the larger state stays as it
is.

* `Action.zoom_bind`: a sequence on the component is one of calls on it;
* `Board.session_zoom`: so is a session;
* `Board.setText_zoom` and those after it: so are the operations of a clipboard, and
  `Operation.perform_zoom` is all of them.
-/

namespace Clipboard

variable {σ τ ε δ α β : Type} {view : τ → σ} {put : σ → τ → τ}

/-- A component of a larger state. -/
structure Component (view : τ → σ) (put : σ → τ → τ) : Prop where
  view_put : ∀ s t, view (put s t) = s
  put_view : ∀ t, put (view t) t = t
  put_put : ∀ s s' t, put s (put s' t) = put s t

/-- A place in a family of states is a component of it. -/
theorem component_update {ι : Type} [DecidableEq ι] (σ : ι → Type) (i : ι) :
    Component (fun w : ∀ i, σ i => w i) (fun s w => Function.update w i s) where
  view_put s w := Function.update_self i s w
  put_view w := Function.update_eq_self i w
  put_put s s' w := Function.update_idem s' s w

/-- What a program sees that uses a component alone. -/
def Host.viewing (view : τ → σ) (d : Host τ) : Host σ := ⟨view d.world, d.registry⟩

/-- What becomes of the larger state in that program. -/
def Host.putting (put : σ → τ → τ) (d' : Host σ) (d : Host τ) : Host τ :=
  ⟨put d'.world d.world, d'.registry⟩

theorem Component.host (L : Component view put) :
    Component (Host.viewing view) (Host.putting put) where
  view_put d' d := by rw [Host.viewing, Host.putting, L.view_put]
  put_view d := by rw [Host.viewing, Host.putting, L.put_view]
  put_put d' d'' d := by rw [Host.putting, Host.putting, Host.putting, L.put_put]

namespace Action

theorem zoom_pure (L : Component view put) (a : α) :
    (Pure.pure a : Action σ ε α).zoom view put = Pure.pure a := by
  funext t
  show (Outcome.done a, put (view t) t) = (Outcome.done a, t)
  rw [L.put_view]

theorem zoom_fail (L : Component view put) (e : ε) :
    (fail e : Action σ ε α).zoom view put = fail e := by
  funext t
  show (Outcome.failed e, put (view t) t) = (Outcome.failed e, t)
  rw [L.put_view]

theorem zoom_ofExcept (L : Component view put) (r : Except ε α) :
    (ofExcept r : Action σ ε α).zoom view put = ofExcept r := by
  funext t
  show (Outcome.ofExcept r, put (view t) t) = (Outcome.ofExcept r, t)
  rw [L.put_view]

theorem zoom_ask (L : Component view put) (g : σ → α) :
    (ask g : Action σ ε α).zoom view put = ask fun t => g (view t) := by
  funext t
  show (Outcome.done (g (view t)), put (view t) t) = (Outcome.done (g (view t)), t)
  rw [L.put_view]

theorem zoom_update (g : σ → σ) :
    (update g : Action σ ε Unit).zoom view put = update fun t => put (g (view t)) t := rfl

theorem zoom_mapCause (f : ε → δ) (x : Action σ ε α) :
    (x.mapCause f).zoom view put = (x.zoom view put).mapCause f := rfl

/-- A sequence on a component is a sequence of calls on it. -/
theorem zoom_bind (L : Component view put) (x : Action σ ε α) (f : α → Action σ ε β) :
    (x >>= f).zoom view put = x.zoom view put >>= fun a => (f a).zoom view put := by
  funext t
  rcases hx : x (view t) with ⟨a | e | _, s⟩
  · have hzoom : x.zoom view put t = (.done a, put s t) := by rw [zoom, hx]
    rw [bind_done hzoom, zoom, zoom, bind_done hx, L.view_put, L.put_put]
  · have hzoom : x.zoom view put t = (.failed e, put s t) := by rw [zoom, hx]
    rw [bind_failed hzoom, zoom, bind_failed hx]
  · have hzoom : x.zoom view put t = (.unwound, put s t) := by rw [zoom, hx]
    rw [bind_unwound hzoom, zoom, bind_unwound hx]

theorem zoom_map (f : α → β) (x : Action σ ε α) :
    (f <$> x).zoom view put = f <$> x.zoom view put := by
  funext t
  simp [zoom]

theorem zoom_recover (f : ε → α) (x : Action σ ε α) :
    (x.recover f).zoom view put = (x.zoom view put).recover f := by
  funext t
  rcases hx : x (view t) with ⟨a | e | _, s⟩ <;> simp [zoom, recover, hx]

theorem zoom_thenAlways (L : Component view put) (x : Action σ ε α) (last : Action σ Empty Unit) :
    (x.thenAlways last).zoom view put = (x.zoom view put).thenAlways (last.zoom view put) := by
  funext t
  unfold zoom thenAlways
  dsimp only
  rw [L.view_put]
  rcases last (x (view t)).2 with ⟨⟨⟩ | ⟨⟨⟩⟩ | _, s⟩
  · show _ = (_, put s (put _ t))
    rw [L.put_put]
  · show _ = (_, put s (put _ t))
    rw [L.put_put]

end Action

/-- Access to a clipboard in a component. -/
def Handle.zoom (view : τ → σ) (put : σ → τ → τ) (h : Handle σ) : Handle τ :=
  ⟨h.backend.zoom view put, h.isOpen⟩

theorem Host.on_zoom (x : Action σ ε α) :
    Host.on (x.zoom view put) = (Host.on x).zoom (Host.viewing view) (Host.putting put) := rfl

namespace Backend

theorem resolve_zoom (L : Component view put) (b : Backend σ) (kind : Kind) :
    (b.zoom view put).resolve kind =
      (b.resolve kind).zoom (Host.viewing view) (Host.putting put) := by
  unfold resolve
  rw [Action.zoom_bind L.host, Action.zoom_ask L.host]
  refine congrArg (bind _) (funext fun kept => ?_)
  cases kept with
  | some formats => exact (Action.zoom_pure L.host formats).symm
  | none =>
      dsimp only
      rw [Action.zoom_bind L.host]
      refine congrArg (bind _) (funext fun formats => ?_)
      by_cases hempty : formats.isEmpty = true
      · rw [if_pos hempty, if_pos hempty, Action.zoom_fail L.host]
        rfl
      · rw [if_neg hempty, if_neg hempty, Action.zoom_bind L.host]
        have hkeep : (fun d : Host τ => (⟨put (view d.world) d.world,
            d.registry.keep b.name kind formats⟩ : Host τ)) =
              fun d => { d with registry := d.registry.keep b.name kind formats } := by
          funext d
          rw [L.put_view]
        simp only [Action.zoom_pure L.host, Action.zoom_update, Host.viewing, Host.putting]
        rw [hkeep]
        rfl

theorem openingFrom_zoom (L : Component view put) (b : Backend σ) (p : Policy) (n left : Nat)
    (t : τ) :
    (b.zoom view put).openingFrom p n left t =
      ((b.openingFrom p n left (view t)).1, put (b.openingFrom p n left (view t)).2 t) := by
  have hacq : ∀ t, (b.zoom view put).acquire t =
      ((b.acquire (view t)).1, put (b.acquire (view t)).2 t) := fun _ => rfl
  induction left generalizing n t with
  | zero => rfl
  | succ left ih =>
      rw [openingFrom, openingFrom, hacq]
      rcases b.acquire (view t) with ⟨a | e | _, s⟩
      · rfl
      · cases e with
        | busy reason =>
            dsimp only
            rw [ih, L.view_put, L.put_put]
        | _ => rfl
      · rfl

theorem openHandle_zoom (L : Component view put) (b : Backend σ) (p : Policy) :
    (b.zoom view put).openHandle p =
      Handle.zoom view put <$> (b.openHandle p).zoom (Host.viewing view) (Host.putting put) := by
  funext d
  rw [Action.map_apply]
  rcases hrun : b.openingFrom p 1 (p.tries - 1) (view d.world) with ⟨⟨n, pauses, a | e | _⟩, s⟩ <;>
    simp [openHandle, opening, Host.viewing, Host.putting, Action.zoom, openingFrom_zoom L, hrun,
      Handle.zoom]

end Backend

namespace Handle

theorem close_zoom (L : Component view put) (h : Handle σ) :
    (h.zoom view put).close =
      Handle.zoom view put <$> h.close.zoom (Host.viewing view) (Host.putting put) := by
  unfold Handle.close
  by_cases hopen : h.isOpen = true
  · have hopen' : (h.zoom view put).isOpen = true := hopen
    rw [if_pos hopen, if_pos hopen', Action.zoom_bind L.host, map_bind, ← Host.on_zoom]
    refine congrArg (bind _) (funext fun _ => ?_)
    rw [Action.zoom_pure L.host, map_pure]
    rfl
  · have hopen' : ¬ (h.zoom view put).isOpen = true := hopen
    rw [if_neg hopen, if_neg hopen', Action.zoom_pure L.host, map_pure]

theorem dispose_zoom (L : Component view put) (h : Handle σ) :
    (h.zoom view put).dispose = h.dispose.zoom (Host.viewing view) (Host.putting put) := by
  unfold dispose
  rw [close_zoom L, Action.zoom_bind L.host, bind_map_left]
  refine congrArg (bind _) (funext fun _ => ?_)
  rw [Action.zoom_pure L.host]

theorem ensureOpen_zoom (L : Component view put) (h : Handle σ) :
    (h.zoom view put).ensureOpen = h.ensureOpen.zoom (Host.viewing view) (Host.putting put) := by
  unfold ensureOpen
  by_cases hopen : h.isOpen = true
  · have hopen' : (h.zoom view put).isOpen = true := hopen
    rw [if_pos hopen, if_pos hopen', Action.zoom_pure L.host]
  · have hopen' : ¬ (h.zoom view put).isOpen = true := hopen
    rw [if_neg hopen, if_neg hopen', Action.zoom_fail L.host]

theorem formatsToRead_zoom (L : Component view put) (h : Handle σ) (kind : Kind) :
    (h.zoom view put).formatsToRead kind =
      (h.formatsToRead kind).zoom (Host.viewing view) (Host.putting put) :=
  congrArg (Action.mapCause AccessError.ofReading) (Backend.resolve_zoom L h.backend kind)

theorem formatsToWrite_zoom (L : Component view put) (h : Handle σ) (kind : Kind) :
    (h.zoom view put).formatsToWrite kind =
      (h.formatsToWrite kind).zoom (Host.viewing view) (Host.putting put) :=
  congrArg (Action.mapCause AccessError.ofWriting) (Backend.resolve_zoom L h.backend kind)

theorem pick_zoom (h : Handle σ) (formats : List Format) :
    (h.zoom view put).pick formats =
      (h.pick formats).zoom (Host.viewing view) (Host.putting put) := rfl

theorem offers_zoom (L : Component view put) (h : Handle σ) (kind : Kind) :
    (h.zoom view put).offers kind =
      (h.offers kind).zoom (Host.viewing view) (Host.putting put) := by
  simp only [offers, Action.zoom_bind L.host, Action.zoom_pure L.host, ensureOpen_zoom L,
    formatsToRead_zoom L, pick_zoom]

theorem read_zoom (L : Component view put) (h : Handle σ) (kind : Kind) :
    (h.zoom view put).read kind = (h.read kind).zoom (Host.viewing view) (Host.putting put) := by
  simp only [read, Action.zoom_bind L.host, ensureOpen_zoom L, formatsToRead_zoom L, pick_zoom]
  refine congrArg (bind _) (funext fun _ => congrArg (bind _) (funext fun formats =>
    congrArg (bind _) (funext fun found => ?_)))
  cases found with
  | none => exact (Action.zoom_fail L.host _).symm
  | some f =>
      dsimp only
      rw [Action.zoom_bind L.host, Action.zoom_mapCause, ← Host.on_zoom]
      refine congrArg (bind _) (funext fun given => ?_)
      cases given with
      | none => exact (Action.zoom_fail L.host _).symm
      | some payload => exact (Action.zoom_pure L.host _).symm

theorem readText_zoom (L : Component view put) (h : Handle σ) :
    (h.zoom view put).readText = h.readText.zoom (Host.viewing view) (Host.putting put) := by
  simp only [readText, Action.zoom_bind L.host, read_zoom L, Action.zoom_ofExcept L.host]
  rfl

theorem hasText_zoom (L : Component view put) (h : Handle σ) :
    (h.zoom view put).hasText = h.hasText.zoom (Host.viewing view) (Host.putting put) := by
  simp only [hasText, Action.zoom_recover, Action.zoom_bind L.host, offers_zoom L]
  refine congrArg (Action.recover _) (congrArg (bind _) (funext fun offered => ?_))
  cases offered with
  | false => exact (Action.zoom_pure L.host false).symm
  | true =>
      rw [if_pos rfl, if_pos rfl, Action.zoom_bind L.host, readText_zoom L]
      exact congrArg (bind _) (funext fun _ => (Action.zoom_pure L.host true).symm)

theorem store_zoom (L : Component view put) (h : Handle σ) (items : List (Format × Payload)) :
    (h.zoom view put).store items =
      (h.store items).zoom (Host.viewing view) (Host.putting put) := by
  unfold store
  by_cases hempty : items.isEmpty = true
  · rw [if_pos hempty, if_pos hempty, Action.zoom_fail L.host]
    rfl
  · rw [if_neg hempty, if_neg hempty]
    rfl

theorem write_zoom (L : Component view put) (h : Handle σ) (kind : Kind) (bytes : Octets) :
    (h.zoom view put).write kind bytes =
      (h.write kind bytes).zoom (Host.viewing view) (Host.putting put) := by
  simp only [write, Action.zoom_bind L.host, ensureOpen_zoom L, formatsToWrite_zoom L, store_zoom L]

theorem writeText_zoom (L : Component view put) (h : Handle σ) (text : String) :
    (h.zoom view put).writeText text =
      (h.writeText text).zoom (Host.viewing view) (Host.putting put) := by
  simp only [writeText, Action.zoom_bind L.host, ensureOpen_zoom L, formatsToWrite_zoom L,
    Action.zoom_ofExcept L.host, store_zoom L]
  rfl

theorem clear_zoom (L : Component view put) (h : Handle σ) :
    (h.zoom view put).clear = h.clear.zoom (Host.viewing view) (Host.putting put) := by
  simp only [clear, Action.zoom_bind L.host, ensureOpen_zoom L]
  rfl

end Handle

namespace Board

/-- A clipboard in a component. -/
def zoom (view : τ → σ) (put : σ → τ → τ) (c : Board σ) : Board τ :=
  ⟨c.backend.zoom view put, c.policy⟩

/-- A session in the larger state is one on the component. -/
theorem session_zoom (L : Component view put) (c : Board σ)
    {body : Handle σ → Action (Host σ) AccessError α}
    {body' : Handle τ → Action (Host τ) AccessError α}
    (hbody : ∀ h, body' (h.zoom view put) = (body h).zoom (Host.viewing view) (Host.putting put)) :
    (c.zoom view put).session body' =
      (c.session body).zoom (Host.viewing view) (Host.putting put) := by
  unfold session
  rw [Action.zoom_bind L.host]
  show ((c.backend.zoom view put).openHandle c.policy >>= _) = _
  rw [Backend.openHandle_zoom L, bind_map_left]
  refine congrArg (bind _) (funext fun h => ?_)
  rw [hbody, Handle.dispose_zoom L, Action.zoom_thenAlways L.host]

theorem setText_zoom (L : Component view put) (c : Board σ) (text : String) :
    (c.zoom view put).setText text = (c.setText text).zoom (Host.viewing view) (Host.putting put) :=
  session_zoom L c fun h => Handle.writeText_zoom L h text

theorem getText_zoom (L : Component view put) (c : Board σ) :
    (c.zoom view put).getText = c.getText.zoom (Host.viewing view) (Host.putting put) :=
  session_zoom L c fun h => Handle.readText_zoom L h

theorem hasText_zoom (L : Component view put) (c : Board σ) :
    (c.zoom view put).hasText = c.hasText.zoom (Host.viewing view) (Host.putting put) := by
  rw [hasText, hasText, Action.zoom_recover, session_zoom L c fun h => Handle.hasText_zoom L h]

theorem setContents_zoom (L : Component view put) (c : Board σ) (kind : Kind) (bytes : Octets) :
    (c.zoom view put).setContents kind bytes =
      (c.setContents kind bytes).zoom (Host.viewing view) (Host.putting put) :=
  session_zoom L c fun h => Handle.write_zoom L h kind bytes

theorem getContents_zoom (L : Component view put) (c : Board σ) (kind : Kind) :
    (c.zoom view put).getContents kind =
      (c.getContents kind).zoom (Host.viewing view) (Host.putting put) := by
  refine session_zoom L c fun h => ?_
  rw [Handle.read_zoom L, Action.zoom_bind L.host]
  exact congrArg (bind _) (funext fun p => (Action.zoom_pure L.host p.bytes).symm)

theorem clear_zoom (L : Component view put) (c : Board σ) :
    (c.zoom view put).clear = c.clear.zoom (Host.viewing view) (Host.putting put) :=
  session_zoom L c fun h => Handle.clear_zoom L h

end Board

/-- An operation in the larger state is one on the component. -/
theorem Operation.perform_zoom (L : Component view put) (c : Board σ) (op : Operation) :
    op.perform (c.zoom view put) =
      (op.perform c).zoom (Host.viewing view) (Host.putting put) := by
  cases op <;> simp only [perform, Action.zoom_map, Board.setText_zoom L, Board.getText_zoom L,
    Board.hasText_zoom L, Board.setContents_zoom L, Board.getContents_zoom L, Board.clear_zoom L]

end Clipboard
