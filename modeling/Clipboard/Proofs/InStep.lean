import Clipboard.Proofs.Session.Halves
import Clipboard.Proofs.Session.Operations

/-!
# Backends in step

Two backends may keep different states and answer alike all the same, such as a backend
and the one that keeps a record of it besides, or one backend in two runs that differ in what
does not concern it.  If every call on the one comes to what it comes to on the other, as long
as the programs that use them are related, and leaves related programs behind, then so does
every session.

* `InStep.bind` and those around it: what sequences of calls in step come to;
* `Backend.Follows.session`: a session on one backend goes as it does on the other;
* `Backend.Follows.getText`, `Backend.Follows.hasText`: so does reading text, and asking for it;
* `Backend.Shadows.perform`: and so does every operation, if writing and clearing do;
* `Backend.InStep.follows`: backends whose states alone are related.
-/

namespace Clipboard

variable {σ τ ε δ α β : Type} {R : σ → τ → Prop}

/-- Two calls that come to the same from related states, and leave related states behind. -/
def Action.InStep (R : σ → τ → Prop) (x : Action σ ε α) (y : Action τ ε α) : Prop :=
  ∀ s t, R s t → (x s).1 = (y t).1 ∧ R (x s).2 (y t).2

namespace Action

variable {x : Action σ ε α} {y : Action τ ε α} {f : α → Action σ ε β} {g : α → Action τ ε β}

theorem inStep_pure (a : α) : InStep R (Pure.pure a : Action σ ε α) (Pure.pure a) :=
  fun _ _ h => ⟨rfl, h⟩

theorem inStep_fail (e : ε) : InStep R (fail e : Action σ ε α) (fail e) :=
  fun _ _ h => ⟨rfl, h⟩

theorem inStep_ofExcept (r : Except ε α) :
    InStep R (ofExcept r : Action σ ε α) (ofExcept r) := fun _ _ h => ⟨rfl, h⟩

theorem inStep_ask {k : σ → α} {l : τ → α} (h : ∀ {s t}, R s t → k s = l t) :
    InStep R (ask k : Action σ ε α) (ask l) :=
  fun _ _ hst => ⟨congrArg Outcome.done (h hst), hst⟩

theorem inStep_update {k : σ → σ} {l : τ → τ} (h : ∀ {s t}, R s t → R (k s) (l t)) :
    InStep R (update k : Action σ ε Unit) (update l) :=
  fun _ _ hst => ⟨rfl, h hst⟩

/-- Sequences go in step if their first calls do, and whatever comes after. -/
theorem InStep.bind (hx : InStep R x y) (hf : ∀ a, InStep R (f a) (g a)) :
    InStep R (x >>= f) (y >>= g) := by
  intro s t hst
  obtain ⟨hsame, hrel⟩ := hx s t hst
  rw [bind_apply, bind_apply]
  rcases hrun : x s with ⟨a | e | _, s'⟩ <;> rcases hrun' : y t with ⟨a' | e' | _, t'⟩ <;>
    rw [hrun, hrun'] at hsame hrel <;> cases hsame
  · exact hf a s' t' hrel
  · exact ⟨rfl, hrel⟩
  · exact ⟨rfl, hrel⟩

theorem InStep.map (hx : InStep R x y) (k : α → β) : InStep R (k <$> x) (k <$> y) := by
  intro s t hst
  obtain ⟨hsame, hrel⟩ := hx s t hst
  rw [map_apply, map_apply, hsame]
  exact ⟨rfl, hrel⟩

theorem InStep.mapCause (hx : InStep R x y) (k : ε → δ) :
    InStep R (x.mapCause k) (y.mapCause k) := fun s t hst =>
  ⟨congrArg (Outcome.mapCause k) (hx s t hst).1, (hx s t hst).2⟩

theorem InStep.recover (hx : InStep R x y) (k : ε → α) :
    InStep R (x.recover k) (y.recover k) := by
  intro s t hst
  obtain ⟨hsame, hrel⟩ := hx s t hst
  unfold Action.recover
  rcases hrun : x s with ⟨a | e | _, s'⟩ <;> rcases hrun' : y t with ⟨a' | e' | _, t'⟩ <;>
    rw [hrun, hrun'] at hsame hrel <;> cases hsame <;> exact ⟨rfl, hrel⟩

theorem InStep.thenAlways {last : Action σ Empty Unit} {last' : Action τ Empty Unit}
    (hx : InStep R x y) (hlast : InStep R last last') :
    InStep R (x.thenAlways last) (y.thenAlways last') := by
  intro s t hst
  obtain ⟨hsame, hrel⟩ := hx s t hst
  obtain ⟨hend, hrel'⟩ := hlast _ _ hrel
  rcases hrun : last (x s).2 with ⟨_ | e | _, s'⟩ <;>
    rcases hrun' : last' (y t).2 with ⟨_ | e' | _, t'⟩ <;>
    rw [hrun, hrun'] at hend hrel' <;> cases hend
  · rw [thenAlways_done hrun, thenAlways_done hrun']
    exact ⟨hsame, hrel'⟩
  · exact e.elim
  · rw [thenAlways_unwound hrun, thenAlways_unwound hrun']
    exact ⟨rfl, hrel'⟩

end Action

open Action

/-- Programs with related states that remember the same formats. -/
def Host.Related (R : σ → τ → Prop) (d : Host σ) (d' : Host τ) : Prop :=
  R d.world d'.world ∧ d.registry = d'.registry

theorem Host.inStep_on {x : Action σ ε α} {y : Action τ ε α} (h : Action.InStep R x y) :
    Action.InStep (Related R) (on x) (on y) := fun _ _ hd =>
  ⟨(h _ _ hd.1).1, (h _ _ hd.1).2, hd.2⟩

section Taking

variable {Q : Host σ → Host τ → Prop} {h : Handle σ} {h' : Handle τ}

/-- Content is taken in step if the backends are read in step. -/
theorem inStep_fetch (hread : ∀ f,
      Action.InStep Q (Host.on (h.backend.read f)) (Host.on (h'.backend.read f)))
    (kind : Kind) (found : Option Format) :
    Action.InStep Q (h.fetch kind found) (h'.fetch kind found) := by
  cases found with
  | none => exact inStep_fail _
  | some f =>
      refine ((hread f).mapCause _).bind fun given => ?_
      cases given with
      | none => exact inStep_fail _
      | some payload => exact inStep_pure payload

theorem inStep_fetchText (hconvention : h.backend.convention = h'.backend.convention)
    (hread : ∀ f, Action.InStep Q (Host.on (h.backend.read f)) (Host.on (h'.backend.read f)))
    (found : Option Format) :
    Action.InStep Q (h.fetchText found) (h'.fetchText found) := by
  refine (inStep_fetch hread .text found).bind fun payload => ?_
  rw [hconvention]
  exact inStep_ofExcept _

end Taking

/-- Two backends that nobody can tell apart who reads content of a kind, as long as the
programs that use them are related. -/
structure Backend.Follows (Q : Host σ → Host τ → Prop) (kind : Kind) (b : Backend σ)
    (b' : Backend τ) : Prop where
  convention : b.convention = b'.convention
  acquire : Action.InStep Q (Host.on b.acquire) (Host.on b'.acquire)
  release : Action.InStep Q (Host.on b.release) (Host.on b'.release)
  resolve : Action.InStep Q (b.resolve kind) (b'.resolve kind)
  pick : ∀ formats, Action.InStep Q (Host.on (b.pick formats)) (Host.on (b'.pick formats))
  read : ∀ f, Action.InStep Q (Host.on (b.read f)) (Host.on (b'.read f))

namespace Backend.Follows

variable {Q : Host σ → Host τ → Prop} {b : Backend σ} {b' : Backend τ} {kind : Kind}

theorem openingFrom (h : Follows Q kind b b') (p : Policy) (left : Nat) (n : Nat)
    {d : Host σ} {d' : Host τ} (hd : Q d d') :
    (b.openingFrom p n left d.world).1 = (b'.openingFrom p n left d'.world).1 ∧
      Q { d with world := (b.openingFrom p n left d.world).2 }
        { d' with world := (b'.openingFrom p n left d'.world).2 } := by
  induction left generalizing n d d' with
  | zero =>
      obtain ⟨hsame, hrel⟩ := h.acquire d d' hd
      rw [Host.on_apply, Host.on_apply] at hsame hrel
      rw [Backend.openingFrom, Backend.openingFrom, hsame]
      exact ⟨rfl, hrel⟩
  | succ left ih =>
      obtain ⟨hsame, hrel⟩ := h.acquire d d' hd
      rw [Host.on_apply, Host.on_apply] at hsame hrel
      rw [Backend.openingFrom, Backend.openingFrom]
      rcases hrun : b.acquire d.world with ⟨a | e | _, w⟩ <;>
        rcases hrun' : b'.acquire d'.world with ⟨a' | e' | _, w'⟩ <;>
        rw [hrun, hrun'] at hsame hrel <;> cases hsame
      · exact ⟨rfl, hrel⟩
      · cases e with
        | busy reason =>
            obtain ⟨hopening, hrel'⟩ := ih (n + 1) hrel
            dsimp only at hopening hrel' ⊢
            rw [hopening]
            exact ⟨rfl, hrel'⟩
        | _ => exact ⟨rfl, hrel⟩
      · exact ⟨rfl, hrel⟩

/-- Letting go of a handle goes in step. -/
theorem dispose (h : Follows Q kind b b') (isOpen : Bool) :
    Action.InStep Q (⟨b, isOpen⟩ : Handle σ).dispose (⟨b', isOpen⟩ : Handle τ).dispose := by
  cases isOpen with
  | false => exact fun _ _ hd => ⟨rfl, hd⟩
  | true =>
      rw [Handle.dispose_open, Handle.dispose_open]
      exact h.release

/-- A session on one backend goes as it does on the other. -/
theorem session (h : Follows Q kind b b') (p : Policy)
    {body : Handle σ → Action (Host σ) AccessError α}
    {body' : Handle τ → Action (Host τ) AccessError α}
    (hbody : Action.InStep Q (body ⟨b, true⟩) (body' ⟨b', true⟩)) :
    Action.InStep Q ((⟨b, p⟩ : Board σ).session body) ((⟨b', p⟩ : Board τ).session body') := by
  intro d d' hd
  obtain ⟨hsame, hrel⟩ := h.openingFrom p (p.tries - 1) 1 hd
  rw [Board.session, Board.session, bind_apply, bind_apply]
  unfold Backend.openHandle Backend.opening
  rcases hrun : b.openingFrom p 1 (p.tries - 1) d.world with ⟨⟨n, pauses, last⟩, w⟩
  rcases hrun' : b'.openingFrom p 1 (p.tries - 1) d'.world with ⟨⟨n', pauses', last'⟩, w'⟩
  rw [hrun, hrun'] at hsame hrel
  cases hsame
  cases last with
  | done _ => exact hbody.thenAlways (h.dispose true) _ _ hrel
  | failed f => exact ⟨rfl, hrel⟩
  | unwound => exact ⟨rfl, hrel⟩

theorem search (h : Follows Q kind b b') :
    Action.InStep Q ((⟨b, true⟩ : Handle σ).search kind)
      ((⟨b', true⟩ : Handle τ).search kind) :=
  (inStep_pure ()).bind fun _ => (h.resolve.mapCause _).bind fun formats =>
    (h.pick formats).mapCause _

theorem offers (h : Follows Q kind b b') :
    Action.InStep Q ((⟨b, true⟩ : Handle σ).offers kind)
      ((⟨b', true⟩ : Handle τ).offers kind) := by
  rw [Handle.offers_eq, Handle.offers_eq]
  exact h.search.bind fun _ => inStep_pure _

theorem readKind (h : Follows Q kind b b') :
    Action.InStep Q ((⟨b, true⟩ : Handle σ).read kind) ((⟨b', true⟩ : Handle τ).read kind) := by
  rw [Handle.read_eq, Handle.read_eq]
  exact h.search.bind (inStep_fetch h.read kind)

theorem readText (h : Follows Q .text b b') :
    Action.InStep Q (⟨b, true⟩ : Handle σ).readText (⟨b', true⟩ : Handle τ).readText := by
  rw [Handle.readText_eq, Handle.readText_eq]
  exact h.search.bind (inStep_fetchText h.convention h.read)

/-- Reading text comes to the same on either backend. -/
theorem getText (h : Follows Q .text b b') (p : Policy) :
    Action.InStep Q (⟨b, p⟩ : Board σ).getText (⟨b', p⟩ : Board τ).getText :=
  h.session p h.readText

/-- So does asking for it. -/
theorem hasText (h : Follows Q .text b b') (p : Policy) :
    Action.InStep Q (⟨b, p⟩ : Board σ).hasText (⟨b', p⟩ : Board τ).hasText := by
  refine (h.session p (InStep.recover (h.offers.bind fun offered => ?_) _)).recover _
  cases offered with
  | false => exact inStep_pure false
  | true => exact h.readText.bind fun _ => inStep_pure true

theorem getContents (h : Follows Q kind b b') (p : Policy) :
    Action.InStep Q ((⟨b, p⟩ : Board σ).getContents kind)
      ((⟨b', p⟩ : Board τ).getContents kind) :=
  h.session p (h.readKind.bind fun _ => inStep_pure _)

end Backend.Follows

/-- Two backends that nobody can tell apart who uses them in any way. -/
structure Backend.Shadows (Q : Host σ → Host τ → Prop) (b : Backend σ) (b' : Backend τ) :
    Prop where
  name : b.name = b'.name
  follows : ∀ kind, Follows Q kind b b'
  write : ∀ items, Action.InStep Q (Host.on (b.write items)) (Host.on (b'.write items))
  clear : Action.InStep Q (Host.on b.clear) (Host.on b'.clear)

namespace Backend.Shadows

variable {Q : Host σ → Host τ → Prop} {b : Backend σ} {b' : Backend τ}

theorem store (h : Shadows Q b b') (items : List (Format × Payload)) :
    Action.InStep Q ((⟨b, true⟩ : Handle σ).store items)
      ((⟨b', true⟩ : Handle τ).store items) := by
  unfold Handle.store
  by_cases hempty : items.isEmpty = true
  · rw [if_pos hempty, if_pos hempty, Handle.nothingWritable, Handle.nothingWritable, h.name]
    exact inStep_fail _
  · rw [if_neg hempty, if_neg hempty]
    exact (h.write items).mapCause _

theorem writeOctets (h : Shadows Q b b') (kind : Kind) (bytes : Octets) :
    Action.InStep Q ((⟨b, true⟩ : Handle σ).write kind bytes)
      ((⟨b', true⟩ : Handle τ).write kind bytes) :=
  (inStep_pure ()).bind fun _ => ((h.follows kind).resolve.mapCause _).bind fun _ => h.store _

theorem writeText (h : Shadows Q b b') (text : String) :
    Action.InStep Q ((⟨b, true⟩ : Handle σ).writeText text)
      ((⟨b', true⟩ : Handle τ).writeText text) := by
  refine (inStep_pure ()).bind fun _ => ((h.follows .text).resolve.mapCause _).bind
    fun formats => ?_
  dsimp only
  rw [(h.follows .text).convention]
  exact (inStep_ofExcept _).bind h.store

theorem clearAll (h : Shadows Q b b') :
    Action.InStep Q (⟨b, true⟩ : Handle σ).clear (⟨b', true⟩ : Handle τ).clear :=
  (inStep_pure ()).bind fun _ => h.clear.mapCause _

/-- Every operation comes to the same on either backend. -/
theorem perform (h : Shadows Q b b') (p : Policy) (op : Operation) :
    Action.InStep Q (op.perform ⟨b, p⟩) (op.perform ⟨b', p⟩) := by
  cases op with
  | setText text => exact ((h.follows .text).session p (h.writeText text)).map _
  | getText => exact ((h.follows .text).getText p).map _
  | hasText => exact ((h.follows .text).hasText p).map _
  | setContents kind bytes => exact ((h.follows kind).session p (h.writeOctets kind bytes)).map _
  | getContents kind => exact ((h.follows kind).getContents p).map _
  | clear => exact ((h.follows .text).session p h.clearAll).map _

end Backend.Shadows

/-- Two backends that nobody can tell apart who reads content of a kind, as long as their
states are related. -/
structure Backend.InStep (R : σ → τ → Prop) (kind : Kind) (b : Backend σ) (b' : Backend τ) :
    Prop where
  name : b.name = b'.name
  convention : b.convention = b'.convention
  acquire : Action.InStep R b.acquire b'.acquire
  release : Action.InStep R b.release b'.release
  formatsFor : Action.InStep R (b.formatsFor kind) (b'.formatsFor kind)
  pick : ∀ formats, Action.InStep R (b.pick formats) (b'.pick formats)
  read : ∀ f, Action.InStep R (b.read f) (b'.read f)

namespace Backend.InStep

variable {b : Backend σ} {b' : Backend τ} {kind : Kind}

theorem resolve (h : InStep R kind b b') :
    Action.InStep (Host.Related R) (b.resolve kind) (b'.resolve kind) := by
  have hkept : Action.InStep (Host.Related R)
      (ask fun d => d.registry.find? b.name kind : Action (Host σ) Failure _)
      (ask fun d => d.registry.find? b'.name kind) := by
    refine inStep_ask fun hd => ?_
    rw [h.name, hd.2]
  refine hkept.bind fun kept => ?_
  cases kept with
  | some formats => exact inStep_pure formats
  | none =>
      refine (Host.inStep_on h.formatsFor).bind fun formats => ?_
      rw [noFormat, noFormat, h.name]
      by_cases hempty : formats.isEmpty = true
      · rw [if_pos hempty, if_pos hempty]
        exact inStep_fail _
      · rw [if_neg hempty, if_neg hempty]
        refine InStep.bind (inStep_update fun hd => ⟨hd.1, ?_⟩) fun _ => inStep_pure formats
        dsimp only
        rw [hd.2]

/-- The programs that use them are then related too, if they remember the same formats. -/
theorem follows (h : InStep R kind b b') : Follows (Host.Related R) kind b b' where
  convention := h.convention
  acquire := Host.inStep_on h.acquire
  release := Host.inStep_on h.release
  resolve := h.resolve
  pick formats := Host.inStep_on (h.pick formats)
  read f := Host.inStep_on (h.read f)

theorem getText (h : InStep R .text b b') (p : Policy) :
    Action.InStep (Host.Related R) (⟨b, p⟩ : Board σ).getText (⟨b', p⟩ : Board τ).getText :=
  h.follows.getText p

theorem hasText (h : InStep R .text b b') (p : Policy) :
    Action.InStep (Host.Related R) (⟨b, p⟩ : Board σ).hasText (⟨b', p⟩ : Board τ).hasText :=
  h.follows.hasText p

end Backend.InStep

end Clipboard
