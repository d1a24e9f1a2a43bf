import Clipboard.InMemory
import Clipboard.Proofs.InStep
import Clipboard.Proofs.Session.Looking
import Clipboard.Proofs.Session.Resolving

/-!
# Asking for text and reading it

Whether there is text is found out by looking for a format of text and then reading, which
looks for one once more.  On a backend whose answers are not changed by reading, the second
look finds what the first has found, and the answer is yes exactly if the text could have
been read.  On any other backend the second look may find something else; still the answer
is yes only on the strength of text that has been read.

* `search_again`: a second search finds the same;
* `hasText_readText`: so asking and reading agree, within one session;
* `hasText_spec`: and as a whole.
-/

namespace Clipboard

open Action

variable {σ τ : Type}

/-- A backend that reading leaves as it is: what it finds, what it reads and how it is
released depend on a part of its state that neither finding nor reading changes. -/
structure Backend.Undisturbed (b : Backend σ) (view : σ → τ) : Prop where
  view_pick : ∀ formats s, view (b.pick formats s).2 = view s
  view_read : ∀ f s, view (b.read f s).2 = view s
  pick_eq : ∀ formats s t, view s = view t → (b.pick formats s).1 = (b.pick formats t).1
  read_eq : ∀ f s t, view s = view t → (b.read f s).1 = (b.read f t).1
  release_eq : ∀ s t, view s = view t → (b.release s).1 = (b.release t).1

/-- A call that is asked whether it answers. -/
theorem Action.answered_iff {ε α : Type} (x : Action σ ε α) (s : σ) :
    (recover (fun _ => false) ((fun _ => true) <$> x) s).1 = .done true ↔
      ∃ a, (x s).1 = .done a := by
  unfold recover
  rw [map_apply]
  rcases x s with ⟨a | e | _, s'⟩ <;> simp

/-- A call whose failures are a no. -/
theorem Action.recover_eq_true {ε : Type} (x : Action σ ε Bool) (s : σ) :
    (recover (fun _ => false) x s).1 = .done true ↔ (x s).1 = .done true := by
  unfold recover
  rcases x s with ⟨a | e | _, s'⟩ <;> simp

/-! ## Backends that reading leaves as they are -/

namespace Backend.Undisturbed

variable {b : Backend σ} {view : σ → τ} {d d' : Host σ}

/-- Programs that a reading cannot tell apart. -/
abbrev Alike (view : σ → τ) : Host σ → Host σ → Prop :=
  Host.Related fun s t => view s = view t

/-- A second search finds the same as the first. -/
theorem search_again (hb : b.Undisturbed view) {kind : Kind} {found : Option Format}
    (h : (⟨b, true⟩ : Handle σ).search kind d = (.done found, d')) :
    ∃ d'', (⟨b, true⟩ : Handle σ).search kind d' = (.done found, d'') ∧ Alike view d' d'' := by
  obtain ⟨formats, d₁, hresolve, hpick⟩ := bind_eq_done
    (show ((⟨b, true⟩ : Handle σ).formatsToRead kind >>= (⟨b, true⟩ : Handle σ).pick) d = _ from h)
  have hkept := remembered_of_resolve (mapCause_eq_done hresolve)
  have hpicked := mapCause_eq_done hpick
  have hstate : d' = { d₁ with world := (b.pick formats d₁.world).2 } :=
    (congrArg Prod.snd hpicked).symm
  subst hstate
  have hview := hb.view_pick formats d₁.world
  set w := (b.pick formats d₁.world).2
  refine ⟨⟨(b.pick formats w).2, d₁.registry⟩, ?_, (hb.view_pick formats w).symm, rfl⟩
  have hresolve' : (⟨b, true⟩ : Handle σ).formatsToRead kind ⟨w, d₁.registry⟩ =
      (.done formats, ⟨w, d₁.registry⟩) := mapCause_of_done (resolve_of_find? hkept)
  have hagain : (b.pick formats w).1 = .done found := by
    rw [hb.pick_eq formats _ _ hview]
    exact congrArg Prod.fst hpicked
  show ((⟨b, true⟩ : Handle σ).formatsToRead kind >>= (⟨b, true⟩ : Handle σ).pick) _ = _
  rw [bind_done hresolve']
  exact mapCause_of_done (Prod.ext hagain rfl)

/-- What is taken in a format is the same wherever a reading cannot tell apart. -/
theorem fetchText_inStep (hb : b.Undisturbed view) (found : Option Format) :
    Action.InStep (Alike view) ((⟨b, true⟩ : Handle σ).fetchText found)
      ((⟨b, true⟩ : Handle σ).fetchText found) := by
  refine inStep_fetchText rfl (fun f => Host.inStep_on fun s t hst => ?_) found
  exact ⟨hb.read_eq f s t hst, (hb.view_read f s).trans (hst.trans (hb.view_read f t).symm)⟩

/-- Asking for text comes to yes exactly if reading it comes to a text. -/
theorem hasText_readText (hb : b.Undisturbed view) (d : Host σ) :
    let asked := (⟨b, true⟩ : Handle σ).hasText d
    let text := (⟨b, true⟩ : Handle σ).readText d
    (asked.1 = .done true ↔ ∃ t, text.1 = .done t) ∧ view asked.2.world = view text.2.world := by
  rw [Handle.hasText_apply, Handle.readText_eq, bind_apply]
  rcases hsearch : (⟨b, true⟩ : Handle σ).search .text d with ⟨(_ | f) | e | _, d'⟩
  · exact ⟨iff_of_false (by simp) fun ⟨_, h⟩ => (by cases h), rfl⟩
  · obtain ⟨d'', hagain, halike⟩ := hb.search_again hsearch
    obtain ⟨hsame, hview, -⟩ := hb.fetchText_inStep (some f) d' d'' halike
    dsimp only
    rw [answered_iff, recover_snd, map_snd, bind_done hagain, hsame, hview]
    exact ⟨Iff.rfl, rfl⟩
  · exact ⟨iff_of_false (by simp) fun ⟨_, h⟩ => (by cases h), rfl⟩
  · exact ⟨iff_of_false (by simp) fun ⟨_, h⟩ => (by cases h), rfl⟩

/-- A clipboard says that there is text exactly if the text could have been read instead. -/
theorem hasText_iff (hb : b.Undisturbed view) (p : Policy) (d : Host σ) :
    ((⟨b, p⟩ : Board σ).hasText d).1 = .done true ↔
      ∃ text, ((⟨b, p⟩ : Board σ).getText d).1 = .done text := by
  unfold Board.hasText Board.getText
  rw [recover_eq_true, Board.session, Board.session, bind_apply, bind_apply]
  rcases hopen : b.openHandle p d with ⟨h | e | _, d'⟩
  · obtain rfl := Backend.handle_of_openHandle hopen
    obtain ⟨hiff, hview⟩ := hb.hasText_readText d'
    have hrelease := hb.release_eq _ _ hview
    simp only [thenAlways_eq_done, Handle.dispose_open, Host.on_apply]
    rw [hrelease, hiff, exists_and_right]
  · simp
  · simp

end Backend.Undisturbed

/-- A backend whose state neither finding nor reading changes is left as it is. -/
theorem Backend.undisturbed_of_snd {b : Backend σ} (hpick : ∀ formats s, (b.pick formats s).2 = s)
    (hread : ∀ f s, (b.read f s).2 = s) : b.Undisturbed fun s => s where
  view_pick := hpick
  view_read := hread
  pick_eq formats _ _ h := congrArg (fun s => (b.pick formats s).1) h
  read_eq f _ _ h := congrArg (fun s => (b.read f s).1) h
  release_eq _ _ h := congrArg (fun s => (b.release s).1) h

theorem Memory.whileOpen_snd {α : Type} (f : Memory → α) (m : Memory) :
    (whileOpen (fun m => (f m, m)) m).2 = m := by
  unfold whileOpen
  split <;> rfl

/-- Probing leaves the state as it is if no question changes it. -/
theorem probe_snd {offers : Format.Id → Action σ Failure Bool}
    (h : ∀ id s, (offers id s).2 = s) (formats : List Format) (s : σ) :
    (probe offers formats s).2 = s := by
  induction formats with
  | nil => rfl
  | cons f rest ih =>
      have hkept := h f.id s
      rw [probe_cons]
      rcases hrun : offers f.id s with ⟨(_ | _) | e | _, s'⟩ <;> rw [hrun] at hkept <;>
        dsimp only at hkept ⊢ <;> subst hkept
      · exact ih
      · rfl
      · rfl
      · rfl

/-- Reading leaves a clipboard in memory as it is. -/
theorem Memory.backend_undisturbed (layout : MemoryLayout) :
    (Memory.backend layout).Undisturbed fun m => m :=
  Backend.undisturbed_of_snd (probe_snd fun _ => whileOpen_snd _) fun _ => whileOpen_snd _

/-! ## Any backend -/

/-- A reading of a backend: the format, and what it came to. -/
abbrev Taking : Type := Format × Outcome Failure (Option Payload)

/-- The backend that keeps a record of its readings, the latest last. -/
def Backend.recorded (b : Backend σ) : Backend (σ × List Taking) :=
  { b.zoom Prod.fst (fun s t => (s, t.2)) with
    read := fun f s =>
      ((b.read f s.1).1, ((b.read f s.1).2, s.2 ++ [(f, (b.read f s.1).1)])) }

namespace Backend

variable (b : Backend σ) {d d' : Host (σ × List Taking)}

/-- Keeping the record changes nothing else. -/
theorem recorded_inStep (kind : Kind) :
    Backend.InStep (fun s t => s.1 = t) kind b.recorded b where
  name := rfl
  convention := rfl
  acquire _ _ h := h ▸ ⟨rfl, rfl⟩
  release _ _ h := h ▸ ⟨rfl, rfl⟩
  formatsFor _ _ h := h ▸ ⟨rfl, rfl⟩
  pick _ _ _ h := h ▸ ⟨rfl, rfl⟩
  read _ _ _ h := h ▸ ⟨rfl, rfl⟩

/-- What is in the record stays there. -/
theorem recorded_looks (t : Taking) :
    Looks b.recorded fun d d' => t ∈ d.world.2 → t ∈ d'.world.2 where
  bounds := Bounds.keeping fun d : Host (σ × List Taking) => t ∈ d.world.2
  acquire _ h := h
  release _ h := h
  resolve := confined_resolve (Bounds.keeping fun d : Host (σ × List Taking) => t ∈ d.world.2)
    (fun _ _ h => h) fun _ _ h => h
  pick _ _ h := h
  read _ _ h := List.mem_append_left _ h

/-- Content that has been read is in the record. -/
theorem exists_taking_of_read {kind : Kind} {payload : Payload}
    (h : (⟨b.recorded, true⟩ : Handle _).read kind d = (.done payload, d')) :
    ∃ f, (f, .done (some payload)) ∈ d'.world.2 := by
  rw [Handle.read_eq] at h
  obtain ⟨found, d₁, -, hfetch⟩ := bind_eq_done h
  cases found with
  | none => cases hfetch
  | some f =>
      obtain ⟨given, d₂, hgiven, hthere⟩ := bind_eq_done hfetch
      cases given with
      | none => cases hthere
      | some payload' =>
          cases hthere
          have hread := (Host.on_eq_done (mapCause_eq_done hgiven)).1
          have hgave : (b.read f d₁.world.1).1 = .done (some payload) := congrArg Prod.fst hread
          have hnoted : d'.world.2 = d₁.world.2 ++ [(f, .done (some payload))] := by
            rw [← hgave]
            exact (congrArg (·.2.2) hread).symm
          rw [hnoted]
          exact ⟨f, List.mem_append_right _ (List.mem_singleton_self _)⟩

/-- Text that has been read is in the record. -/
theorem exists_taking_of_readText {text : String}
    (h : (⟨b.recorded, true⟩ : Handle _).readText d = (.done text, d')) :
    ∃ f payload, (f, .done (some payload)) ∈ d'.world.2 ∧
      payload.text b.convention = .ok text := by
  obtain ⟨payload, d₁, hread, hspelt⟩ := bind_eq_done h
  obtain ⟨htext, rfl⟩ := ofExcept_eq_done hspelt
  obtain ⟨f, hf⟩ := b.exists_taking_of_read hread
  have hspells : (payload.text b.convention).mapError AccessError.ofText = .ok text := htext
  refine ⟨f, payload, hf, ?_⟩
  cases hresult : payload.text b.convention <;> rw [hresult] at hspells <;> cases hspells
  rfl

/-- If there is said to be text, some that has been read is in the record. -/
theorem exists_taking_of_hasText (p : Policy)
    (h : ((⟨b.recorded, p⟩ : Board _).hasText d).1 = .done true) :
    ∃ f payload text,
      (f, .done (some payload)) ∈ ((⟨b.recorded, p⟩ : Board _).hasText d).2.world.2 ∧
      payload.text b.convention = .ok text := by
  unfold Board.hasText at h ⊢
  rw [recover_eq_true, Board.session, bind_apply] at h
  rw [recover_snd, Board.session, bind_apply]
  rcases hopen : b.recorded.openHandle p d with ⟨g | e | _, d₁⟩ <;> rw [hopen] at h
  · obtain rfl := Backend.handle_of_openHandle hopen
    obtain ⟨hyes, -⟩ := thenAlways_eq_done.mp h
    dsimp only
    rw [thenAlways_snd]
    rw [Handle.hasText_apply] at hyes ⊢
    rcases hsearch : (⟨b.recorded, true⟩ : Handle _).search .text d₁ with
      ⟨(_ | f) | e | _, d₂⟩ <;> rw [hsearch] at hyes
    · cases hyes
    · obtain ⟨text, htext⟩ := (answered_iff _ _).mp hyes
      obtain ⟨f, payload, hmem, hspells⟩ :=
        b.exists_taking_of_readText (Prod.ext_iff.mpr ⟨htext, rfl⟩)
      refine ⟨f, payload, text, (b.recorded_looks _).dispose true _ ?_, hspells⟩
      rw [recover_snd, map_snd]
      exact hmem
    · cases hyes
    · cases hyes
  · cases h
  · cases h

end Backend

/-- **Text is said to be there if it can be read.**  On a backend that reading leaves as it
is, whatever else it does, a clipboard says that there is text exactly if the text could have
been read instead, whichever way that may go wrong.  On any backend, however its answers
change from call to call, no failure is handed on, and there is said to be text only if
content was read in that very call that spells a text; keeping a record of the readings makes
no difference. -/
theorem hasText_spec (b : Backend σ) (p : Policy) (d : Host σ) :
    let asked := (⟨b, p⟩ : Board σ).hasText d
    let recorded := (⟨b.recorded, p⟩ : Board _).hasText ⟨(d.world, []), d.registry⟩
    (∀ {τ : Type} (view : σ → τ), b.Undisturbed view →
      (asked.1 = .done true ↔ ∃ text, ((⟨b, p⟩ : Board σ).getText d).1 = .done text)) ∧
    (∀ e, asked.1 ≠ .failed e) ∧
    recorded.1 = asked.1 ∧
    (asked.1 = .done true → ∃ f payload text, (f, .done (some payload)) ∈ recorded.2.world.2 ∧
      payload.text b.convention = .ok text) := by
  intro asked recorded
  have hsame : recorded.1 = asked.1 :=
    ((b.recorded_inStep .text).hasText p ⟨(d.world, []), d.registry⟩ d ⟨rfl, rfl⟩).1
  exact ⟨fun view hb => hb.hasText_iff p d, recover_ne_failed _ _ d, hsame,
    fun hyes => b.exists_taking_of_hasText p (hsame.trans hyes)⟩

/-- Text in memory is there; half a unit of text is not. -/
theorem hasText_spec_memory :
    let c : Board Memory := ⟨Memory.backend .windows, {}⟩
    let whole : Host Memory := ⟨{ entries := [(.number 13, [0xE9, 0, 0, 0])] }, {}⟩
    let half : Host Memory := ⟨{ entries := [(.number 13, [0xE9])] }, {}⟩
    ((c.hasText whole).1 = .done true ∧ ∃ text, (c.getText whole).1 = .done text) ∧
      (c.hasText half).1 = .done false ∧ ¬ ∃ text, (c.getText half).1 = .done text := by
  intro c whole half
  have hwhole := (hasText_spec (Memory.backend .windows) {} whole).1 _
    (Memory.backend_undisturbed .windows)
  have hhalf := (hasText_spec (Memory.backend .windows) {} half).1 _
    (Memory.backend_undisturbed .windows)
  have hyes : (c.hasText whole).1 = .done true := by decide +kernel
  have hno : (c.hasText half).1 = .done false := by decide +kernel
  refine ⟨⟨hyes, hwhole.mp hyes⟩, hno, fun htext => ?_⟩
  have hyes' := hhalf.mpr htext
  rw [hno] at hyes'
  cases hyes'

end Clipboard
