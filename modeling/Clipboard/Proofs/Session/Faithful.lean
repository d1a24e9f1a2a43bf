import Clipboard.Rehearsal
import Clipboard.Proofs.Session.Access
import Clipboard.Proofs.Session.Items
import Clipboard.Proofs.Session.Resolving
import Clipboard.Proofs.Text.RoundTrip

/-!
# Faithful backends

A backend is faithful if it never fails and keeps what is written: writing puts
entries in the place of all that was there, and looking for a format and reading
it go to the first entry with its identifier.

* `resolve_text`: a faithful backend gives its formats of text, remembered or not;
* `session`: what the body of a session does to the entries is what the session
  does;
* `leaves_read`: reading content of any kind changes no entry.
-/

namespace Clipboard

variable {σ α ε : Type}

/-- Content as a faithful backend keeps it. -/
abbrev Entries : Type := List (Format.Id × Payload)

namespace Entries

/-- The first entry of a format. -/
def stored? (entries : Entries) (id : Format.Id) : Option Payload :=
  (entries.find? fun e => e.1 = id).map (·.2)

/-- The entries that items make. -/
def ofItems (items : List (Format × Payload)) : Entries := items.map fun i => (i.1.id, i.2)

end Entries

/-- What a read gives of an entry, if there is one: its octets, noted down with
the encoding that they were written in or with that of the format asked for. -/
def ReadsAs (f : Format) (stored : Option Payload) (given : Option Payload) : Prop :=
  match stored with
  | none => given = none
  | some p => given = some p ∨ given = some ⟨p.bytes, f.encoding⟩

/-- How a backend that never fails keeps content, with `formats` for text. -/
structure Faithful (b : Backend σ) (formats : List Format) where
  /-- The backend, open or not, has these entries. -/
  Keeps : (isOpen : Bool) → σ → Entries → Prop
  acquire : ∀ {s entries}, Keeps false s entries →
    ∃ s', b.acquire s = (.done (), s') ∧ Keeps true s' entries
  release : ∀ {s entries}, Keeps true s entries →
    ∃ s', b.release s = (.done (), s') ∧ Keeps false s' entries
  formatsFor_text : ∀ {s entries}, Keeps true s entries →
    ∃ s', b.formatsFor .text s = (.done formats, s') ∧ Keeps true s' entries
  formatsFor_custom : ∀ {s entries} (name : String), Keeps true s entries →
    ∃ others s', b.formatsFor (.custom name) s = (.done others, s') ∧ Keeps true s' entries
  /-- As `probe_of_offers` has it for a backend that asks about each format in turn. -/
  pick : ∀ {s entries} (among : List Format), Keeps true s entries →
    ∃ s', b.pick among s = (.done (among.find? fun f => (entries.stored? f.id).isSome), s') ∧
      Keeps true s' entries
  read : ∀ {s entries} (f : Format), Keeps true s entries →
    ∃ given s', b.read f s = (.done given, s') ∧ ReadsAs f (entries.stored? f.id) given ∧
      Keeps true s' entries
  write : ∀ {s entries} (items : List (Format × Payload)), Keeps true s entries →
    ∃ s', b.write items s = (.done (), s') ∧ Keeps true s' (.ofItems items)

/-- A backend that asks about one format after the other picks as a faithful one
does. -/
theorem probe_of_offers {offers : Format.Id → Action σ Failure Bool} {entries : Entries}
    {P : σ → Prop}
    (h : ∀ id s, P s → ∃ s', offers id s = (.done (entries.stored? id).isSome, s') ∧ P s')
    (among : List Format) {s : σ} (hs : P s) :
    ∃ s', probe offers among s =
      (.done (among.find? fun f => (entries.stored? f.id).isSome), s') ∧ P s' := by
  induction among generalizing s with
  | nil => exact ⟨s, rfl, hs⟩
  | cons f rest ih =>
      obtain ⟨s', hoffers, hs'⟩ := h f.id s hs
      rw [probe_cons, hoffers]
      cases hf : (entries.stored? f.id).isSome with
      | true => exact ⟨s', by simp [hf], hs'⟩
      | false =>
          obtain ⟨s'', hprobe, hs''⟩ := ih hs'
          exact ⟨s'', by simp [hf, hprobe], hs''⟩

namespace Faithful

variable {b : Backend σ} {formats : List Format} (F : Faithful b formats)

/-- A program whose backend keeps these entries, and which remembers no other
formats of text under its name. -/
def Holds (isOpen : Bool) (d : Host σ) (entries : Entries) : Prop :=
  F.Keeps isOpen d.world entries ∧
    ∀ kept, d.registry.find? b.name .text = some kept → kept = formats

variable {F} {d : Host σ} {entries : Entries}

/-- A call on the backend that answers, with what is kept afterwards. -/
theorem Holds.on {isOpen : Bool} {x : Action σ ε α} {a : α} {w : σ} {isOpen' : Bool}
    {entries' : Entries} (hd : F.Holds isOpen d entries) (hx : x d.world = (.done a, w))
    (hw : F.Keeps isOpen' w entries') :
    Host.on x d = (.done a, { d with world := w }) ∧
      F.Holds isOpen' { d with world := w } entries' :=
  ⟨by rw [Host.on_apply, hx], hw, hd.2⟩

/-- The formats of text are those of the backend, unless it has none. -/
theorem resolve_text (hd : F.Holds true d entries) :
    ∃ o d', b.resolve .text d = (o, d') ∧ F.Holds true d' entries ∧
      (o = .done formats ∨ formats = [] ∧ ∃ e, o = .failed e) := by
  cases hfind : d.registry.find? b.name .text with
  | some kept =>
      obtain rfl := hd.2 kept hfind
      exact ⟨_, d, Backend.resolve_of_find? hfind, hd, .inl rfl⟩
  | none =>
      obtain ⟨w, hasked, hw⟩ := F.formatsFor_text hd.1
      by_cases hne : formats = []
      · subst hne
        exact ⟨_, _, Backend.resolve_of_empty hfind hasked, ⟨hw, hd.2⟩, .inr ⟨rfl, _, rfl⟩⟩
      · refine ⟨_, _, Backend.resolve_of_formats hfind hasked hne, ⟨hw, ?_⟩, .inl rfl⟩
        intro kept hkept
        rw [Registry.find?_keep_self hfind] at hkept
        exact (Option.some.inj hkept).symm

theorem resolve_keeps (hd : F.Holds true d entries) (kind : Kind) :
    F.Holds true (b.resolve kind d).2 entries := by
  cases kind with
  | text =>
      obtain ⟨o, d', hres, hd', -⟩ := resolve_text hd
      rw [hres]
      exact hd'
  | custom name =>
      cases hfind : d.registry.find? b.name (.custom name) with
      | some kept =>
          rw [Backend.resolve_of_find? hfind]
          exact hd
      | none =>
          obtain ⟨others, w, hasked, hw⟩ := F.formatsFor_custom name hd.1
          by_cases hne : others = []
          · subst hne
            rw [Backend.resolve_of_empty hfind hasked]
            exact ⟨hw, hd.2⟩
          · rw [Backend.resolve_of_formats hfind hasked hne]
            refine ⟨hw, fun kept hkept => hd.2 kept ?_⟩
            rwa [Registry.find?_keep_of_ne (by simp)] at hkept

/-- A session on a free clipboard leaves it free, and what its body does to the
entries is what the session does. -/
theorem session (p : Policy) (body : Handle σ → Action (Host σ) AccessError α)
    (R : Outcome AccessError α → Entries → Prop) (hd : F.Holds false d entries)
    (hbody : ∀ d₁, F.Holds true d₁ entries → ∃ o d₂ entries', body ⟨b, true⟩ d₁ = (o, d₂) ∧
      F.Holds true d₂ entries' ∧ R o entries') :
    ∃ o d' entries', (⟨b, p⟩ : Board σ).session body d = (o, d') ∧
      F.Holds false d' entries' ∧ R o entries' := by
  obtain ⟨w₁, hacq, hw₁⟩ := F.acquire hd.1
  obtain ⟨o, d₂, entries', hrun, hd₂, hR⟩ := hbody { d with world := w₁ } ⟨hw₁, hd.2⟩
  obtain ⟨w₃, hrel, hw₃⟩ := F.release hd₂.1
  have hopen := Backend.openHandle_of_acquire hacq p
  exact ⟨o, _, entries', Board.session_of_open hopen hrun hrel, ⟨hw₃, hd₂.2⟩, hR⟩

/-- A session whose body answers without a change to the entries does so too. -/
theorem session_done (p : Policy) (body : Handle σ → Action (Host σ) AccessError α) {a : α}
    (hd : F.Holds false d entries)
    (hbody : ∀ d₁, F.Holds true d₁ entries → ∃ d₂, body ⟨b, true⟩ d₁ = (.done a, d₂) ∧
      F.Holds true d₂ entries) :
    ∃ d', (⟨b, p⟩ : Board σ).session body d = (.done a, d') ∧ F.Holds false d' entries := by
  have hrun : ∀ d₁, F.Holds true d₁ entries → ∃ o d₂ entries', body ⟨b, true⟩ d₁ = (o, d₂) ∧
      F.Holds true d₂ entries' ∧ o = .done a ∧ entries' = entries := by
    intro d₁ hd₁
    obtain ⟨d₂, hdone, hd₂⟩ := hbody d₁ hd₁
    exact ⟨_, d₂, entries, hdone, hd₂, rfl, rfl⟩
  obtain ⟨o, d', entries', hsession, hd', rfl, rfl⟩ := session p body _ hd hrun
  exact ⟨d', hsession, hd'⟩

/-- A call that changes no entry, whatever it comes to. -/
def Leaves (F : Faithful b formats) (x : Action (Host σ) ε α) (entries : Entries) : Prop :=
  ∀ d, F.Holds true d entries → F.Holds true (x d).2 entries

section Leaves

variable {β : Type} {x : Action (Host σ) ε α} {f : α → Action (Host σ) ε β}

theorem leaves_pure (a : α) : F.Leaves (pure a : Action (Host σ) ε α) entries := fun _ hd => hd

theorem leaves_fail (e : ε) : F.Leaves (.fail e : Action (Host σ) ε α) entries := fun _ hd => hd

theorem leaves_ofExcept (r : Except ε α) : F.Leaves (.ofExcept r) entries := fun _ hd => hd

theorem leaves_bind (hx : F.Leaves x entries) (hf : ∀ a, F.Leaves (f a) entries) :
    F.Leaves (x >>= f) entries := by
  intro d hd
  have hd' := hx d hd
  rw [Action.bind_apply]
  rcases hrun : x d with ⟨a | e | _, d'⟩ <;> rw [hrun] at hd'
  · exact hf a d' hd'
  · exact hd'
  · exact hd'

theorem leaves_mapCause {δ : Type} (g : ε → δ) (hx : F.Leaves x entries) :
    F.Leaves (x.mapCause g) entries := fun d hd => hx d hd

theorem leaves_recover (g : ε → α) (hx : F.Leaves x entries) : F.Leaves (x.recover g) entries := by
  intro d hd
  rw [Action.recover_snd]
  exact hx d hd

end Leaves

theorem leaves_formatsToRead (kind : Kind) :
    F.Leaves ((⟨b, true⟩ : Handle σ).formatsToRead kind) entries :=
  leaves_mapCause _ fun _ hd => resolve_keeps hd kind

theorem leaves_pick (among : List Format) :
    F.Leaves ((⟨b, true⟩ : Handle σ).pick among) entries := by
  refine leaves_mapCause _ fun d hd => ?_
  obtain ⟨w, hpick, hw⟩ := F.pick among hd.1
  obtain ⟨hon, hd'⟩ := hd.on hpick hw
  rw [hon]
  exact hd'

theorem leaves_take (f : Format) :
    F.Leaves ((Host.on (b.read f)).mapCause AccessError.ofReading) entries := by
  refine leaves_mapCause _ fun d hd => ?_
  obtain ⟨given, w, hread, _, hw⟩ := F.read f hd.1
  obtain ⟨hon, hd'⟩ := hd.on hread hw
  rw [hon]
  exact hd'

theorem leaves_offers (kind : Kind) :
    F.Leaves ((⟨b, true⟩ : Handle σ).offers kind) entries :=
  leaves_bind (leaves_pure ()) fun _ => leaves_bind (leaves_formatsToRead kind) fun among =>
    leaves_bind (leaves_pick among) fun _ => leaves_pure _

/-- Reading content of any kind changes no entry. -/
theorem leaves_read (kind : Kind) :
    F.Leaves ((⟨b, true⟩ : Handle σ).read kind) entries := by
  refine leaves_bind (leaves_pure ()) fun _ => leaves_bind (leaves_formatsToRead kind)
    fun among => leaves_bind (leaves_pick among) fun found => ?_
  cases found with
  | none => exact leaves_fail _
  | some f =>
      refine leaves_bind (leaves_take f) fun given => ?_
      cases given with
      | none => exact leaves_fail _
      | some payload => exact leaves_pure payload

theorem leaves_readText : F.Leaves ((⟨b, true⟩ : Handle σ).readText) entries :=
  leaves_bind (leaves_read .text) fun _ => leaves_ofExcept _

theorem leaves_hasText : F.Leaves ((⟨b, true⟩ : Handle σ).hasText) entries := by
  refine leaves_recover _ (leaves_bind (leaves_offers .text) fun offered => ?_)
  cases offered with
  | false => exact leaves_pure false
  | true => exact leaves_bind leaves_readText fun _ => leaves_pure true

theorem session_leaves (p : Policy) (body : Handle σ → Action (Host σ) AccessError α)
    (hd : F.Holds false d entries) (hbody : F.Leaves (body ⟨b, true⟩) entries) :
    F.Holds false ((⟨b, p⟩ : Board σ).session body d).2 entries := by
  have hsame : ∀ d₁, F.Holds true d₁ entries → ∃ o d₂ entries', body ⟨b, true⟩ d₁ = (o, d₂) ∧
      F.Holds true d₂ entries' ∧ entries' = entries :=
    fun d₁ hd₁ => ⟨_, _, entries, rfl, hbody d₁ hd₁, rfl⟩
  obtain ⟨o, d', entries', hrun, hd', rfl⟩ :=
    session p body (fun _ after => after = entries) hd hsame
  rw [hrun]
  exact hd'

end Faithful

end Clipboard
