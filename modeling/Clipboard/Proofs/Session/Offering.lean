import Clipboard.Trace
import Clipboard.Proofs.Session.Access
import Clipboard.Proofs.Session.Items
import Clipboard.Proofs.Session.Resolving

/-!
# All that is written, or nothing

Before anything is handed to a backend, its formats are asked for and the items of all of
them are drawn up.  Text goes into every format that takes text, in order, and octets into
every format that can be written.  If one of the items cannot be drawn up, or if there are
none, the backend is left alone; otherwise it is given all of them in one call.

* `encodeEach_of_refused`, `encodeEach_of_taken`: a text is drawn up in full, or the first
  refusal is told;
* `handing_of_done`, `handing_of_error`, `handing_of_ok`: what handing over comes to, for items
  drawn up in any way;
* `writeText_offers`: so for text and for octets.
-/

namespace Clipboard

open Action

variable {σ : Type}

/-- Why a format cannot hold a text, if it cannot. -/
def Format.refusal? (text : String) (convention : Convention) (f : Format) : Option TextFault :=
  match Payload.ofText text f.encoding convention with
  | .error fault => some fault
  | .ok _ => none

/-- The items of a backend that notes down its calls, handed over in one of them. -/
def Backend.handOver (b : Backend σ) (items : List (Format × Payload)) :
    Action (Host (σ × List Call)) AccessError Unit := fun d =>
  let written := b.write items d.world.1
  (written.1.mapCause .ofWriting, ⟨(written.2, d.world.2 ++ [.write items]), d.registry⟩)

namespace Handle

variable {text : String} {convention : Convention} {formats : List Format}

theorem ofText_of_refusal {f : Format} :
    f.refusal? text convention = none ↔
      ∃ p, Payload.ofText text f.encoding convention = .ok p := by
  unfold Format.refusal?
  cases Payload.ofText text f.encoding convention <;> simp

/-- The first format that refuses a text decides. -/
theorem encodeEach_of_refused {fault : TextFault}
    (h : formats.findSome? (·.refusal? text convention) = some fault) :
    encodeEach text convention formats = .error fault := by
  induction formats with
  | nil => cases h
  | cons f rest ih =>
      rw [List.findSome?_cons] at h
      rw [encodeEach]
      unfold Format.refusal? at h
      cases hf : Payload.ofText text f.encoding convention with
      | error fault' =>
          rw [hf] at h
          cases h
          rfl
      | ok p =>
          rw [hf] at h
          dsimp only at h ⊢
          rw [ih h]
          rfl

/-- A text that no format refuses is drawn up in each of them. -/
theorem encodeEach_of_taken (h : formats.findSome? (·.refusal? text convention) = none) :
    ∃ items, encodeEach text convention formats = .ok items ∧ items.map (·.1) = formats ∧
      ∀ i ∈ items, Payload.ofText text i.1.encoding convention = .ok i.2 := by
  have htaken : ∀ f ∈ formats, ∃ p, Payload.ofText text f.encoding convention = .ok p :=
    fun f hf => ofText_of_refusal.mp (List.findSome?_eq_none_iff.mp h f hf)
  obtain ⟨items, hitems⟩ := encodeEach_iff.mpr htaken
  exact ⟨items, hitems, map_fst_of_encodeEach hitems, ofText_of_encodeEach hitems⟩

/-- Handing over the items that are drawn up for the formats of a kind. -/
def handing (h : Handle σ) (kind : Kind)
    (draft : List Format → Except AccessError (List (Format × Payload))) :
    Action (Host σ) AccessError Unit := do
  h.ensureOpen
  let formats ← h.formatsToWrite kind
  let items ← Action.ofExcept (draft formats)
  h.store items

theorem write_eq (h : Handle σ) (kind : Kind) (bytes : Octets) :
    h.write kind bytes = h.handing kind fun formats => .ok (itemsOfOctets bytes formats) := rfl

theorem writeText_eq (h : Handle σ) (text : String) :
    h.writeText text = h.handing .text fun formats =>
      (itemsOfText text h.backend.convention formats).mapError .ofText := rfl

/-- Items that are drawn up for the formats of their kind are put on the clipboard. -/
theorem handing_of_done {b : Backend σ} {kind : Kind} {d d₁ : Host σ}
    {draft : List Format → Except AccessError (List (Format × Payload))}
    {items : List (Format × Payload)} (h : b.resolve kind d = (.done formats, d₁))
    (hdraft : draft formats = .ok items) :
    (⟨b, true⟩ : Handle σ).handing kind draft d = (⟨b, true⟩ : Handle σ).store items d₁ := by
  rw [handing, ensureOpen_of_open, pure_bind, formatsToWrite, bind_done (mapCause_of_done h),
    hdraft]
  rfl

section Handing

variable {b : Backend σ} {kind : Kind} {d d₁ : Host (σ × List Call)}
  {draft : List Format → Except AccessError (List (Format × Payload))}

theorem handing_of_failed {e : Failure} (h : b.traced.resolve kind d = (.failed e, d₁)) :
    (⟨b.traced, true⟩ : Handle _).handing kind draft d =
      (.failed (.writeFailed e.message), d₁) :=
  bind_failed (mapCause_of_failed h) _

theorem handing_of_unwound (h : b.traced.resolve kind d = (.unwound, d₁)) :
    (⟨b.traced, true⟩ : Handle _).handing kind draft d = (.unwound, d₁) := by
  have hasked : (⟨b.traced, true⟩ : Handle _).formatsToWrite kind d = (.unwound, d₁) := by
    rw [formatsToWrite, mapCause_apply, h]
    rfl
  exact bind_unwound hasked _

/-- Nothing is handed over of items that cannot be drawn up. -/
theorem handing_of_error {e : AccessError} (h : b.traced.resolve kind d = (.done formats, d₁))
    (hdraft : draft formats = .error e) :
    (⟨b.traced, true⟩ : Handle _).handing kind draft d = (.failed e, d₁) := by
  rw [handing, ensureOpen_of_open, pure_bind, formatsToWrite, bind_done (mapCause_of_done h),
    hdraft]
  rfl

/-- Items that are drawn up are handed over together. -/
theorem handing_of_ok {items : List (Format × Payload)}
    (h : b.traced.resolve kind d = (.done formats, d₁)) (hdraft : draft formats = .ok items) :
    (⟨b.traced, true⟩ : Handle _).handing kind draft d =
      if items = [] then
        (.failed (.writeFailed (b.name ++ " backend offers no writable format")), d₁)
      else b.handOver items d₁ := by
  rw [handing, ensureOpen_of_open, pure_bind, formatsToWrite, bind_done (mapCause_of_done h),
    hdraft]
  cases items <;> rfl

end Handing

end Handle

/-- **All formats are written or none.**  Whatever a backend names as the formats of text, and
whatever it makes of what is written: it is asked for these formats at most, and then it is
given, in one call, the text in each of the formats that can be written and carry text, in
their order and each in its own encoding, or nothing at all, if there is no such format, if
one of them refuses the text, of which the first tells why, or if asking for them fails.
Formats that are only read, or carry no text, play no part.  Octets go unchanged into every
format that can be written. -/
theorem writeText_offers (b : Backend σ) (text : String) (bytes : Octets)
    (d : Host (σ × List Call)) :
    let h : Handle (σ × List Call) := ⟨b.traced, true⟩
    let shut : Handle (σ × List Call) := ⟨b.traced, false⟩
    let offered (formats : List Format) :=
      formats.filter fun f => f.writable && f.encoding != .opaqueData
    let nothing (d₁ : Host (σ × List Call)) : Outcome AccessError Unit × Host (σ × List Call) :=
      (.failed (.writeFailed (b.name ++ " backend offers no writable format")), d₁)
    (∀ kind, (b.traced.resolve kind d).2.world.2 = d.world.2 ∨
      (b.traced.resolve kind d).2.world.2 = d.world.2 ++ [.formatsFor kind]) ∧
    (match b.traced.resolve .text d with
      | (.failed e, d₁) => h.writeText text d = (.failed (.writeFailed e.message), d₁)
      | (.unwound, d₁) => h.writeText text d = (.unwound, d₁)
      | (.done formats, d₁) =>
        match (offered formats).findSome? (·.refusal? text b.convention) with
        | some fault => h.writeText text d = (.failed (.badEncoding fault.message), d₁)
        | none => ∃ items : List (Format × Payload), items.map (·.1) = offered formats ∧
            (∀ i ∈ items, Payload.ofText text i.1.encoding b.convention = .ok i.2) ∧
            h.writeText text d = if items = [] then nothing d₁ else b.handOver items d₁) ∧
    (∀ kind, match b.traced.resolve kind d with
      | (.failed e, d₁) => h.write kind bytes d = (.failed (.writeFailed e.message), d₁)
      | (.unwound, d₁) => h.write kind bytes d = (.unwound, d₁)
      | (.done formats, d₁) =>
        let items := (formats.filter (·.writable)).map fun f => (f, ⟨bytes, f.encoding⟩)
        h.write kind bytes d = if items = [] then nothing d₁ else b.handOver items d₁) ∧
    shut.writeText text d = (.failed .closed, d) ∧
    ∀ kind, shut.write kind bytes d = (.failed .closed, d) := by
  intro h shut offered nothing
  refine ⟨fun kind => ?_, ?_, fun kind => ?_, rfl, fun kind => rfl⟩
  · rcases Backend.world_resolve b.traced kind d with hworld | hworld <;> rw [hworld]
    · exact .inl rfl
    · exact .inr rfl
  · rw [Handle.writeText_eq]
    rcases hasked : b.traced.resolve .text d with ⟨formats | e | _, d₁⟩
    · dsimp only
      split
      · next fault hfault =>
          refine Handle.handing_of_error hasked ?_
          show (Handle.encodeEach text b.convention (offered formats)).mapError _ = _
          rw [Handle.encodeEach_of_refused hfault]
          rfl
      · next htaken =>
          obtain ⟨items, hitems, hformats, hencoded⟩ := Handle.encodeEach_of_taken htaken
          refine ⟨items, hformats, hencoded, Handle.handing_of_ok hasked ?_⟩
          show (Handle.encodeEach text b.convention (offered formats)).mapError _ = _
          rw [hitems]
          rfl
    · exact Handle.handing_of_failed hasked
    · exact Handle.handing_of_unwound hasked
  · rw [Handle.write_eq]
    rcases hasked : b.traced.resolve kind d with ⟨formats | e | _, d₁⟩
    · exact Handle.handing_of_ok hasked rfl
    · exact Handle.handing_of_failed hasked
    · exact Handle.handing_of_unwound hasked

end Clipboard
