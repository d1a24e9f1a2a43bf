import Clipboard.Proofs.InStep
import Clipboard.Proofs.X11.Scripts
import Clipboard.Proofs.X11.Targets

/-!
# Text in one piece and in parts

An owner may deliver its text as one value, or announce it and deliver it in parts, with an empty
one at the end.  A client that reads the text finds the same in either case, however the text is
cut, unless it is empty: then there is no part to tell the type, and what has come is not taken
for text.

* `value?_partsOf`: what the parts come to;
* `Connection.backend_inStep`: when two clients read text alike;
* `Connection.TwoWays`: an owner that is read from in two ways;
* `Connection.text_delivered`: so text may come in one piece or in parts.
-/

namespace Clipboard.X11

open Action

/-! ## Parts -/

/-- Content as the parts in which it is delivered. -/
def partsOf (type : Atom) (chunks : List Octets) : List Property :=
  chunks.map fun chunk => ⟨type, .octets chunk⟩

variable {type target : Atom} {chunks : List Octets}

theorem flatMap_partsOf (type : Atom) (chunks : List Octets) :
    (partsOf type chunks).flatMap (·.data.bytes) = chunks.flatten := by
  rw [partsOf, List.flatMap_map]
  exact List.flatMap_id

/-- The first part tells the type, and all of them make up the content. -/
theorem value?_partsOf (htype : type ≠ 0) (hne : chunks ≠ []) :
    (Tidings.parts (partsOf type chunks)).value? = some ⟨type, .octets chunks.flatten⟩ := by
  have hparts : ∀ part ∈ partsOf type chunks, part.type ≠ 0 :=
    List.forall_mem_map.mpr fun _ _ => htype
  obtain ⟨chunk, rest, rfl⟩ := List.exists_cons_of_ne_nil hne
  rw [Tidings.value?, Connection.typeAfter_zero hparts, flatMap_partsOf]
  rfl

/-- Where there is no part, nothing tells the type. -/
theorem value?_partsOf_nil (type : Atom) :
    (Tidings.parts (partsOf type [])).value? = some ⟨0, .octets []⟩ := rfl

namespace Connection

variable {σ τ : Type} {c : Connection σ} {c' : Connection τ} {R : σ → τ → Prop} {s : σ} {s' : τ}

/-! ## Two clients that read alike -/

/-- Clients that find the same targets and the same content in each of them read text alike. -/
theorem backend_inStep (hatoms : c.atoms = c'.atoms)
    (hselection : ∀ {s s'}, R s s' → c.selection s = c'.selection s')
    (htargets : InStep R c.offeredTargets c'.offeredTargets)
    (hread : ∀ a encoding, InStep R (c.readTarget a encoding) (c'.readTarget a encoding)) :
    Backend.InStep R .text c.backend c'.backend where
  name := rfl
  convention := rfl
  acquire s s' h := by
    show (if (c.selection s).alive then _ else _ : Outcome Failure Unit × σ).1 =
        (if (c'.selection s').alive then _ else _ : Outcome Failure Unit × τ).1 ∧
      R (if (c.selection s).alive then _ else _ : Outcome Failure Unit × σ).2
        (if (c'.selection s').alive then _ else _ : Outcome Failure Unit × τ).2
    rw [hselection h]
    split
    · exact ⟨rfl, h⟩
    · exact ⟨rfl, h⟩
  release := inStep_pure ()
  formatsFor := by
    show InStep R (Pure.pure c.textFormats) (Pure.pure c'.textFormats)
    rw [textFormats, textFormats, hatoms]
    exact inStep_pure _
  pick formats := htargets.bind fun _ => inStep_ofExcept _
  read f := (inStep_ofExcept _).bind fun a => (hread a f.encoding).bind fun _ => inStep_pure _

section Reading

variable (hatoms : c.atoms = c'.atoms)
  (hselection : ∀ {s s'}, R s s' → c.selection s = c'.selection s')
include hselection

theorem own_inStep : InStep R c.own c'.own := by
  refine inStep_ask fun h => ?_
  rw [hselection h]

include hatoms

/-- Clients that learn of the same owner, and have the selection converted to the same, read text
alike. -/
theorem reads_inStep (howner : InStep R c.owner c'.owner)
    (hconvert : ∀ a, InStep R (c.convert a) (c'.convert a)) :
    Backend.InStep R .text c.backend c'.backend := by
  refine backend_inStep hatoms hselection ?_ fun a encoding => ?_
  · refine (own_inStep hselection).bind fun items => ?_
    cases items with
    | some items => exact inStep_pure _
    | none =>
        refine (howner.mapCause _).bind fun w => ?_
        rw [hatoms]
        split
        · exact inStep_pure _
        · refine (hconvert _).bind fun told => ?_
          rw [show c.targetsIn told = c'.targetsIn told by unfold targetsIn; rw [hatoms]]
          exact inStep_pure _
  · refine (own_inStep hselection).bind fun items => ?_
    cases items with
    | some items => exact inStep_pure _
    | none =>
        refine (hconvert a).bind fun told => ?_
        cases told with
        | none => exact inStep_pure _
        | some v =>
            dsimp only
            rw [show c.fits a encoding v.type = c'.fits a encoding v.type by
              rw [fits, fits, hatoms]]
            exact inStep_pure _

end Reading

/-- Clients with the same content of their own read that alike, and nothing else. -/
theorem reads_inStep_of_claim {claim : Claim} (hatoms : c.atoms = c'.atoms) :
    Backend.InStep
      (fun s s' => c.selection s = c'.selection s' ∧ (c.selection s).claim = some claim)
      .text c.backend c'.backend := by
  have hown {s : σ} (h : (c.selection s).claim = some claim) :
      c.own s = (.done (some claim.items), s) := by
    rw [own_eq, h]
    rfl
  have hown' {s : σ} {s' : τ} (hsame : c.selection s = c'.selection s')
      (h : (c.selection s).claim = some claim) : c'.own s' = (.done (some claim.items), s') := by
    rw [own_eq, ← hsame, h]
    rfl
  refine backend_inStep hatoms (fun h => h.1) (fun s s' h => ?_) fun a encoding s s' h => ?_
  · rw [offeredTargets, offeredTargets, bind_done (hown h.2), bind_done (hown' h.1 h.2)]
    exact ⟨rfl, h⟩
  · rw [readTarget, readTarget, bind_done (hown h.2), bind_done (hown' h.1 h.2)]
    exact ⟨rfl, h⟩

/-! ## An owner that is read from in two ways -/

/-- Two clients read from an owner.  Asked for one of the targets, it delivers content of the type
of text in one piece to the first, and in parts to the second; asked for anything else, it does
the same for both, whatever that is. -/
structure TwoWays (c : Connection σ) (c' : Connection τ) (R : σ → τ → Prop) (target : Atom)
    (chunks : List Octets) : Prop where
  atoms : c.atoms = c'.atoms
  selection : ∀ {s s'}, R s s' → c.selection s = c'.selection s'
  owner : InStep R c.owner c'.owner
  others : ∀ a, a ≠ target → InStep R (c.convert a) (c'.convert a)
  delivers : ∀ {s s'}, R s s' → ∃ t t',
    c.Brings target (.whole ⟨c.atoms.textType target, .octets chunks.flatten⟩) s t ∧
      c'.Brings target (.parts (partsOf (c.atoms.textType target) chunks)) s' t' ∧ R t t'

namespace TwoWays

variable (h : TwoWays c c' R target chunks) (hc : c.Foresees) (hc' : c'.Foresees)
include h hc hc'

/-- What both clients have the selection converted to. -/
theorem converts (hR : R s s') :
    ∃ t t', c.convert target s =
        (.done (some ⟨c.atoms.textType target, .octets chunks.flatten⟩), t) ∧
      c'.convert target s' =
        (.done (Tidings.parts (partsOf (c.atoms.textType target) chunks)).value?, t') ∧
      R t t' := by
  obtain ⟨t, t', hwhole, hparts, hR'⟩ := h.delivers hR
  exact ⟨t, t', convert_of_brings hc hwhole, convert_of_brings hc' hparts, hR'⟩

/-- Both read text alike, as long as it is not empty. -/
theorem reads (htype : c.atoms.textType target ≠ 0) (hne : chunks ≠ []) :
    Backend.InStep R .text c.backend c'.backend := by
  refine reads_inStep h.atoms h.selection h.owner fun a s s' hR => ?_
  by_cases ha : a = target
  · subst ha
    obtain ⟨t, t', hwhole, hparts, hR'⟩ := h.converts hc hc' hR
    rw [hwhole, hparts, value?_partsOf htype hne]
    exact ⟨rfl, hR'⟩
  · exact h.others a ha s s' hR

end TwoWays

/-- **Text may come in one piece or in parts.**  Two clients that hold the same read text, or ask
whether there is any, and the owner of the selection delivers what it has in one of the targets of
text, under the type that goes with it, in one piece to the one and in parts to the other, while it
does the same for both when it is asked for anything else.  It makes no difference to them, wherever
the text is cut, as long as it is not empty.  The empty text, which comes as no part but the empty
one, is not taken for text, though in one piece it is. -/
theorem text_delivered (hc : c.Foresees) (hc' : c'.Foresees) (hapart : c.atoms.Apart)
    (htarget : target ∈ c.atoms.textTargets) (h : TwoWays c c' R target chunks)
    (hsame : c.selection s = c'.selection s') (hR : (c.selection s).claim = none → R s s')
    (r : Registry) (p : Policy) :
    (chunks ≠ [] →
      ((c.clipboard p).getText ⟨s, r⟩).1 = ((c'.clipboard p).getText ⟨s', r⟩).1 ∧
        ((c.clipboard p).hasText ⟨s, r⟩).1 = ((c'.clipboard p).hasText ⟨s', r⟩).1) ∧
    (chunks = [] → (c.selection s).claim = none →
      ∀ (encoding : Encoding) (writable : Bool), encoding ≠ .opaqueData →
        let f : Format := ⟨.number target, encoding, writable⟩
        (c.backend.read f s).1 = .done (some ⟨[], encoding⟩) ∧
          (c'.backend.read f s').1 = .done none) := by
  obtain ⟨htype, -⟩ := Atoms.textType_spec hapart htarget
  constructor
  · intro hne
    obtain ⟨Q, hQ, hreads⟩ : ∃ Q : σ → τ → Prop, Q s s' ∧
        Backend.InStep Q .text c.backend c'.backend := by
      cases hclaim : (c.selection s).claim with
      | none => exact ⟨R, hR hclaim, h.reads hc hc' htype hne⟩
      | some claim => exact ⟨_, ⟨hsame, hclaim⟩, reads_inStep_of_claim h.atoms⟩
    have hstart : Host.Related Q ⟨s, r⟩ ⟨s', r⟩ := ⟨hQ, rfl⟩
    exact ⟨(hreads.getText p _ _ hstart).1, (hreads.hasText p _ _ hstart).1⟩
  · rintro rfl hclaim encoding writable hencoding f
    obtain ⟨t, t', hwhole, hparts, -⟩ := h.converts hc hc' (hR hclaim)
    rw [value?_partsOf_nil] at hparts
    have hread : c.readTarget target encoding s = (.done (some []), t) := by
      rw [readTarget_of_unclaimed hclaim hwhole, Option.bind_some,
        if_pos ((fits_eq_true_iff hencoding).mpr rfl)]
      rfl
    have hread' : c'.readTarget target encoding s' = (.done none, t') := by
      have hnot : ¬ c'.fits target encoding 0 = true := by
        rw [fits_eq_true_iff hencoding, ← h.atoms]
        exact htype.symm
      rw [readTarget_of_unclaimed (hsame ▸ hclaim) hparts, Option.bind_some, if_neg hnot]
    exact ⟨congrArg Prod.fst (bind_done hread _), congrArg Prod.fst (bind_done hread' _)⟩

end Connection

namespace Script

variable {atoms : Atoms} {tell tell' : Atom → Tidings}

/-- Owners that answer at once, and differ only in how they deliver one of the targets. -/
theorem teller_twoWays (hplace : atoms.transfer ≠ 0)
    (hproper : ∀ a, (tell a).Proper atoms.incremental ∧ (tell' a).Proper atoms.incremental)
    (hwhole : tell target = .whole ⟨atoms.textType target, .octets chunks.flatten⟩)
    (hparts : tell' target = .parts (partsOf (atoms.textType target) chunks))
    (hothers : ∀ a, a ≠ target → tell a = tell' a) :
    (connection atoms).TwoWays (connection atoms)
      (fun s s' => (teller atoms tell).Rests s ∧ (teller atoms tell').Rests s') target chunks := by
  constructor
  · rfl
  · exact fun h => h.1.selection.trans h.2.selection.symm
  · exact fun s s' h => ⟨congrArg Outcome.done (h.1.owner.trans h.2.owner.symm), h⟩
  · intro a ha s s' h
    obtain ⟨t, hfirst, hrests⟩ := h.1.brings hplace a (hproper a).1
    obtain ⟨t', hsecond, hrests'⟩ := h.2.brings hplace a (hproper a).2
    rw [Connection.convert_of_brings (connection_foresees atoms) hfirst,
      Connection.convert_of_brings (connection_foresees atoms) hsecond, hothers a ha]
    exact ⟨rfl, hrests, hrests'⟩
  · intro s s' h
    obtain ⟨t, hfirst, hrests⟩ := h.1.brings hplace target (hproper target).1
    obtain ⟨t', hsecond, hrests'⟩ := h.2.brings hplace target (hproper target).2
    exact ⟨t, t', hwhole ▸ hfirst, hparts ▸ hsecond, hrests, hrests'⟩

/-- An owner lists text in UTF-8 and delivers it. -/
def offering (atoms : Atoms) (text : Tidings) : Script :=
  teller atoms fun a =>
    if a = atoms.utf8 then text
    else if a = atoms.targets then .whole ⟨atoms.atom, .atoms [atoms.targets, atoms.utf8]⟩
    else .refusal

end Script

/-- A text that is cut within a character and within a line break. -/
theorem Connection.text_delivered_cut :
    let a := Server.atoms
    let chunks : List Octets := [[0xC3], [0xA9, 0x0D], [0x0A]]
    let whole : Host Script := ⟨.offering a (.whole ⟨a.utf8, .octets chunks.flatten⟩), {}⟩
    let parts : Host Script := ⟨.offering a (.parts (partsOf a.utf8 chunks)), {}⟩
    let reading := (Script.connection a).clipboard {}
    (reading.getText whole).1 = .done "é\n" ∧ (reading.hasText whole).1 = .done true ∧
      (reading.getText whole).1 = (reading.getText parts).1 ∧
      (reading.hasText whole).1 = (reading.hasText parts).1 := by
  intro a chunks whole parts reading
  have hproper (text : Tidings) (htext : text.Proper a.incremental) (b : Atom) :
      (if b = a.utf8 then text
        else if b = a.targets then .whole ⟨a.atom, .atoms [a.targets, a.utf8]⟩
        else .refusal : Tidings).Proper a.incremental := by
    split
    · exact htext
    · split
      · exact (by decide : a.atom ≠ a.incremental)
      · trivial
  have hplain : a.utf8 ≠ a.incremental := by decide
  have hfull : ∀ part ∈ partsOf a.utf8 chunks, part.data.bytes ≠ [] := by decide
  have htwo : (Script.connection a).TwoWays (Script.connection a) _ a.utf8 chunks :=
    Script.teller_twoWays (by decide)
      (fun b => ⟨hproper (.whole ⟨a.utf8, .octets chunks.flatten⟩) hplain b,
        hproper (.parts (partsOf a.utf8 chunks)) hfull b⟩) rfl rfl
      fun b hb => by rw [if_neg hb, if_neg hb]
  have hforesees := Script.connection_foresees a
  have hselected : (Script.connection a).selection whole.world =
      (Script.connection a).selection parts.world := rfl
  have hsame := (text_delivered hforesees hforesees (by decide) List.mem_cons_self htwo hselected
    (fun _ => ⟨Script.rests_teller a _, Script.rests_teller a _⟩) {} {}).1 (List.cons_ne_nil _ _)
  exact ⟨by decide +kernel, by decide +kernel, hsame⟩

/-- The empty text is text if it comes in one piece, and is none if it is announced. -/
theorem Connection.text_undelivered :
    let a := Server.atoms
    let whole : Host Script := ⟨.offering a (.whole ⟨a.utf8, .octets []⟩), {}⟩
    let parts : Host Script := ⟨.offering a (.parts (partsOf a.utf8 [])), {}⟩
    let reading := (Script.connection a).clipboard {}
    (reading.getText whole).1 = .done "" ∧ (reading.hasText whole).1 = .done true ∧
      (reading.getText parts).1 = .failed .noText ∧ (reading.hasText parts).1 = .done false := by
  decide +kernel

end Clipboard.X11
