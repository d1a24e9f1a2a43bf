import Clipboard.Proofs.Session.Looking
import Clipboard.Proofs.Session.Verdicts
import Clipboard.Proofs.X11.Naming
import Clipboard.Proofs.X11.Standing

/-!
# Clipboards that share a display

What one clipboard writes, every other clipboard of the same display reads, and so does the one that
wrote it, for as long as nobody else takes the selection.  The clipboards may be read in any order
and however often, whatever goes on besides, and others may come.

* `Display.Goes`: what may happen while nobody takes the selection;
* `Kept.goes`: the content is kept, and so is what is known of its formats;
* `Sees.text_present`, `Sees.text_absent`, `Sees.getContents_eq`: what a session finds.
-/

namespace Clipboard.X11

open Action Backend

namespace Display

variable {ι σ : Type} {d : Display ι σ} {fair ready : σ → Prop} {i j k : ι} {e e' : Host σ}
  {content : List (Atom × Octets)} {kind : Kind} {formats : List Format}

/-- What may happen to a program and the display that it uses, while nobody takes the selection from
a client. -/
inductive Goes (d : Display ι σ) (fair : σ → Prop) (i : ι) : Host σ → Host σ → Prop
  | nothing {e : Host σ} : Goes d fair i e e
  /-- A clipboard is read. -/
  | reads {e e' : Host σ} (k : ι) (p : Policy) (r : Reading) (h : Goes d fair i e e') :
      Goes d fair i e (r.leave ((d.desk k).clipboard p) e')
  /-- Clients deal with what they have been sent, time passes, or connections are lost. -/
  | goesOn {e e' : Host σ} {s : σ} (h : Goes d fair i e e') (hfair : fair s)
      (hcalm : d.Calm e'.world s) : Goes d fair i e { e' with world := s }
  | comes {e e' : Host σ} {s : σ} (j : ι) (h : Goes d fair i e e') (hother : j ≠ i) (hfair : fair s)
      (hcomes : d.Comes j e'.world s) : Goes d fair i e { e' with world := s }

/-! ## Content is kept -/

/-- The content of a client stands, and the formats of its kind are known. -/
structure Kept (d : Display ι σ) (fair : σ → Prop) (i : ι) (content : List (Atom × Octets))
    (kind : Kind) (formats : List Format) (e : Host σ) : Prop where
  fair : fair e.world
  stands : d.Stands i content e.world
  knows : (d.desk i).Knows e.registry kind formats

/-- A program before and after something that moves nobody's ownership and forgets no formats. -/
def Remains (d : Display ι σ) (fair : σ → Prop) (e e' : Host σ) : Prop :=
  (fair e.world → fair e'.world ∧ d.Calm e.world e'.world) ∧
    ∀ k kind formats, (d.desk k).Knows e.registry kind formats →
      (d.desk k).Knows e'.registry kind formats

theorem looks_remains (hd : d.Lawful fair) (hr : d.Reliable fair ready) (k : ι) :
    Looks (d.desk k).backend (d.Remains fair) := by
  have hreads := (hd.abides k).reads
  have hon {ε α : Type} {x : Action σ ε α}
      (hx : Confined (fun s s' => fair s → fair s' ∧ d.Calm s s') x) :
      Confined (d.Remains fair) (Host.on x) := fun e => ⟨hx e.world, fun _ _ _ hknows => hknows⟩
  constructor
  · exact ⟨fun e => ⟨hreads.bounds.refl e.world, fun _ _ _ hknows => hknows⟩,
      fun h h' => ⟨hreads.bounds.trans h.1 h'.1, fun k kind formats hknows =>
        h'.2 k kind formats (h.2 k kind formats hknows)⟩⟩
  · exact hon hreads.acquire
  · exact hon (ε := Empty) fun s => hreads.bounds.refl s
  · intro kind e
    refine ⟨?_, fun j _ _ hknows => hknows.resolve (hr.alike k j) kind⟩
    rcases (d.desk k).backend.world_resolve kind e with hsame | hasked
    · rw [hsame]
      exact hreads.bounds.refl e.world
    · rw [hasked]
      exact hreads.formatsFor kind e.world
  · exact fun among => hon (hreads.pick among)
  · exact fun f => hon (hreads.read f)

/-- However much goes on, the content is kept. -/
theorem Kept.goes (h : d.Kept fair i content kind formats e) (hd : d.Lawful fair)
    (hr : d.Reliable fair ready) (hgoes : d.Goes fair i e e') :
    d.Kept fair i content kind formats e' := by
  induction hgoes with
  | nothing => exact h
  | reads k p r _ ih =>
      obtain ⟨hcalm, hknows⟩ := (looks_remains hd hr k).leave p r _
      obtain ⟨hfair, hcalm⟩ := hcalm ih.fair
      exact ⟨hfair, ih.stands.calm hcalm, hknows i kind formats ih.knows⟩
  | goesOn _ hfair hcalm ih => exact ⟨hfair, ih.stands.calm hcalm, ih.knows⟩
  | comes j _ hother hfair hcomes ih => exact ⟨hfair, ih.stands.comes hother.symm hcomes, ih.knows⟩

/-! ## What a session finds -/

section Sessions

variable [DecidableEq ι] (h : d.Sees ready i k content e.world) (hd : d.Lawful fair)
  (hr : d.Reliable fair ready) (q : Policy)
include h hd hr

/-- What is got is what the content holds in the one format of its kind. -/
theorem Sees.getContents_eq {a : Atom} {bytes : Octets}
    (hknows : (d.desk k).Knows e.registry kind [⟨.number a, .opaqueData, true⟩])
    (hcontent : content = [(a, bytes)])
    (hplain : k ≠ i → a ≠ (d.atoms k).targets ∧ a ≠ (d.atoms k).incremental) :
    (((d.desk k).clipboard q).getContents kind e).1 = .done bytes := by
  obtain ⟨r, hnamed, -⟩ := hknows.resolve_eq
  obtain ⟨s', hoffered, hsees'⟩ := h.offeredTargets_eq hr hd
  have hlisted : a ∈ d.listing i k content := by
    rw [hcontent, listing]
    split
    · exact List.mem_cons_self
    · exact List.mem_cons_of_mem _ List.mem_cons_self
  have hpicked : (d.desk k).backend.pick [⟨.number a, .opaqueData, true⟩] e.world =
      (.done (some ⟨.number a, .opaqueData, true⟩), s') := by
    have hown : Connection.target (.number a) = .ok a := rfl
    refine (bind_done hoffered _).trans ?_
    rw [pickListed_cons hown, if_pos (List.contains_iff_mem.mpr hlisted)]
    rfl
  obtain ⟨s'', hread, -⟩ := hsees'.read hr hd (a := a) .opaqueData true
    fun hne => ⟨(hplain hne).1, (hplain hne).2, rfl⟩
  have hfound : content.find? (fun x => x.1 = a) = some (a, bytes) := by
    rw [hcontent]
    simp
  rw [hfound] at hread
  have hbody := read_of_some hnamed hpicked hread
  rw [Board.getContents, Connection.session_of_alive h.alive, bind_done hbody]
  rfl

section Text

variable (hknows : (d.desk k).Knows e.registry .text (d.desk k).textFormats)
include hknows

/-- A search for text comes upon the first target of text that is listed. -/
theorem Sees.search_text :
    ∃ e', (⟨(d.desk k).backend, true⟩ : Handle σ).search .text e =
        (.done (((d.atoms k).textTargets.find? fun target =>
          (d.listing i k content).contains target).map (d.atoms k).formatOfText), e') ∧
      (d.desk k).Knows e'.registry .text (d.desk k).textFormats ∧
      d.Sees ready i k content e'.world := by
  obtain ⟨r, hnamed, hfind⟩ := hknows.resolve_eq
  obtain ⟨s', hpicked, hsees'⟩ := h.pick_text hr hd
  exact ⟨⟨s', r⟩, search_of_pick hnamed hpicked, .inl hfind, hsees'⟩

/-- Where no target of text is listed, there is no text. -/
theorem Sees.text_absent
    (hnone : (d.atoms k).textTargets.find? (fun target =>
      (d.listing i k content).contains target) = none) :
    (((d.desk k).clipboard q).getText e).1 = .failed .noText ∧
      (((d.desk k).clipboard q).hasText e).1 = .done false := by
  obtain ⟨e', hsearch, -⟩ := h.search_text hd hr hknows
  rw [hnone] at hsearch
  constructor
  · rw [Board.getText, Connection.session_of_alive h.alive, Handle.readText_eq,
      bind_done hsearch]
    rfl
  · have hbody := Handle.hasText_apply (⟨(d.desk k).backend, true⟩ : Handle σ) e
    rw [hsearch] at hbody
    have hsession : ((d.desk k).clipboard q).session Handle.hasText e = (.done false, e') :=
      (Connection.session_of_alive h.alive).trans hbody
    rw [Board.hasText, recover_done hsession]

/-- The text that a payload spells is read where its octets are listed as the preferred target. -/
theorem Sees.readText {text : String} {payload : Payload}
    (hof : Payload.ofText text .utf8 .unix = .ok payload)
    (hlisted : (d.atoms k).utf8 ∈ d.listing i k content)
    (hfound : content.find? (fun x => x.1 = (d.atoms k).utf8) =
      some ((d.atoms k).utf8, payload.bytes)) :
    ∃ e₁ e', (⟨(d.desk k).backend, true⟩ : Handle σ).search .text e =
        (.done (some ((d.atoms k).formatOfText (d.atoms k).utf8)), e₁) ∧
      (⟨(d.desk k).backend, true⟩ : Handle σ).readText e =
        (.done (LineBreaks.unifyText text), e') ∧
      (d.desk k).Knows e₁.registry .text (d.desk k).textFormats ∧
      d.Sees ready i k content e₁.world := by
  obtain ⟨e₁, hsearch, hknows₁, hsees₁⟩ := h.search_text hd hr hknows
  have hfirst : (d.atoms k).textTargets.find? (fun target =>
      (d.listing i k content).contains target) = some (d.atoms k).utf8 :=
    List.find?_cons_of_pos (List.contains_iff_mem.mpr hlisted)
  rw [hfirst, Option.map_some] at hsearch
  obtain ⟨-, hparts, hfree, htargets⟩ := (hr.apart k).plain
  have hutf8 : (d.atoms k).encodingOf (d.atoms k).utf8 = .utf8 :=
    if_neg (hr.apart k).pairs.2.2.1.1
  obtain ⟨s', hread, -⟩ : ∃ s', (d.desk k).backend.read
      ((d.atoms k).formatOfText (d.atoms k).utf8) e₁.world = _ ∧ _ :=
    hsees₁.read hr hd _ _ fun _ => by
      refine ⟨fun hsame => htargets (hsame ▸ List.mem_cons_self), hparts, ?_⟩
      refine (Connection.fits_eq_true_iff ((d.atoms k).encodingOf_ne_opaqueData _)).mpr ?_
      exact (if_neg hfree).symm
  have hsame : (⟨payload.bytes, .utf8⟩ : Payload) = payload := by
    rw [← (Payload.encodeChars_of_ofChars hof).1]
  rw [hfound, Option.map_some, hutf8, hsame] at hread
  have hfetch : (⟨(d.desk k).backend, true⟩ : Handle σ).fetch .text _ e₁ =
      (.done payload, { e₁ with world := s' }) := fetch_some .text hread
  refine ⟨e₁, { e₁ with world := s' }, hsearch, ?_, hknows₁, hsees₁⟩
  rw [Handle.readText_eq, bind_done hsearch, Handle.fetchText, bind_done hfetch,
    show (d.desk k).backend.convention = .unix from rfl, Payload.text_of_ofText hof]
  rfl

/-- So the clipboard has this text. -/
theorem Sees.text_present {text : String} {payload : Payload}
    (hof : Payload.ofText text .utf8 .unix = .ok payload)
    (hlisted : (d.atoms k).utf8 ∈ d.listing i k content)
    (hfound : content.find? (fun x => x.1 = (d.atoms k).utf8) =
      some ((d.atoms k).utf8, payload.bytes)) :
    (((d.desk k).clipboard q).getText e).1 = .done (LineBreaks.unifyText text) ∧
      (((d.desk k).clipboard q).hasText e).1 = .done true := by
  obtain ⟨e₁, e', hsearch, hread, hknows₁, hsees₁⟩ :=
    h.readText hd hr hknows hof hlisted hfound
  constructor
  · rw [Board.getText, Connection.session_of_alive h.alive, hread]
  · -- The text is read again once it has been found.
    obtain ⟨-, e₂, -, hagain, -⟩ := hsees₁.readText hd hr hknows₁ hof hlisted hfound
    have hbody := Handle.hasText_apply (⟨(d.desk k).backend, true⟩ : Handle σ) e
    rw [hsearch] at hbody
    have hread' : ((fun _ => true) <$> (⟨(d.desk k).backend, true⟩ : Handle σ).readText) e₁ =
        (.done true, e₂) := by
      rw [map_apply, hagain]
      rfl
    have hsession : ((d.desk k).clipboard q).session Handle.hasText e = (.done true, e₂) :=
      ((Connection.session_of_alive h.alive).trans hbody).trans (recover_done hread' _)
    rw [Board.hasText, recover_done hsession]

end Text

end Sessions

end Display

end Clipboard.X11
