import Clipboard.Proofs.Session.Verdicts
import Clipboard.Proofs.X11.Scripts
import Clipboard.Proofs.X11.Targets

/-!
# Text of another owner

A client without content of its own takes two conversions to read text: one to the list of
targets, and one to the first target of text that is listed.  The owner may refuse either, or
answer with anything at all.  The first answer counts as a list if it is of the type of a list,
and the second as text if it is of the type that belongs to its target; it is then taken to be in
the encoding of that type.

* `Connection.Tells`: an owner that answers in time, with one value or a refusal;
* `Connection.getText_eq`: the text, by the targets on offer and by what the owner tells;
* `Atoms.encodingOf_textType`: the encoding is that of the type of the octets;
* `text_told`: when there is no text, and what it is otherwise.
-/

namespace Clipboard.X11

open Action Backend

/-! ## What is taken for text -/

namespace Atoms

variable {a : Atoms} {target : Atom} {v : Property} {offered : List Atom}

/-- What a client takes for text of what comes of a conversion to a target. -/
def textIn (a : Atoms) (target : Atom) (v : Property) : Option Payload :=
  if v.type = a.textType target then some ⟨v.data.bytes, a.encodingOf target⟩ else none

theorem textIn_eq_some_iff {payload : Payload} :
    a.textIn target v = some payload ↔
      v.type = a.textType target ∧ payload = ⟨v.data.bytes, a.encodingOf target⟩ := by
  rw [textIn, Option.ite_none_right_eq_some, Option.some.injEq]
  exact and_congr_right fun _ => eq_comm

/-- The text that is taken, by the targets on offer and by what the owner tells. -/
def textAmong (a : Atoms) (offered : List Atom) (tell : Atom → Option Property) : Option Payload :=
  (a.textTargets.find? fun target => offered.contains target).bind fun target =>
    (tell target).bind (a.textIn target)

section Chosen

variable {tell : Atom → Option Property} {listed : Atom → Prop}
  (hlisted : ∀ target, target ∈ offered ↔ listed target)

include hlisted

theorem find?_textTargets_iff :
    a.textTargets.find? (fun target => offered.contains target) = some target ↔
      FirstOf a.textTargets listed target :=
  find?_eq_some_iff_firstOf fun target _ => List.contains_iff_mem.trans (hlisted target)

theorem find?_textTargets_eq_none :
    a.textTargets.find? (fun target => offered.contains target) = none ↔
      ∀ target ∈ a.textTargets, ¬ listed target := by
  rw [List.find?_eq_none]
  exact forall₂_congr fun target _ => not_congr (List.contains_iff_mem.trans (hlisted target))

/-- None is taken if none of the targets of text is on offer, or the owner refuses the first
that is, or answers with something of another type. -/
theorem textAmong_eq_none_iff :
    a.textAmong offered tell = none ↔ (∀ target ∈ a.textTargets, ¬ listed target) ∨
      ∃ target, FirstOf a.textTargets listed target ∧
        (tell target = none ∨ ∃ v, tell target = some v ∧ v.type ≠ a.textType target) := by
  simp only [← find?_textTargets_eq_none hlisted, ← find?_textTargets_iff hlisted]
  rw [textAmong]
  cases a.textTargets.find? fun target => offered.contains target with
  | none => simp
  | some target =>
      rw [Option.bind_some]
      cases htold : tell target with
      | none => simp [htold]
      | some v => simp [htold, textIn]

/-- What is taken has the type that belongs to its target. -/
theorem textAmong_eq_some_iff {payload : Payload} :
    a.textAmong offered tell = some payload ↔ ∃ target v, FirstOf a.textTargets listed target ∧
      tell target = some v ∧ v.type = a.textType target ∧
      payload = ⟨v.data.bytes, a.encodingOf target⟩ := by
  simp only [← find?_textTargets_iff hlisted, textAmong, Option.bind_eq_some_iff,
    textIn_eq_some_iff]
  constructor
  · rintro ⟨target, hfind, v, hv, htype, hpayload⟩
    exact ⟨target, v, hfind, hv, htype, hpayload⟩
  · rintro ⟨target, v, hfind, hv, htype, hpayload⟩
    exact ⟨target, hfind, v, hv, htype, hpayload⟩

end Chosen

end Atoms

/-! ## A client reads text -/

namespace Connection

variable {σ : Type} {c : Connection σ} {s t u : σ} {w : Window} {tell : Atom → Option Property}
  {offered : List Atom} {target : Atom}

/-- A client that reads text is told in time which window owns the selection, then of the list of
targets, and then of a target of text.  Each time the owner refuses, or answers with one value. -/
def Tells (c : Connection σ) (w : Window) (tell : Atom → Option Property) (s : σ) : Prop :=
  ∃ t, c.owner s = (.done w, t) ∧ (w ≠ 0 →
    ∃ u, c.Brings c.atoms.targets (.single (tell c.atoms.targets)) t u ∧
      (c.selection u).claim = none ∧
      ∀ target ∈ c.atoms.textTargets, ∃ v, c.Brings target (.single (tell target)) u v)

/-- A client takes what the owner tells for text if it is of the type that belongs to the
target. -/
theorem read_text (hclaim : (c.selection s).claim = none) {told : Option Property}
    (hconvert : c.convert target s = (.done told, t)) :
    c.backend.read (c.atoms.formatOfText target) s =
      (.done (told.bind (c.atoms.textIn target)), t) := by
  have hread := readTarget_of_unclaimed hclaim hconvert (c.atoms.encodingOf target)
  refine (bind_done hread _).trans ?_
  rcases told with _ | v
  · rfl
  · have hfits : c.fits target (c.atoms.encodingOf target) v.type = true ↔ _ :=
      fits_eq_true_iff (c.atoms.encodingOf_ne_opaqueData target)
    by_cases htype : v.type = c.atoms.textType target
    · rw [Option.bind_some, Option.bind_some, if_pos (hfits.mpr htype), Atoms.textIn, if_pos htype]
      rfl
    · rw [Option.bind_some, Option.bind_some, if_neg (mt hfits.mp htype), Atoms.textIn,
        if_neg htype]
      rfl

/-- Nothing is on offer where nobody owns the selection, or the owner gives no list. -/
def Unlisted (c : Connection σ) (w : Window) (told : Option Property) : Prop :=
  w = 0 ∨ told = none ∨ ∃ v, told = some v ∧ v.type ≠ c.atoms.atom ∧ v.type ≠ c.atoms.targets

/-- A client without content finds the targets in the list that the owner gives, if it gives
one. -/
theorem Tells.offered_cases (hc : c.Foresees) (hclaim : (c.selection s).claim = none)
    (h : c.Tells w tell s) :
    (c.Unlisted w (tell c.atoms.targets) ∧ ∃ t, c.offeredTargets s = (.done [], t)) ∨
    ∃ v u, ¬ c.Unlisted w (tell c.atoms.targets) ∧ tell c.atoms.targets = some v ∧
      c.offeredTargets s = (.done (atomsOfOctets v.data.bytes), u) ∧
      (c.selection u).claim = none ∧
      ∀ target ∈ c.atoms.textTargets, ∃ t, c.Brings target (.single (tell target)) u t := by
  obtain ⟨t, howner, htold⟩ := h
  have hasked : c.askOwner s = (.done w, t) := mapCause_of_done howner
  by_cases hw : w = 0
  · subst hw
    exact .inl ⟨.inl rfl, t, offeredTargets_of_nobody hclaim hasked⟩
  · obtain ⟨u, hbrings, hstill, htexts⟩ := htold hw
    have hoffered := offeredTargets_of_owner hclaim hasked hw
    rw [convert_of_brings hc hbrings, Tidings.value?_single] at hoffered
    rcases hlist : tell c.atoms.targets with _ | v <;> rw [hlist] at hoffered
    · exact .inl ⟨.inr (.inl rfl), u, hoffered⟩
    · by_cases htype : v.type = c.atoms.atom ∨ v.type = c.atoms.targets
      · refine .inr ⟨v, u, ?_, rfl, ?_, hstill, htexts⟩
        · rintro (hw' | hnone | ⟨v', hv', hatom, htargets⟩)
          · exact hw hw'
          · cases hnone
          · cases hv'
            exact htype.elim hatom htargets
        · exact hoffered.trans (congrArg (fun list => (Outcome.done list, u)) (if_pos htype))
      · refine .inl ⟨.inr (.inr ⟨v, rfl, not_or.mp htype⟩), u, ?_⟩
        exact hoffered.trans (congrArg (fun list => (Outcome.done list, u)) (if_neg htype))

section Reading

variable {r : Registry} (hapart : c.atoms.Apart) (halive : (c.selection s).alive = true)
  (hknows : c.Knows r .text c.textFormats)
include hapart halive hknows

/-- A client to which no target of text is offered reads none. -/
theorem getText_of_unoffered (hoffered : c.offeredTargets s = (.done offered, t))
    (hnone : (c.atoms.textTargets.find? fun target => offered.contains target) = none)
    (p : Policy) :
    ((c.clipboard p).getText ⟨s, r⟩).1 = .failed .noText := by
  obtain ⟨r', hnamed, -⟩ : ∃ r', c.backend.resolve .text ⟨s, r⟩ = _ ∧ _ := hknows.resolve_eq
  have hpicked := pick_text hapart hoffered
  rw [hnone] at hpicked
  rw [Board.getText, session_of_alive halive, readText_of_read (read_of_none hnamed hpicked)]
  rfl

/-- **A client reads the text that it takes from the owner.** -/
theorem getText_eq (hc : c.Foresees) (hoffered : c.offeredTargets s = (.done offered, u))
    (hclaim : (c.selection u).claim = none)
    (htells : ∀ target ∈ c.atoms.textTargets, ∃ t, c.Brings target (.single (tell target)) u t)
    (p : Policy) :
    ((c.clipboard p).getText ⟨s, r⟩).1 =
      spelling .unix (verdict .text (.done (c.atoms.textAmong offered tell))) := by
  cases hfind : c.atoms.textTargets.find? fun target => offered.contains target with
  | none =>
      rw [getText_of_unoffered hapart halive hknows hoffered hfind, Atoms.textAmong, hfind]
      rfl
  | some target =>
      obtain ⟨r', hnamed, -⟩ : ∃ r', c.backend.resolve .text ⟨s, r⟩ = _ ∧ _ := hknows.resolve_eq
      have hpicked := pick_text hapart hoffered
      rw [hfind] at hpicked
      obtain ⟨t, hbrings⟩ := htells target (List.mem_of_find?_eq_some hfind)
      have hconvert := convert_of_brings hc hbrings
      rw [Tidings.value?_single] at hconvert
      rw [Board.getText, session_of_alive halive,
        readText_of_read (read_of_some hnamed hpicked (read_text hclaim hconvert)),
        Atoms.textAmong, hfind]
      rfl

end Reading

/-- **What becomes of text that another owner is asked for.**  Take a client that is there and has
no content of its own, and let the owner of the selection, if there is one, refuse or answer each
conversion in time with a single property, of any type and with any octets.  There is no text
exactly if nobody owns the selection; or the owner refuses to list its targets, or the list is not
of the type of one; or none of the targets of text lies in its octets; or the owner refuses the
first of these that does, or answers with a type that does not belong to it.  Otherwise the text is
what the octets spell in the encoding of that type, which is one of the three types of text. -/
theorem text_told (hc : c.Foresees) (hapart : c.atoms.Apart)
    (halive : (c.selection s).alive = true) (hclaim : (c.selection s).claim = none)
    {r : Registry} (hknows : c.Knows r .text c.textFormats) (htells : c.Tells w tell s)
    (p : Policy) :
    let a := c.atoms
    let text := ((c.clipboard p).getText ⟨s, r⟩).1
    let listed (target : Atom) := ∃ v, tell a.targets = some v ∧ LiesIn target v.data.bytes
    let chosen := FirstOf a.textTargets listed
    (text = .failed .noText ↔ w = 0 ∨ tell a.targets = none ∨
      (∃ v, tell a.targets = some v ∧ v.type ≠ a.atom ∧ v.type ≠ a.targets) ∨
      (∀ target ∈ a.textTargets, ¬ listed target) ∨
      ∃ target, chosen target ∧
        (tell target = none ∨ ∃ v, tell target = some v ∧ v.type ≠ a.textType target)) ∧
    (text ≠ .failed .noText → ∃ target v, chosen target ∧ tell target = some v ∧
      v.type = a.textType target ∧ v.type ∈ [a.utf8, a.plainUtf8, a.latin1] ∧
      a.encodingOf target = a.encodingOf v.type ∧
      text = .ofExcept
        ((Payload.text ⟨v.data.bytes, a.encodingOf target⟩ .unix).mapError .ofText)) := by
  intro a text listed chosen
  -- Where nothing is listed there is nothing to choose from; otherwise the choice decides.
  rcases htells.offered_cases hc hclaim with
    ⟨hnone, t, hoffered⟩ | ⟨v, u, hlisting, hv, hoffered, hstill, htexts⟩
  · have htext : text = .failed .noText :=
      getText_of_unoffered hapart halive hknows hoffered (List.find?_eq_none.mpr (by simp)) p
    refine ⟨iff_of_true htext ?_, fun hsome => absurd htext hsome⟩
    rcases hnone with howner | hrefused | htype
    · exact .inl howner
    · exact .inr (.inl hrefused)
    · exact .inr (.inr (.inl htype))
  · have htext : text = spelling .unix (verdict .text (.done (a.textAmong _ tell))) :=
      getText_eq hapart halive hknows hc hoffered hstill htexts p
    have hlies (target : Atom) : target ∈ atomsOfOctets v.data.bytes ↔ listed target := by
      rw [mem_atomsOfOctets_iff]
      refine ⟨fun hlies => ⟨v, hv, hlies⟩, fun ⟨v', hv', hlies⟩ => ?_⟩
      obtain rfl := Option.some.inj (hv.symm.trans hv')
      exact hlies
    constructor
    · rw [htext, spelling_eq_noText, Outcome.done.injEq, Atoms.textAmong_eq_none_iff hlies]
      constructor
      · exact fun hnone => .inr (.inr (.inr hnone))
      · rintro (howner | hrefused | htype | hnone)
        · exact absurd (.inl howner) hlisting
        · exact absurd (.inr (.inl hrefused)) hlisting
        · exact absurd (.inr (.inr htype)) hlisting
        · exact hnone
    · intro hsome
      cases hamong : a.textAmong (atomsOfOctets v.data.bytes) tell with
      | none =>
          rw [hamong] at htext
          exact absurd (htext.trans (spelling_eq_noText.mpr rfl)) hsome
      | some payload =>
          obtain ⟨target, v', hchosen, hv', htype, rfl⟩ :=
            (Atoms.textAmong_eq_some_iff hlies).mp hamong
          have htarget : target ∈ a.textTargets := by
            obtain ⟨before, after, hsplit, -⟩ := hchosen
            rw [hsplit]
            exact List.mem_append_right _ List.mem_cons_self
          obtain ⟨hencoding, htypes⟩ := Atoms.encodingOf_textType hapart htarget
          refine ⟨target, v', hchosen, hv', htype, htype ▸ htypes, htype ▸ hencoding.symm, ?_⟩
          rw [htext, hamong]
          rfl

end Connection

theorem Script.teller_tells {atoms : Atoms} {tell : Atom → Option Property}
    (hplace : atoms.transfer ≠ 0)
    (htype : ∀ target v, tell target = some v → v.type ≠ atoms.incremental) :
    (connection atoms).Tells 5 tell (teller atoms fun target => .single (tell target)) := by
  have hproper (target : Atom) : (Tidings.single (tell target)).Proper atoms.incremental := by
    cases htold : tell target with
    | none => trivial
    | some v => exact htype target v htold
  have hstart := rests_teller atoms fun target => .single (tell target)
  refine ⟨_, rfl, fun _ => ?_⟩
  obtain ⟨u, hlist, hrests⟩ := hstart.brings hplace atoms.targets (hproper _)
  refine ⟨u, hlist, congrArg Selection.claim hrests.selection, fun target _ => ?_⟩
  obtain ⟨v, hbrings, -⟩ := hrests.brings hplace target (hproper target)
  exact ⟨v, hbrings⟩

/-- An owner lists a target after another and with half of a third at its end, and answers with
text in Latin-1.  That is text where it was asked for as such, and none where the owner was free to
choose. -/
theorem Connection.text_told_latin1 :
    let a := Server.atoms
    let list (target : Atom) : Octets := octetsOfAtom 9999 ++ octetsOfAtom target ++ [31, 0]
    let tell (chosen target : Atom) : Option Property :=
      if target = a.targets then some ⟨a.targets, .octets (list chosen)⟩
      else if target = chosen then some ⟨a.latin1, .octets [0xE9]⟩
      else none
    let script (chosen : Atom) := Script.teller a fun target => .single (tell chosen target)
    let text (chosen : Atom) :=
      (((Script.connection a).clipboard {}).getText ⟨script chosen, {}⟩).1
    (∀ chosen, (Script.connection a).Tells 5 (tell chosen) (script chosen)) ∧
      text a.latin1 = .done "é" ∧ text a.text = .failed .noText := by
  intro a list tell script text
  have htells (chosen : Atom) :
      (Script.connection a).Tells 5 (tell chosen) (script chosen) := by
    have hlist : a.targets ≠ a.incremental := by decide
    have htext : a.latin1 ≠ a.incremental := by decide
    refine Script.teller_tells (by decide) fun target v hv => ?_
    simp only [tell] at hv
    split at hv
    · cases hv
      exact hlist
    · split at hv
      · cases hv
        exact htext
      · cases hv
  have told (chosen : Atom) := text_told (c := Script.connection a) (r := {})
    (Script.connection_foresees a) (by decide) rfl rfl (.inr ⟨rfl, rfl, rfl⟩) (htells chosen) {}
  have hchosen (chosen : Atom) {target : Atom}
      (hfind : a.textTargets.find? (fun t => (atomsOfOctets (list chosen)).contains t) =
        some chosen) :
      FirstOf a.textTargets (fun t => ∃ v, tell chosen a.targets = some v ∧
        LiesIn t v.data.bytes) target ↔ chosen = target := by
    have hlisted (t : Atom) : t ∈ atomsOfOctets (list chosen) ↔
        ∃ v, tell chosen a.targets = some v ∧ LiesIn t v.data.bytes := by
      rw [mem_atomsOfOctets_iff]
      exact ⟨fun hlies => ⟨_, rfl, hlies⟩, fun ⟨v, hv, hlies⟩ => by cases hv; exact hlies⟩
    rw [← Atoms.find?_textTargets_iff hlisted, hfind, Option.some.injEq]
  refine ⟨htells, ?_, ?_⟩
  · obtain ⟨-, htext⟩ := told a.latin1
    obtain ⟨target, v, hfirst, hv, -, -, -, hspelt⟩ := htext (by decide +kernel)
    obtain rfl := (hchosen a.latin1 (by decide +kernel)).mp hfirst
    cases hv
    exact hspelt
  · obtain ⟨hnone, -⟩ := told a.text
    have hfirst := (hchosen a.text (by decide +kernel)).mpr rfl
    exact hnone.mpr (.inr (.inr (.inr (.inr ⟨_, hfirst, .inr ⟨_, rfl, by decide⟩⟩))))

end Clipboard.X11
