import Clipboard.Proofs.Session.Picking
import Clipboard.Proofs.X11.Connections
import Clipboard.Proofs.X11.Sessions

/-!
# The targets of another owner

A client without content of its own learns what is on offer by having the selection converted
to the list of targets.  The list is made of the words of four octets that stand one after the
other in what it is given; what is left over at the end is no target.  Who owns nothing has no
targets.

* `mem_atomsOfOctets_iff`: the atoms in some octets, by where they stand;
* `offeredTargets_of_owner`, `offeredTargets_of_nobody`: what a client without content takes for
  the targets on offer;
* `Atoms.textTargets`, `Atoms.textType`, `Atoms.encodingOf`: the targets of text, and the type and
  the encoding that go with each;
* `pick_text`: the most preferred of them that is on offer is picked.
-/

namespace Clipboard.X11

/-! ## Atoms in octets -/

theorem octetsOfAtom_atomOfOctets (a b c d : UInt8) :
    octetsOfAtom (atomOfOctets a b c d) = [a, b, c, d] := by
  have ha := a.toNat_lt
  have hb := b.toNat_lt
  have hc := c.toNat_lt
  have hd := d.toNat_lt
  have hvalue : (atomOfOctets a b c d).toNat =
      a.toNat + 256 * b.toNat + 65536 * c.toNat + 16777216 * d.toNat := by
    rw [atomOfOctets, UInt32.toNat_ofNat']
    omega
  have hoctet {n : Nat} {o : UInt8} (h : n = o.toNat) : UInt8.ofNat n = o := by
    rw [h, UInt8.ofNat_toNat]
  unfold octetsOfAtom
  rw [hvalue]
  dsimp only
  rw [hoctet (o := a) (by omega), hoctet (o := b) (by omega), hoctet (o := c) (by omega),
    hoctet (o := d) (by omega)]

/-- Whole words are read apart from what follows them. -/
theorem atomsOfOctets_append {before : Octets} (h : 4 ∣ before.length) (rest : Octets) :
    atomsOfOctets (before ++ rest) = atomsOfOctets before ++ atomsOfOctets rest := by
  induction before using atomsOfOctets.induct with
  | case1 a b c d before ih =>
      have hbefore : 4 ∣ before.length := by
        simp only [List.length_cons] at h
        omega
      simp only [List.cons_append, atomsOfOctets, ih hbefore]
  | case2 before hshort =>
      rcases before with _ | ⟨a, _ | ⟨b, _ | ⟨c, _ | ⟨d, before⟩⟩⟩⟩
      · rfl
      · exact absurd h (by simp)
      · exact absurd h (by simp)
      · exact absurd h (by simp)
      · exact absurd rfl (hshort a b c d before)

theorem atomsOfOctets_octetsOfAtom (a : Atom) (rest : Octets) :
    atomsOfOctets (octetsOfAtom a ++ rest) = a :: atomsOfOctets rest := by
  have hone : atomsOfOctets (octetsOfAtom a) = [a] := by
    simpa [Data.bytes] using atomsOfOctets_bytes [a]
  rw [atomsOfOctets_append (by simp [octetsOfAtom]), hone]
  rfl

/-- An atom that lies in some octets: its own octets stand there, after whole words alone. -/
def LiesIn (a : Atom) (bytes : Octets) : Prop :=
  ∃ before after, bytes = before ++ octetsOfAtom a ++ after ∧ 4 ∣ before.length

/-- **The atoms of a list are those that lie in its octets.** -/
theorem mem_atomsOfOctets_iff {a : Atom} {bytes : Octets} :
    a ∈ atomsOfOctets bytes ↔ LiesIn a bytes := by
  constructor
  · intro hmem
    induction bytes using atomsOfOctets.induct with
    | case1 w x y z rest ih =>
        rw [atomsOfOctets] at hmem
        rcases List.mem_cons.mp hmem with rfl | hrest
        · exact ⟨[], rest, by rw [octetsOfAtom_atomOfOctets]; rfl, by simp⟩
        · obtain ⟨before, after, hbytes, hbefore⟩ := ih hrest
          refine ⟨w :: x :: y :: z :: before, after, by rw [hbytes]; rfl, ?_⟩
          simp only [List.length_cons]
          omega
    | case2 bytes hshort =>
        rw [atomsOfOctets] at hmem
        · cases hmem
        · exact hshort
  · rintro ⟨before, after, rfl, hbefore⟩
    rw [List.append_assoc, atomsOfOctets_append hbefore, atomsOfOctets_octetsOfAtom]
    exact List.mem_append_right _ List.mem_cons_self

/-! ## Targets of text -/

namespace Atoms

variable {a : Atoms} {target : Atom}

/-- Different names go by different numbers, and none by zero. -/
def Apart (a : Atoms) : Prop :=
  [0, a.clipboard, a.targets, a.utf8, a.plainUtf8, a.latin1, a.text, a.incremental, a.transfer,
    a.timestamp, a.atom].Nodup

instance (a : Atoms) : Decidable a.Apart := inferInstanceAs (Decidable (List.Nodup _))

/-- The targets that text goes by, most preferred first. -/
def textTargets (a : Atoms) : List Atom := [a.utf8, a.plainUtf8, a.latin1, a.text]

/-- The type that text has in a target.  Where the owner is free to choose, it is UTF-8. -/
def textType (a : Atoms) (target : Atom) : Atom := if target = a.text then a.utf8 else target

/-- The encoding of text of some type. -/
def encodingOf (a : Atoms) (type : Atom) : Encoding := if type = a.latin1 then .latin1 else .utf8

/-- The format of text in a target. -/
def formatOfText (a : Atoms) (target : Atom) : Format :=
  ⟨.number target, a.encodingOf target, target = a.utf8 ∨ target = a.plainUtf8⟩

theorem encodingOf_ne_opaqueData (a : Atoms) (type : Atom) : a.encodingOf type ≠ .opaqueData := by
  unfold encodingOf
  split
  · exact nofun
  · exact nofun

theorem Apart.pairs (h : a.Apart) :
    (a.utf8 ≠ 0 ∧ a.plainUtf8 ≠ 0 ∧ a.latin1 ≠ 0 ∧ a.text ≠ 0) ∧
    (a.utf8 ≠ a.incremental ∧ a.plainUtf8 ≠ a.incremental ∧ a.latin1 ≠ a.incremental ∧
      a.text ≠ a.incremental) ∧
    (a.utf8 ≠ a.latin1 ∧ a.plainUtf8 ≠ a.latin1 ∧ a.text ≠ a.latin1) ∧
    a.latin1 ≠ a.plainUtf8 ∧ a.text ≠ a.utf8 ∧ a.text ≠ a.plainUtf8 := by
  simp only [Apart, List.nodup_cons, List.mem_cons, List.not_mem_nil, or_false, not_or,
    List.nodup_nil] at h
  grind

theorem Apart.transfer_ne_zero (h : a.Apart) : a.transfer ≠ 0 := by
  simp only [Apart, List.nodup_cons, List.mem_cons, List.not_mem_nil, or_false, not_or,
    List.nodup_nil] at h
  grind

/-- Neither a list of targets nor text looks like an announcement, and no target of text is the
list. -/
theorem Apart.plain (h : a.Apart) :
    a.atom ≠ a.incremental ∧ a.utf8 ≠ a.incremental ∧ a.utf8 ≠ a.text ∧
      a.targets ∉ a.textTargets := by
  simp only [Apart, List.nodup_cons, List.mem_cons, List.not_mem_nil, or_false, not_or,
    List.nodup_nil] at h
  simp only [textTargets, List.mem_cons, List.not_mem_nil, or_false, not_or]
  grind

theorem textType_spec (h : a.Apart) (htarget : target ∈ a.textTargets) :
    a.textType target ≠ 0 ∧ a.textType target ≠ a.incremental := by
  have hne := h.pairs
  simp only [textTargets, List.mem_cons, List.not_mem_nil, or_false] at htarget
  unfold textType
  split
  · grind
  · grind

/-- The encoding is that of the type of the octets, whichever target they were asked for in. -/
theorem encodingOf_textType (h : a.Apart) (htarget : target ∈ a.textTargets) :
    a.encodingOf (a.textType target) = a.encodingOf target ∧
      a.textType target ∈ [a.utf8, a.plainUtf8, a.latin1] := by
  obtain ⟨-, -, ⟨hutf8, -, hfree⟩, -⟩ := h.pairs
  have hsame : a.encodingOf a.utf8 = a.encodingOf a.text := by
    rw [encodingOf, encodingOf, if_neg hutf8, if_neg hfree]
  by_cases htext : target = a.text
  · rw [textType, if_pos htext, htext]
    exact ⟨hsame, List.mem_cons_self⟩
  · rw [textType, if_neg htext]
    refine ⟨rfl, ?_⟩
    simp only [textTargets, List.mem_cons, List.not_mem_nil, or_false] at htarget ⊢
    rcases htarget with h | h | h | h
    · exact .inl h
    · exact .inr (.inl h)
    · exact .inr (.inr h)
    · exact absurd h htext

end Atoms

/-! ## Looking at the targets -/

namespace Connection

open Action

variable {σ : Type} {c : Connection σ} {s t : σ} {w : Window} {offered : List Atom}

theorem own_eq (c : Connection σ) (s : σ) :
    c.own s = (.done ((c.selection s).claim.map (·.items)), s) := rfl

theorem own_of_unclaimed (h : (c.selection s).claim = none) : c.own s = (.done none, s) := by
  rw [own_eq, h]
  rfl

/-- The targets on offer are those in the owner's list. -/
theorem offeredTargets_of_owner (h : (c.selection s).claim = none)
    (howner : c.askOwner s = (.done w, t)) (hw : w ≠ 0) :
    c.offeredTargets s =
      ((c.convert c.atoms.targets t).1.map c.targetsIn, (c.convert c.atoms.targets t).2) := by
  rw [offeredTargets, bind_done (own_of_unclaimed h)]
  dsimp only
  rw [foreignTargets, bind_done howner, if_neg hw]
  exact map_apply c.targetsIn _ t

/-- Without an owner there are none. -/
theorem offeredTargets_of_nobody (h : (c.selection s).claim = none)
    (howner : c.askOwner s = (.done 0, t)) : c.offeredTargets s = (.done [], t) := by
  rw [offeredTargets, bind_done (own_of_unclaimed h)]
  dsimp only
  rw [foreignTargets, bind_done howner, if_pos rfl]
  rfl

theorem map_formatOfText (h : c.atoms.Apart) :
    c.atoms.textTargets.map c.atoms.formatOfText = c.textFormats := by
  obtain ⟨-, -, ⟨hutf8, hplain, hfree⟩, hlatin1, hfree', hfree''⟩ := h.pairs
  simp [Atoms.textTargets, Atoms.formatOfText, Atoms.encodingOf, textFormats, Format.readOnly,
    hutf8, hutf8.symm, hplain, hfree, hlatin1, hfree', hfree'']

/-- A client picks the most preferred target of text that is on offer. -/
theorem pick_text (hapart : c.atoms.Apart) (hoffered : c.offeredTargets s = (.done offered, t)) :
    c.backend.pick c.textFormats s =
      (.done ((c.atoms.textTargets.find? fun target => offered.contains target).map
        c.atoms.formatOfText), t) := by
  have hpicked : pickListed target offered (c.atoms.textTargets.map c.atoms.formatOfText) =
      .ok ((c.atoms.textTargets.find? fun target => offered.contains target).map
        c.atoms.formatOfText) :=
    pickListed_map fun _ _ => rfl
  rw [map_formatOfText hapart] at hpicked
  show pickByListing target c.offeredTargets c.textFormats s = _
  rw [pickByListing, bind_done hoffered, hpicked]
  rfl

/-- Text is taken for such if it has the type that goes with its target. -/
theorem fits_eq_true_iff {target type : Atom} {encoding : Encoding} (h : encoding ≠ .opaqueData) :
    c.fits target encoding type = true ↔ type = c.atoms.textType target := by
  rw [fits, if_neg h, Atoms.textType]
  split <;> exact decide_eq_true_iff

/-- What a client without content takes for content, of what a conversion comes to. -/
theorem readTarget_of_unclaimed {target : Atom} {told : Option Property}
    (h : (c.selection s).claim = none) (hconvert : c.convert target s = (.done told, t))
    (encoding : Encoding) :
    c.readTarget target encoding s =
      (.done (told.bind fun v => if c.fits target encoding v.type then some v.data.bytes else none),
        t) := by
  refine (bind_done (own_of_unclaimed h) _).trans ((bind_done hconvert _).trans ?_)
  cases told <;> rfl

end Connection

end Clipboard.X11
