import Clipboard.Proofs.Helper.Lines
import Clipboard.Proofs.Helper.Runs
import Clipboard.Proofs.X11.Scripts
import Clipboard.Proofs.X11.Targets

/-!
# One listing for all formats

Helper tools and the clients of a display server look all formats up in one listing, where
other backends ask about one format after the other.  As long as the listing stays the same it
makes no difference.  Nor does it matter how the listing is laid out: in which order it has its
lines or atoms, how often it has each of them, and how its lines are padded.

* `Helper.sameListed_of_lines`: listings of a tool that have the same lines;
* `X11.Connection.sameListed_of_atoms`: lists of targets that have the same atoms;
* `picked_from_listing`: what is picked from them.
-/

namespace Clipboard

open Action X11

variable {σ τ : Type}

/-- Runs of a tool that end alike and list the same lines come to the same names. -/
theorem Helper.sameListed_of_lines {h : Helper} {l : Launcher σ} {l' : Launcher τ} {s t : σ}
    {s' t' : τ} {c c' : Completion} (hrun : l.start h.listing s = (.done c, t))
    (hrun' : l'.start h.listing s' = (.done c', t')) (hending : c.ending = c'.ending)
    (herrors : c.errors = c'.errors) (hlines : SameLines c.output c'.output) :
    SameListed (h.listed l s).1 (h.listed l' s').1 := by
  rw [listed_eq, listed_eq, hrun, hrun']
  by_cases hsuccess : c.ending.isSuccess = true
  · have hpasted : h.pasted c = .ok (some c.output) := if_pos hsuccess
    have hpasted' : h.pasted c' = .ok (some c'.output) := if_pos (hending ▸ hsuccess)
    rw [given, given, hpasted, hpasted']
    exact .done hlines.mem_namesIn_iff
  · have hsame : h.pasted c = h.pasted c' := by
      rw [pasted, pasted, ← hending, if_neg hsuccess, if_neg hsuccess, herrors]
    rw [given, given, hsame]
    exact .same _

/-- Owners whose lists of targets are of one type and have the same atoms offer the same. -/
theorem X11.Connection.sameListed_of_atoms {c : Connection σ} {s s' t t' : σ} {w w' : Window}
    {v v' : Property} (hclaim : (c.selection s).claim = none)
    (hclaim' : (c.selection s').claim = none) (howner : c.askOwner s = (.done w, t))
    (howner' : c.askOwner s' = (.done w', t')) (hw : w ≠ 0) (hw' : w' ≠ 0)
    (hgot : (c.convert c.atoms.targets t).1 = .done (some v))
    (hgot' : (c.convert c.atoms.targets t').1 = .done (some v')) (htype : v.type = v'.type)
    (hatoms : ∀ a, a ∈ atomsOfOctets v.data.bytes ↔ a ∈ atomsOfOctets v'.data.bytes) :
    SameListed (c.offeredTargets s).1 (c.offeredTargets s').1 := by
  rw [offeredTargets_of_owner hclaim howner hw, offeredTargets_of_owner hclaim' howner' hw', hgot,
    hgot']
  refine .done fun a => ?_
  rw [targetsIn, targetsIn, htype]
  split
  · exact hatoms a
  · exact Iff.rfl

/-- **One listing does for all formats, however it is laid out.**  For every list of formats that
begins with one the backend can ask about, be it a name for a tool or a number for a client of a
display server, and whatever the others are, looking them all up in one listing finds the same
format, or fails with the same failure, as asking about one after the other, if all the listings
that this takes would come to the same.  And what is found, for any list of formats at all, is the
same for listings that come to the same names or targets: for runs of a tool that end alike and
list the same lines in another order, more often or padded otherwise, and for lists of targets
that have the same atoms in another order or more often. -/
theorem picked_from_listing :
    (∀ (h : Helper) (l : Launcher σ) (s : σ) (o : Outcome Failure (List String)) (f : Format)
      (name : String) (rest : List Format), f.id = .named name → (h.listed l).Settled o s →
      ((h.backend l).pick (f :: rest) s).1 = (probe (h.backend l).offers (f :: rest) s).1) ∧
    (∀ (c : Connection σ) (s : σ) (o : Outcome Failure (List Atom)) (f : Format) (a : Atom)
      (rest : List Format), f.id = .number a → c.offeredTargets.Settled o s →
      (c.backend.pick (f :: rest) s).1 = (probe c.backend.offers (f :: rest) s).1) ∧
    (∀ (h : Helper) (l : Launcher σ) (l' : Launcher τ) (s : σ) (s' : τ) (formats : List Format),
      SameListed (h.listed l s).1 (h.listed l' s').1 →
      ((h.backend l).pick formats s).1 = ((h.backend l').pick formats s').1) ∧
    (∀ (h : Helper) (l : Launcher σ) (l' : Launcher τ) (s t : σ) (s' t' : τ) (c c' : Completion)
      (formats : List Format), l.start h.listing s = (.done c, t) →
      l'.start h.listing s' = (.done c', t') → c.ending = c'.ending → c.errors = c'.errors →
      SameLines c.output c'.output →
      ((h.backend l).pick formats s).1 = ((h.backend l').pick formats s').1) ∧
    (∀ (c : Connection σ) (s s' : σ) (formats : List Format),
      SameListed (c.offeredTargets s).1 (c.offeredTargets s').1 →
      (c.backend.pick formats s).1 = (c.backend.pick formats s').1) ∧
    ∀ (c : Connection σ) (s s' t t' : σ) (w w' : Window) (v v' : Property)
      (formats : List Format), (c.selection s).claim = none → (c.selection s').claim = none →
      c.askOwner s = (.done w, t) → c.askOwner s' = (.done w', t') → w ≠ 0 → w' ≠ 0 →
      (c.convert c.atoms.targets t).1 = .done (some v) →
      (c.convert c.atoms.targets t').1 = .done (some v') → v.type = v'.type →
      (∀ a, a ∈ atomsOfOctets v.data.bytes ↔ a ∈ atomsOfOctets v'.data.bytes) →
      (c.backend.pick formats s).1 = (c.backend.pick formats s').1 := by
  refine ⟨?tools, ?clients, ?names, ?lines, ?targets, ?atoms⟩
  case tools =>
    intro h l s o f name rest hid hsettled
    have hown : Helper.target f.id = .ok name := by rw [hid, Helper.target]
    exact pickByListing_eq_probe hsettled hown rest
  case clients =>
    intro c s o f a rest hid hsettled
    have hown : Connection.target f.id = .ok a := by rw [hid, Connection.target]
    exact pickByListing_eq_probe hsettled hown rest
  case names =>
    intro h l l' s s' formats hsame
    exact pickByListing_congr hsame formats
  case lines =>
    intro h l l' s t s' t' c c' formats hrun hrun' hending herrors hlines
    exact pickByListing_congr (Helper.sameListed_of_lines hrun hrun' hending herrors hlines) formats
  case targets =>
    intro c s s' formats hsame
    exact pickByListing_congr hsame formats
  case atoms =>
    intro c s s' t t' w w' v v' formats hclaim hclaim' howner howner' hw hw' hgot hgot' htype hatoms
    exact pickByListing_congr (Connection.sameListed_of_atoms hclaim hclaim' howner howner' hw hw'
      hgot hgot' htype hatoms) formats

/-- A program that lists the same octets whenever it is run. -/
def Launcher.lists (output : Octets) : Launcher Unit where
  finds _ _ := true
  run _ := fun s => (.done { ending := .exited 0, output := output }, s)

/-- A tool that it is the program of. -/
def Helper.lister : Helper := ⟨.wlClipboard, "wl-copy", "wl-paste", some [0x30]⟩

theorem sameLines_relaid :
    SameLines [0x41, 0x0A, 0x42] [0x42, 0x20, 0x0A, 0x09, 0x41, 0x0A, 0x42, 0x0A, 0x20] := by
  have hlines : List.splitOn 0x0A ([0x41, 0x0A, 0x42] : Octets) = [[0x41], [0x42]] := by decide
  have hlines' : List.splitOn 0x0A
      ([0x42, 0x20, 0x0A, 0x09, 0x41, 0x0A, 0x42, 0x0A, 0x20] : Octets) =
        [[0x42, 0x20], [0x09, 0x41], [0x42], [0x20]] := by decide
  have ha : Padded [0x41] [0x41] := ⟨[], [], rfl, nofun⟩
  have hb : Padded [0x42] [0x42] := ⟨[], [], rfl, nofun⟩
  have htab : ∀ c ∈ ['\t'], Blank.isBlank c = true ∧ c ≠ '\n' :=
    List.forall_mem_singleton.mpr (by decide)
  have hspace : ∀ c ∈ [' '], Blank.isBlank c = true ∧ c ≠ '\n' :=
    List.forall_mem_singleton.mpr (by decide)
  have ha' : Padded [0x41] [0x09, 0x41] := ⟨['\t'], [], by decide, htab⟩
  have hb' : Padded [0x42] [0x42, 0x20] := ⟨[], [' '], by decide, hspace⟩
  have hblank : Padded [] [0x20] := ⟨[' '], [], by decide, hspace⟩
  unfold SameLines LinesWithin
  rw [hlines, hlines']
  constructor
  · intro line hline
    simp only [List.mem_cons, List.not_mem_nil, or_false] at hline
    rcases hline with rfl | rfl
    · exact .inr ⟨_, by simp, _, ha, ha'⟩
    · exact .inr ⟨_, by simp, _, hb, hb⟩
  · intro line hline
    simp only [List.mem_cons, List.not_mem_nil, or_false] at hline
    rcases hline with rfl | rfl | rfl | rfl
    · exact .inr ⟨_, by simp, _, hb', hb⟩
    · exact .inr ⟨_, by simp, _, ha', ha⟩
    · exact .inr ⟨_, by simp, _, hb, hb⟩
    · exact .inl hblank

namespace X11.Script

variable {atoms : Atoms} {list : List Atom} {s : Script}

/-- An owner that lists these targets and offers nothing in them. -/
def lister (atoms : Atoms) (list : List Atom) : Script :=
  teller atoms fun target =>
    if target = atoms.targets then .whole ⟨atoms.atom, .atoms list⟩ else .refusal

theorem Rests.lists (h : (lister atoms list).Rests s) (hplace : atoms.transfer ≠ 0)
    (htype : atoms.atom ≠ atoms.incremental) :
    ∃ t, (connection atoms).convert atoms.targets s =
        (.done (some ⟨atoms.atom, .atoms list⟩), t) ∧ (lister atoms list).Rests t := by
  obtain ⟨t, hbrings, hrests⟩ := h.brings hplace atoms.targets
    (by rw [if_pos rfl]; exact htype)
  rw [if_pos rfl] at hbrings
  exact ⟨t, Connection.convert_of_brings (connection_foresees atoms) hbrings, hrests⟩

theorem Rests.offers (h : (lister atoms list).Rests s) (hplace : atoms.transfer ≠ 0)
    (htype : atoms.atom ≠ atoms.incremental) :
    ((connection atoms).offeredTargets s).1 = .done list ∧
      (lister atoms list).Rests ((connection atoms).offeredTargets s).2 := by
  obtain ⟨t, hconvert, hrests⟩ := h.lists hplace htype
  have hclaim : ((connection atoms).selection s).claim = none :=
    congrArg Selection.claim h.selection
  have howner : (connection atoms).askOwner s = (.done 5, s) :=
    congrArg (fun w => (Outcome.done w, s)) h.owner
  rw [Connection.offeredTargets_of_owner hclaim howner (by decide),
    show (connection atoms).convert (connection atoms).atoms.targets s = _ from hconvert]
  refine ⟨?_, hrests⟩
  have hlist : (connection atoms).targetsIn (some ⟨atoms.atom, .atoms list⟩) = list :=
    (if_pos (.inl rfl)).trans (atomsOfOctets_bytes list)
  exact congrArg Outcome.done hlist

end X11.Script

/-- A list of formats that fails at the second of them, and one that does not. -/
theorem picked_from_listing_mixed :
    let a := X11.Server.atoms
    let relaid : Octets := [0x42, 0x20, 0x0A, 0x09, 0x41, 0x0A, 0x42, 0x0A, 0x20]
    let named (name : String) : Format := .readOnly (.named name) .opaqueData
    let numbered (a : Atom) : Format := .readOnly (.number a) .opaqueData
    let tool (output : Octets) := Helper.lister.backend (Launcher.lists output)
    let c := X11.Script.connection a
    let once := X11.Script.lister a [5, 6]
    let twice := X11.Script.lister a [6, 5, 6]
    (((tool relaid).pick [named "C", numbered 7, named "B"] ()).1 =
        (probe (tool relaid).offers [named "C", numbered 7, named "B"] ()).1 ∧
      ((tool relaid).pick [named "C", numbered 7, named "B"] ()).1.value? = none) ∧
    ((c.backend.pick [numbered 5, named "B", numbered 6] once).1 =
        (probe c.backend.offers [numbered 5, named "B", numbered 6] once).1 ∧
      (c.backend.pick [numbered 5, named "B", numbered 6] once).1 =
        .done (some (numbered 5))) ∧
    (((tool [0x41, 0x0A, 0x42]).pick [named "C", named "B", named "A"] ()).1 =
        ((tool relaid).pick [named "C", named "B", named "A"] ()).1 ∧
      ((tool relaid).pick [named "C", named "B", named "A"] ()).1 = .done (some (named "B"))) ∧
    (c.backend.pick [numbered 6, named "B"] once).1 =
        (c.backend.pick [numbered 6, named "B"] twice).1 := by
  intro a relaid named numbered tool c once twice
  obtain ⟨htools, -, -, hlines, -, -⟩ := @picked_from_listing Unit Unit
  obtain ⟨-, hclients, -, -, -, hatoms⟩ := @picked_from_listing X11.Script Unit
  have hplace : a.transfer ≠ 0 := by decide
  have htype : a.atom ≠ a.incremental := by decide
  have hrests (list : List Atom) : (X11.Script.lister a list).Rests (X11.Script.lister a list) :=
    X11.Script.rests_teller a _
  have hgot (list : List Atom) : (c.convert a.targets (X11.Script.lister a list)).1 =
      .done (some ⟨a.atom, .atoms list⟩) := by
    obtain ⟨t, hconvert, -⟩ := (hrests list).lists hplace htype
    rw [show c.convert a.targets _ = _ from hconvert]
  have hsettled := settled_of_unchanged (x := Helper.lister.listed (Launcher.lists relaid))
    (s := ()) (Prod.ext rfl rfl)
  have hsettled' : c.offeredTargets.Settled (.done [5, 6]) once :=
    settled_of_keeps (hrests [5, 6]) fun t ht => ht.offers hplace htype
  refine ⟨⟨htools _ _ _ _ _ _ _ rfl hsettled, ?_⟩, ⟨hclients _ _ _ _ _ _ rfl hsettled', ?_⟩,
    ⟨hlines _ _ _ _ _ _ _ _ _ _ rfl rfl rfl rfl sameLines_relaid, ?_⟩, ?_⟩
  · decide +kernel
  · decide +kernel
  · decide +kernel
  · refine hatoms c once twice once twice 5 5 _ _ _ rfl rfl rfl rfl (by decide) (by decide)
      (hgot [5, 6]) (hgot [6, 5, 6]) rfl fun b => ?_
    rw [atomsOfOctets_bytes, atomsOfOctets_bytes]
    simp only [List.mem_cons, List.not_mem_nil, or_false]
    tauto

end Clipboard
