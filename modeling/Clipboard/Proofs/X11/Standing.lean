import Mathlib.Data.List.Basic
import Clipboard.Proofs.X11.Ownership
import Clipboard.Proofs.X11.Relays

/-!
# Content that stands

After a client has written, and as long as nobody else takes the selection, its content stands: it
owns the selection, and no other client is destined to hold anything.  Whoever looks at the
clipboard then finds this content.  The owner looks at what it holds, and every other client is sent
it, which takes quite another way and makes little difference.

* `Sound.stands`: content that has been written stands;
* `Stands.calm`, `Stands.comes`: it goes on standing;
* `Sees.pick_text`, `Sees.read`: what a client finds that has been told of its losses.
-/

namespace Clipboard.X11

open Action

/-- Items make one content. -/
theorem Claim.items_of_offers {items : List (Format × Payload)} {c c' : Claim}
    (h : c.Offers items) (h' : c'.Offers items) : c.items = c'.items := by
  have hinj : Function.Injective fun x : Atom × Octets => (Format.Id.number x.1, x.2) := by
    rintro ⟨a, bytes⟩ ⟨a', bytes'⟩ heq
    simpa using heq
  exact List.map_injective_iff.mpr hinj (h.trans h'.symm)

namespace Display

variable {ι σ : Type} {d : Display ι σ} {fair ready : σ → Prop} {i j k : ι} {s s' : σ}
  {content : List (Atom × Octets)}

/-- A client offers content, if it has its connection, and no other client is destined to. -/
structure Stands (d : Display ι σ) (i : ι) (content : List (Atom × Octets)) (s : σ) : Prop where
  owner : d.Alive i s → d.holder s = d.window i
  settled : d.Alive i s → d.Settled i s
  offers : d.Alive i s → ((d.desk i).selection s).claim.map (·.items) = some content
  others : ∀ k, k ≠ i → d.Alive k s → (d.destined k s).claim = none

namespace Stands

/-- What a client offers goes on being offered where it stays. -/
theorem offers_of_stays (h : d.Stands i content s) (hstays : d.Stays i s s') :
    ((d.desk i).selection s').claim.map (·.items) = some content := by
  have hsettled := h.settled hstays.alive
  rw [← destined_of_settled (hstays.settled hsettled), hstays.destined,
    destined_of_settled hsettled]
  exact h.offers hstays.alive

theorem calm (h : d.Stands i content s) (hcalm : d.Calm s s') : d.Stands i content s' where
  owner hi := (hcalm.each i hi).owner.mpr (h.owner (hcalm.each i hi).alive)
  settled hi := (hcalm.each i hi).settled (h.settled (hcalm.each i hi).alive)
  offers hi := h.offers_of_stays (hcalm.each i hi)
  others k hk halive := by
    rw [(hcalm.each k halive).destined]
    exact h.others k hk (hcalm.each k halive).alive

/-- A client that comes has nothing to offer. -/
theorem comes (h : d.Stands i content s) (hne : i ≠ j) (hcomes : d.Comes j s s') :
    d.Stands i content s' where
  owner hi := (hcomes.each i hne hi).owner.mpr (h.owner (hcomes.each i hne hi).alive)
  settled hi := (hcomes.each i hne hi).settled (h.settled (hcomes.each i hne hi).alive)
  offers hi := h.offers_of_stays (hcomes.each i hne hi)
  others k hk halive := by
    by_cases hkj : k = j
    · subst hkj
      rw [destined_of_settled hcomes.settled]
      exact hcomes.holdsNothing
    · rw [(hcomes.each k hkj halive).destined]
      exact h.others k hk (hcomes.each k hkj halive).alive

end Stands

/-! ## After a writing -/

/-- A claim that is made leaves its content standing. -/
theorem Claims.stands (hd : d.Lawful fair) (h : d.Claims i content s (.done ()) s')
    (hcontent : ∀ t, (Claim.mk content t).Offers items) (htimely : d.Timely s s')
    (haccords : ∀ k, d.Alive k s → ∃ items unsure, d.Accords k items unsure s) :
    d.Stands i content s' := by
  have hmade (hi : d.Alive i s') :
      d.holder s' = d.window i ∧ d.Settled i s' ∧ d.Accords i items False s' :=
    h.accords_of_made hi hcontent
  have howner : d.holder s' = d.window i := by
    cases h with
    | untimed hfails _ => exact absurd rfl hfails
    | made _ _ _ _ _ howns => exact howns
  refine ⟨fun _ => howner, fun hi => (hmade hi).2.1, fun hi => ?_, fun k hk halive => ?_⟩
  · obtain ⟨-, hsettled, hheld, howned⟩ := hmade hi
    obtain ⟨c, hc⟩ := Option.ne_none_iff_exists'.mp (howned howner id)
    rw [← destined_of_settled hsettled, hc, Option.map_some]
    exact congrArg some (Claim.items_of_offers (hheld c hc).2.1 (hcontent 0))
  · obtain ⟨items', unsure, hbefore⟩ := haccords k (h.alive halive)
    have hne : d.window i ≠ d.window k := fun hw => hk (hd.apart i k hw).symm
    have hafter := h.accords_of_ne hne htimely halive hbefore
    cases hclaim : (d.destined k s').claim with
    | none => rfl
    | some c => exact absurd (howner.symm.trans (hafter.held c hclaim).1) hne

theorem Timely.of_calm {s'' : σ} (h : d.Timely s s'') (hcalm : d.Calm s s')
    (halive : ∀ k, d.Alive k s'' → d.Alive k s') : d.Timely s' s'' := by
  intro k hk hown hlost
  have hbefore := (hcalm.each k (halive k hk)).owner.mp hown
  rw [hcalm.since]
  exact h k hk hbefore hlost

/-- A display stays fair when a client writes. -/
theorem Lawful.fair_of_write (hd : d.Lawful fair) (hfair : fair s) (hrested : d.Rested i s)
    (items : List (Format × Payload)) : fair ((d.desk i).backend.write items s).2 := by
  cases hof : (d.desk i).contentOf items with
  | error e =>
      rw [Connection.write_of_error hof]
      exact hfair
  | ok content =>
      rw [Connection.write_eq_claim hof]
      exact (hd.claim_cases hfair (fun _ => hrested) content).1

/-- What has been written stands. -/
theorem Sound.stands {x : Chronicle ι σ} {items : List (Format × Payload)} (h : d.Sound fair x)
    (hd : d.Lawful fair) (hfair : fair s) (hcalm : d.Calm x.state s)
    (hrested : d.Rested i x.state) (htimely : d.Timely x.state s')
    (hrun : (d.desk i).backend.write items s = (.done (), s')) :
    fair s' ∧ ∃ content, (d.desk i).contentOf items = .ok content ∧ d.Stands i content s' := by
  cases hof : (d.desk i).contentOf items with
  | error e =>
      have hfailed := Connection.write_of_error hof s
      cases hrun.symm.trans hfailed
  | ok content =>
      obtain ⟨hfair', hclaims⟩ := hd.claim_cases hfair (fun hi => hcalm.rested hi hrested) content
      rw [← Connection.write_eq_claim hof, hrun] at hfair' hclaims
      have hlater := htimely.of_calm hcalm fun k hk => hclaims.alive hk
      refine ⟨hfair', content, rfl, ?_⟩
      refine hclaims.stands hd (Connection.contentOf_offers hof) hlater fun k hk => ?_
      exact ⟨_, _, (h.each k (hcalm.each k hk).alive).calm hcalm hk⟩

/-! ## What a client finds -/

/-- All that is sent arrives, and a client and the owner of the selection are both there.  If they
are not the same, the client has been told of its losses. -/
structure Reaches (d : Display ι σ) (ready : σ → Prop) (i k : ι) (s : σ) : Prop where
  ready : ready s
  there : d.Alive i s
  alive : d.Alive k s
  settled : k ≠ i → d.Settled k s

/-- A client reaches the content that stands. -/
structure Sees (d : Display ι σ) (ready : σ → Prop) (i k : ι) (content : List (Atom × Octets))
    (s : σ) : Prop extends Reaches d ready i k s where
  stands : d.Stands i content s

/-- The targets that a client finds listed. -/
def listing [DecidableEq ι] (d : Display ι σ) (i k : ι) (content : List (Atom × Octets)) :
    List Atom :=
  if k = i then content.map (·.1) else Selection.offered (d.atoms k) content

namespace Sees

variable (h : d.Sees ready i k content s)
include h

theorem next (hpeace : d.Peaceful ready s s') : d.Sees ready i k content s' := by
  obtain ⟨hready, hcalm, halive⟩ := hpeace h.ready
  have hk := halive k h.alive
  exact ⟨⟨hready, halive i h.there, hk, fun hne => (hcalm.each k hk).settled (h.settled hne)⟩,
    h.stands.calm hcalm⟩

theorem own_of_owner (hk : k = i) : (d.desk k).own s = (.done (some content), s) := by
  subst hk
  rw [Connection.own_eq, h.stands.offers h.there]

theorem unclaimed (hk : k ≠ i) : ((d.desk k).selection s).claim = none := by
  rw [← destined_of_settled (h.settled hk)]
  exact h.stands.others k hk h.alive

section

variable (hr : d.Reliable fair ready) (hd : d.Lawful fair)
include hr

/-- What the owner sends another client. -/
theorem convert_eq (hk : k ≠ i) {target : Atom}
    (hwhole : ∀ v, Selection.delivery? (d.atoms k) content target = some v →
      v.type ≠ (d.atoms k).incremental) :
    ((d.desk k).convert target s).1 =
      .done (Selection.delivery? (d.atoms k) content target) := by
  refine hr.convert_eq h.ready h.there h.alive hk (h.stands.owner h.there) ?_ hwhole
  rw [destined_of_settled (h.stands.settled h.there)]
  exact h.stands.offers h.there

include hd

/-- The client lists its own targets, or the list comes from the owner. -/
theorem offeredTargets_eq [DecidableEq ι] :
    ∃ s', (d.desk k).offeredTargets s = (.done (d.listing i k content), s') ∧
      d.Sees ready i k content s' := by
  have hlater := h.next ((hr.peaceful hd k).offeredTargets s)
  refine ⟨_, Prod.ext ?_ rfl, hlater⟩
  by_cases hk : k = i
  · rw [show (d.desk k).offeredTargets s = _ from bind_done (h.own_of_owner hk) _, listing,
      if_pos hk]
    rfl
  · obtain ⟨t, howner⟩ := hr.named k s h.ready h.alive
    have hasked : (d.desk k).askOwner s = (.done (d.holder s), t) := mapCause_of_done howner
    have hthere : d.Sees ready i k content t := by
      have hpeace := (hr.peaceful hd k).owner s
      rw [howner] at hpeace
      exact h.next hpeace
    have hsome : d.holder s ≠ 0 := h.stands.owner h.there ▸ hd.there i
    have hlist : Selection.delivery? (d.atoms k) content (d.atoms k).targets =
        some ⟨(d.atoms k).atom, .atoms (Selection.offered (d.atoms k) content)⟩ := if_pos rfl
    have hconverted : ((d.desk k).convert (d.atoms k).targets t).1 = _ :=
      hthere.convert_eq hr hk fun v hv => by
        obtain rfl := Option.some.inj (hlist.symm.trans hv)
        exact (hr.apart k).plain.1
    rw [Connection.offeredTargets_of_owner (h.unclaimed hk) hasked hsome, listing, if_neg hk]
    show Outcome.map _ ((d.desk k).convert (d.atoms k).targets t).1 = _
    rw [hconverted, hlist]
    show Outcome.done ((d.desk k).targetsIn (some ⟨(d.desk k).atoms.atom, _⟩)) = _
    rw [Connection.targetsIn, if_pos (.inl rfl), atomsOfOctets_bytes]

/-- The client takes its own content, or is sent that of the owner.  The two differ where the number
of a name means something of its own. -/
theorem read {a : Atom} (encoding : Encoding) (writable : Bool)
    (hplain : k ≠ i → a ≠ (d.atoms k).targets ∧ a ≠ (d.atoms k).incremental ∧
      (d.desk k).fits a encoding a = true) :
    ∃ s', (d.desk k).backend.read ⟨.number a, encoding, writable⟩ s =
        (.done ((content.find? fun x => x.1 = a).map fun x => ⟨x.2, encoding⟩), s') ∧
      d.Sees ready i k content s' := by
  have hread : ((d.desk k).readTarget a encoding s).1 =
      .done ((content.find? fun x => x.1 = a).map (·.2)) := by
    by_cases hk : k = i
    · rw [show (d.desk k).readTarget a encoding s = _ from bind_done (h.own_of_owner hk) _]
      rfl
    · obtain ⟨htargets, hparts, hfits⟩ := hplain hk
      have hsent : Selection.delivery? (d.atoms k) content a =
          (content.find? fun x => x.1 = a).map fun x => ⟨x.1, .octets x.2⟩ := if_neg htargets
      have htype {x : Atom × Octets} (hx : content.find? (fun x => x.1 = a) = some x) :
          x.1 = a := by simpa using List.find?_some hx
      have hconverted : ((d.desk k).convert a s).1 = _ := h.convert_eq hr hk fun v hv => by
        obtain ⟨x, hx, rfl⟩ := Option.map_eq_some_iff.mp (hsent.symm.trans hv)
        rw [htype hx]
        exact hparts
      rw [hsent] at hconverted
      rw [Connection.readTarget_of_unclaimed (h.unclaimed hk) (Prod.ext hconverted rfl)]
      cases hx : content.find? fun x => x.1 = a with
      | none => rfl
      | some x =>
          rw [Option.map_some, Option.bind_some, htype hx, if_pos hfits]
          rfl
  have hlater := h.next ((hr.peaceful hd k).readTarget a encoding s)
  refine ⟨_, ?_, hlater⟩
  refine (bind_done (x := (d.desk k).readTarget a encoding) (Prod.ext hread rfl) _).trans ?_
  rw [Option.map_map]
  rfl

/-- A client picks the most preferred target of text that it finds listed. -/
theorem pick_text [DecidableEq ι] :
    ∃ s', (d.desk k).backend.pick (d.desk k).textFormats s =
        (.done (((d.atoms k).textTargets.find? fun target =>
          (d.listing i k content).contains target).map (d.atoms k).formatOfText), s') ∧
      d.Sees ready i k content s' := by
  obtain ⟨s', hoffered, hlater⟩ := h.offeredTargets_eq hr hd
  exact ⟨s', Connection.pick_text (hr.apart k) hoffered, hlater⟩

end

end Sees

end Display

end Clipboard.X11
