import Clipboard.Proofs.X11.Hosting

/-!
# Who holds content

The invariant of runs ties what each client is destined to hold to the owner of the selection.
While a client makes a claim it holds content that is not its to offer yet, so the invariant is
first kept for all others.

* `Display.Accords`: what a client is destined to hold agrees with who owns the selection;
* `Accords.contends`, `Accords.passes`: this is kept when the selection passes on;
* `Display.Claims.accords`: so it is when a client writes, whatever comes of it;
* `Display.content_iff_owner`: a client that has been told all that there is to be told holds
  content if it owns the selection, and not otherwise.
-/

namespace Clipboard.X11

open Action

namespace Display

variable {ι σ : Type} {d : Display ι σ} {fair : σ → Prop} {s s' : σ} {j k : ι} {w : Window}
  {items : List (Format × Payload)} {unsure unsure' : Prop} {sel : Selection}

/-- What a client is destined to hold is what it last wrote, and it is the owner; and it is destined
to hold something if it is the owner and sure of it. -/
structure Accords (d : Display ι σ) (k : ι) (items : List (Format × Payload)) (unsure : Prop)
    (s : σ) : Prop where
  held : ∀ c, (d.destined k s).claim = some c →
    d.holder s = d.window k ∧ c.Offers items ∧ c.since = .ofNat (d.since s)
  owned : d.holder s = d.window k → ¬ unsure → (d.destined k s).claim ≠ none

namespace Accords

/-- A client that is destined to hold nothing is not the owner, or not sure of it. -/
theorem of_blank (hblank : (d.destined k s).claim = none)
    (howned : d.holder s = d.window k → unsure) : d.Accords k items unsure s where
  held c hc := by
    rw [hblank] at hc
    cases hc
  owned hown hsure := absurd (howned hown) hsure

theorem mono (h : d.Accords k items unsure s) (himp : unsure → unsure') :
    d.Accords k items unsure' s :=
  ⟨h.held, fun hown hsure => h.owned hown fun hunsure => hsure (himp hunsure)⟩

theorem of_same (h : d.Accords k items unsure s) (hdestined : d.destined k s' = d.destined k s)
    (howner : d.holder s' = d.window k ↔ d.holder s = d.window k)
    (hsince : d.since s' = d.since s) : d.Accords k items unsure s' where
  held c hc := by
    obtain ⟨hown, hoffers, hc'⟩ := h.held c (hdestined ▸ hc)
    exact ⟨howner.mpr hown, hoffers, hsince ▸ hc'⟩
  owned hown hsure := by
    rw [hdestined]
    exact h.owned (howner.mp hown) hsure

theorem calm (h : d.Accords k items unsure s) (hcalm : d.Calm s s') (hk : d.Alive k s') :
    d.Accords k items unsure s' :=
  h.of_same (hcalm.each k hk).destined (hcalm.each k hk).owner hcalm.since

/-- Whoever owned the selection before is destined to hold nothing when it has passed on. -/
theorem passes (h : d.Accords k items unsure s) (hpasses : d.Passes w s s') (hk : d.Alive k s')
    (hw : w ≠ d.window k)
    (hnear : d.holder s = d.window k → d.since s' < d.since s + 2147483648) :
    d.Accords k items unsure s' := by
  refine of_blank ?_ fun hown => absurd (hpasses.holder.symm.trans hown) hw
  by_cases hown : d.holder s = d.window k
  · exact hpasses.destined_of_lost hk hown hw (fun c hc => (h.held c hc).2.2) (hnear hown)
  · rw [hpasses.destined_of_other hk hown]
    cases hclaim : (d.destined k s).claim with
    | none => rfl
    | some c => exact absurd (h.held c hclaim).1 hown

/-- What another client puts in place is no business of this one. -/
theorem places (h : d.Accords k items unsure s) (hplaces : d.Places j sel s s') (hne : k ≠ j) :
    d.Accords k items unsure s' :=
  h.of_same (hplaces.destined_of_ne hne) (by rw [hplaces.holder]) hplaces.since

/-- A claim of another client is kept by those who have no part in it. -/
theorem contends {t : Timestamp} {r : Outcome Hitch Unit} (h : d.Accords k items unsure s)
    (hcontends : d.Contends j t s r s') (hk : d.Alive k s') (hne : d.window j ≠ d.window k)
    (hnear : d.holder s = d.window k → d.holder s' ≠ d.window k →
      d.since s' < d.since s + 2147483648) : d.Accords k items unsure s' := by
  cases hcontends with
  | refused hcalm _ => exact h.calm hcalm hk
  | granted hbefore hpasses _ hafter =>
      have hlater := hafter.each k hk
      have hk' := hpasses.alive k hlater.alive
      refine ((h.calm hbefore hk').passes hpasses hlater.alive hne fun hown => ?_).calm hafter hk
      have hlost : d.holder s' ≠ d.window k := fun hheld =>
        hne (hpasses.holder.symm.trans (hlater.owner.mp hheld))
      have hnear' := hnear ((hbefore.each k hk').owner.mp hown) hlost
      rwa [hafter.since, ← hbefore.since] at hnear'

end Accords

/-! ## The client that makes a claim -/

namespace Contends

variable {t : Timestamp} {r : Outcome Hitch Unit}

theorem alive (h : d.Contends k t s r s') (hj : d.Alive j s') : d.Alive j s := by
  cases h with
  | refused hcalm _ => exact (hcalm.each j hj).alive
  | granted hbefore hpasses _ hafter =>
      exact (hbefore.each j (hpasses.alive j (hafter.each j hj).alive)).alive

/-- Its claim makes no difference to what a client is destined to hold. -/
theorem destined (h : d.Contends k t s r s') (hk : d.Alive k s') :
    d.destined k s' = d.destined k s := by
  cases h with
  | refused hcalm _ => exact (hcalm.each k hk).destined
  | granted hbefore hpasses _ hafter =>
      have hlater := hafter.each k hk
      rw [hlater.destined, hpasses.destined hlater.alive rfl,
        (hbefore.each k (hpasses.alive k hlater.alive)).destined]

theorem settled (h : d.Contends k t s r s') (hk : d.Alive k s') (hs : d.Settled k s) :
    d.Settled k s' := by
  cases h with
  | refused hcalm _ => exact (hcalm.each k hk).settled hs
  | granted hbefore hpasses _ hafter =>
      have hlater := hafter.each k hk
      refine hlater.settled ?_
      unfold Settled
      rw [show d.queue k _ = d.queue k _ from
        congrArg Mailbox.queue (hpasses.others k hlater.alive fun hboth => hboth.2 rfl)]
      exact (hbefore.each k (hpasses.alive k hlater.alive)).settled hs

/-- A client that owns the selection after its claim does so from the time of the claim. -/
theorem since_eq (h : d.Contends k t s (.done ()) s') (hk : d.Alive k s')
    (hown : d.holder s' = d.window k) : .ofNat (d.since s') = t := by
  cases h with
  | refused _ hother => exact absurd hown (hother rfl hk)
  | granted _ _ hsince hafter => rw [hafter.since, hsince]

end Contends

namespace Claims

variable {content : List (Atom × Octets)} {r : Outcome Failure Unit}

theorem alive (h : d.Claims k content s r s') (hj : d.Alive j s') : d.Alive j s := by
  cases h with
  | untimed _ hcalm => exact (hcalm.each j hj).alive
  | withdrawn hlearnt hplaced hcontends hafter hreleased _ =>
      have hj₄ := (hafter.each j ((hreleased.alive j).mp hj)).alive
      exact (hlearnt.each j ((hplaced.alive j).mp (hcontends.alive hj₄))).alive
  | made hlearnt _ hplaced hcontends hafter _ =>
      have hj₃ := (hafter.each j hj).alive
      exact (hlearnt.each j ((hplaced.alive j).mp (hcontends.alive hj₃))).alive

/-- A claim of another client is kept by those who have no part in it. -/
theorem accords_of_ne (h : d.Claims j content s r s') (hne : d.window j ≠ d.window k)
    (htimely : d.Timely s s') (hk : d.Alive k s') (haccords : d.Accords k items unsure s) :
    d.Accords k items unsure s' := by
  have hjk : k ≠ j := fun hsame => hne (by rw [hsame])
  cases h with
  | untimed _ hcalm => exact haccords.calm hcalm hk
  | withdrawn hlearnt hplaced hcontends hafter hreleased _ =>
      have hk₄ := (hreleased.alive k).mp hk
      have hk₃ := (hafter.each k hk₄).alive
      have hk₁ := (hplaced.alive k).mp (hcontends.alive hk₃)
      refine ((((haccords.calm hlearnt hk₁).places hplaced hjk).contends hcontends hk₃ hne
        fun hown hlost => ?_).calm hafter hk₄).places hreleased hjk
      rw [hplaced.holder, (hlearnt.each k hk₁).owner] at hown
      rw [ne_eq, ← (hafter.each k hk₄).owner, ← hreleased.holder] at hlost
      rw [← hafter.since, ← hreleased.since, hplaced.since, hlearnt.since]
      exact htimely k hk hown hlost
  | made hlearnt _ hplaced hcontends hafter _ =>
      have hk₃ := (hafter.each k hk).alive
      have hk₁ := (hplaced.alive k).mp (hcontends.alive hk₃)
      refine (((haccords.calm hlearnt hk₁).places hplaced hjk).contends hcontends hk₃ hne
        fun hown hlost => ?_).calm hafter hk
      rw [hplaced.holder, (hlearnt.each k hk₁).owner] at hown
      rw [ne_eq, ← (hafter.each k hk).owner] at hlost
      rw [← hafter.since, hplaced.since, hlearnt.since]
      exact htimely k hk hown hlost

/-- A client whose claim is made owns the selection, with the new content, and is sent no news that
could end it. -/
theorem accords_of_made (h : d.Claims k content s (.done ()) s') (hk : d.Alive k s')
    (hcontent : ∀ t, (Claim.mk content t).Offers items) :
    d.holder s' = d.window k ∧ d.Settled k s' ∧ d.Accords k items unsure s' := by
  cases h with
  | untimed hfails _ => exact absurd rfl hfails
  | @made t _ _ _ _ hlearnt hsettled hplaced hcontends hafter howns =>
      have hstays := hafter.each k hk
      have hk₂ := hcontends.alive hstays.alive
      have hk₁ := (hplaced.alive k).mp hk₂
      have hsettled₂ := hplaced.settled hk₁ (hsettled hk₁)
      have hclaim : (d.destined k s').claim = some ⟨content, t⟩ := by
        rw [hstays.destined, hcontends.destined hstays.alive, destined_of_settled hsettled₂,
          hplaced.selection hk₁]
        rfl
      have hsince := hcontends.since_eq hstays.alive (hstays.owner.mp howns)
      refine ⟨howns, hstays.settled (hcontends.settled hstays.alive hsettled₂), ?_, ?_⟩
      · intro c hc
        cases hclaim.symm.trans hc
        exact ⟨howns, hcontent _, by rw [hafter.since, hsince]⟩
      · intro _ _ hnone
        cases hclaim.symm.trans hnone

/-- A client whose claim has failed holds what it held before, or nothing. -/
theorem accords_of_failed (h : d.Claims k content s r s') (hfails : r ≠ .done ())
    (hk : d.Alive k s') (haccords : d.Accords k items unsure s) :
    d.Accords k items (unsure ∨ (d.desk k).Unheard content s) s' := by
  cases h with
  | untimed _ hcalm => exact (haccords.calm hcalm hk).mono .inl
  | withdrawn _ _ _ _ hreleased hother =>
      refine .of_blank ?_ fun hown => .inr (hother.resolve_left fun hne => hne hown)
      have hheld : (d.mailbox k s').held.claim = none := by
        rw [hreleased.own ((hreleased.alive k).mp hk)]
        rfl
      exact Selection.claim_foldl_learn_of_none _ hheld
  | made _ _ _ _ _ _ => exact absurd rfl hfails

end Claims

/-! ## Whatever is done -/

variable [DecidableEq ι] {x : Chronicle ι σ}

/-- The invariant. -/
structure Sound (d : Display ι σ) (fair : σ → Prop) (x : Chronicle ι σ) : Prop where
  fair : fair x.state
  each : ∀ k, d.Alive k x.state → d.Accords k (x.last k) (x.unsure k) x.state

namespace Sound

omit [DecidableEq ι] in
theorem calm (h : d.Sound fair x) (hfair : fair s') (hcalm : d.Calm x.state s') :
    d.Sound fair { x with state := s' } :=
  ⟨hfair, fun k hk => (h.each k (hcalm.each k hk).alive).calm hcalm hk⟩

/-- A claim keeps the invariant, whatever comes of it. -/
theorem claimed (h : d.Sound fair x) (hd : d.Lawful fair) {content : List (Atom × Octets)}
    {r : Outcome Failure Unit} (hof : (d.desk k).contentOf items = .ok content)
    (hfair : fair s') (hclaims : d.Claims k content x.state r s')
    (htimely : d.Timely x.state s') : d.Sound fair (d.wrote x k items (r, s')) := by
  refine ⟨hfair, fun j hj => ?_⟩
  have hbefore := h.each j (hclaims.alive hj)
  by_cases hjk : j = k
  · subst hjk
    by_cases hdone : r = .done ()
    · subst hdone
      simp only [wrote, if_pos, Function.update_self]
      exact (hclaims.accords_of_made hj (Connection.contentOf_offers hof)).2.2
    · simp only [wrote, if_neg hdone, Function.update_self]
      refine (hclaims.accords_of_failed hdone hj hbefore).mono fun hunsure => ⟨hdone, ?_⟩
      exact hunsure.imp_right fun hunheard => ⟨content, hof, hunheard⟩
  · have hlast : (d.wrote x k items (r, s')).last j = x.last j := by
      unfold wrote
      dsimp only
      split
      · exact Function.update_of_ne hjk _ _
      · rfl
    have hunsure : (d.wrote x k items (r, s')).unsure j = x.unsure j :=
      Function.update_of_ne hjk _ _
    rw [hlast, hunsure]
    exact hclaims.accords_of_ne (fun hw => hjk (hd.apart k j hw).symm) htimely hj hbefore

theorem writes (h : d.Sound fair x) (hd : d.Lawful fair) (items : List (Format × Payload))
    (hrested : d.Rested k x.state)
    (htimely : d.Timely x.state ((d.desk k).backend.write items x.state).2) :
    d.Sound fair (d.wrote x k items ((d.desk k).backend.write items x.state)) := by
  cases hof : (d.desk k).contentOf items with
  | error e =>
      rw [Connection.write_of_error hof]
      have hfails : (.failed e : Outcome Failure Unit) ≠ .done () := by simp
      have hlast : (d.wrote x k items (.failed e, x.state)).last = x.last := by
        simp only [wrote, if_neg hfails]
      refine ⟨h.fair, fun j hj => ?_⟩
      rw [hlast]
      refine (h.each j hj).mono fun hunsure => ?_
      by_cases hjk : j = k
      · subst hjk
        simp only [wrote, Function.update_self]
        exact ⟨hfails, .inl hunsure⟩
      · simp only [wrote, Function.update_of_ne hjk]
        exact hunsure
  | ok content =>
      rw [Connection.write_eq_claim hof] at htimely ⊢
      obtain ⟨hfair, hclaims⟩ := hd.claim_cases h.fair (fun _ => hrested) content
      exact h.claimed hd hof hfair hclaims htimely

end Sound

theorem Lived.sound (hd : d.Lawful fair) (h : d.Lived fair x) : d.Sound fair x := by
  induction h with
  | start hfair hnothing hnobody =>
      exact ⟨hfair, fun k hk => .of_blank (hnothing k hk) fun hown => hnobody k hown⟩
  | writes k items _ hrested htimely ih => exact ih.writes hd items hrested htimely
  | clears k _ hrested htimely ih => exact ih.writes hd [] hrested htimely
  | looks k l _ ih =>
      obtain ⟨hfair, hcalm⟩ := (hd.abides k).reads.leave l _ ih.fair
      exact ih.calm hfair hcalm
  | goesOn _ hfair hcalm ih => exact ih.calm hfair hcalm
  | comes k _ hfair hcomes ih =>
      refine ⟨hfair, fun j hj => ?_⟩
      by_cases hjk : j = k
      · subst hjk
        refine .of_blank ?_ fun hown => absurd hown hcomes.ownsNothing
        rw [destined_of_settled hcomes.settled]
        exact hcomes.holdsNothing
      · have hstays := hcomes.each j hjk hj
        exact (ih.each j hstays.alive).of_same hstays.destined hstays.owner hcomes.since
  | passes w _ hfair hother hpasses htimely ih =>
      refine ⟨hfair, fun j hj => ?_⟩
      exact (ih.each j (hpasses.alive j hj)).passes hpasses hj (hother j) fun hown =>
        htimely j hj hown fun hheld => hother j (hpasses.holder.symm.trans hheld)

/-- **Content follows the selection.**  On any display that keeps to the laws, a client that has
dealt with all news that it was sent and holds content owns the selection, and its content is what
it last wrote; and if it owns the selection, it holds content, unless it has made a claim since of
which it was not told what became.  So no two clients hold content. -/
theorem content_iff_owner (hd : d.Lawful fair) (h : d.Lived fair x) (hk : d.Alive k x.state)
    (hsettled : d.Settled k x.state) :
    (∀ c, ((d.desk k).selection x.state).claim = some c →
      d.holder x.state = d.window k ∧ c.Offers (x.last k)) ∧
    (¬ x.unsure k → (((d.desk k).selection x.state).claim.isSome = true ↔
      d.holder x.state = d.window k)) ∧
    ∀ j, d.Alive j x.state → d.Settled j x.state →
      ((d.desk j).selection x.state).claim.isSome = true →
      ((d.desk k).selection x.state).claim.isSome = true → j = k := by
  -- Without news on its way, a client holds what it is destined to hold.
  have hholds {j : ι} (hj : d.Alive j x.state) (hsettled : d.Settled j x.state) :
      ∀ c, ((d.desk j).selection x.state).claim = some c →
        d.holder x.state = d.window j ∧ c.Offers (x.last j) := by
    intro c hc
    rw [← destined_of_settled hsettled] at hc
    obtain ⟨hown, hoffers, -⟩ := ((h.sound hd).each j hj).held c hc
    exact ⟨hown, hoffers⟩
  refine ⟨hholds hk hsettled, fun hsure => ⟨fun hclaim => ?_, fun hown => ?_⟩,
    fun j hj hsettled' hjclaim hkclaim => ?_⟩
  · obtain ⟨c, hc⟩ := Option.isSome_iff_exists.mp hclaim
    exact (hholds hk hsettled c hc).1
  · rw [← destined_of_settled hsettled]
    exact Option.isSome_iff_ne_none.mpr (((h.sound hd).each k hk).owned hown hsure)
  · obtain ⟨c, hc⟩ := Option.isSome_iff_exists.mp hjclaim
    obtain ⟨c', hc'⟩ := Option.isSome_iff_exists.mp hkclaim
    exact hd.apart j k ((hholds hj hsettled' c hc).1.symm.trans (hholds hk hsettled c' hc').1)

end Display

/-! ## A selection that changes hands -/

namespace Server

/-- The clients of a server with messages of the usual size. -/
def usual : Display (Fin capacity) Server :=
  display (fun _ => 16384) fun _ => Duration.ofMillis 50

theorem usual_lawful : usual.Lawful Fair := lawful _ _

/-- The first client. -/
def first : Fin capacity := ⟨0, by decide⟩

/-- The second client. -/
def second : Fin capacity := ⟨1, by decide⟩

/-- A word of one letter as text. -/
def letter (c : UInt8) : List (Format × Payload) :=
  [(⟨.number atoms.utf8, .utf8, true⟩, ⟨[c], .utf8⟩)]

/-- A client of a server has written a letter. -/
def lettered (x : Chronicle (Fin capacity) Server) (k : Fin capacity) (c : UInt8) :
    Chronicle (Fin capacity) Server :=
  usual.wrote x k (letter c) ((usual.desk k).backend.write (letter c) x.state)

/-- Two clients write at the same instant, and the first once more before it has heard of the
second.  Then all deal with what they have been sent. -/
def contested : Chronicle (Fin capacity) Server :=
  let x := lettered (lettered (lettered { state := gathering 2 } first 97) second 98) first 99
  { x with state := x.state.settle }

theorem lived_lettered {x : Chronicle (Fin capacity) Server} {k : Fin capacity} {c : UInt8}
    (h : usual.Lived Fair x) (hquiet : ∀ e ∈ usual.queue k x.state, e.isNotice = false)
    (hnear : usual.since (lettered x k c).state < usual.since x.state + 2147483648) :
    usual.Lived Fair (lettered x k c) :=
  .writes k _ h (Display.rested_of_no_notice hquiet) (usual.timely_of_near hnear)

/-- The first client has the last word, and is the only one that holds content. -/
theorem content_iff_owner_contested :
    (usual.Lived Fair contested ∧
      usual.Alive first contested.state ∧ usual.Settled first contested.state) ∧
    (((usual.desk first).selection contested.state).claim.isSome = true ↔
      usual.holder contested.state = usual.window first) ∧
    usual.holder contested.state = usual.window first ∧
    ((usual.desk second).selection contested.state).claim = none := by
  have hfirst : usual.Lived Fair (lettered { state := gathering 2 } first 97) :=
    lived_lettered (lived_gathering (by decide)) (by decide +kernel) (by decide +kernel)
  have hsecond : usual.Lived Fair
      (lettered (lettered { state := gathering 2 } first 97) second 98) :=
    lived_lettered hfirst (by decide +kernel) (by decide +kernel)
  have hthird : usual.Lived Fair
      (lettered (lettered (lettered { state := gathering 2 } first 97) second 98) first 99) :=
    lived_lettered hsecond (by decide +kernel) (by decide +kernel)
  obtain ⟨hfair, hcalm⟩ := calm_of_steady (fun _ => 16384)
    (fun _ => .ofMillis 50) (hthird.sound usual_lawful).fair (settle_steady _)
  have hlived : usual.Lived Fair contested := hthird.goesOn hfair hcalm
  have halive : usual.Alive first contested.state := by
    unfold Display.Alive
    decide +kernel
  have hsettled : usual.Settled first contested.state := by
    unfold Display.Settled
    decide +kernel
  obtain ⟨-, hiff, -⟩ := Display.content_iff_owner usual_lawful hlived halive hsettled
  refine ⟨⟨hlived, halive, hsettled⟩, hiff ?_, by decide +kernel, by decide +kernel⟩
  rintro ⟨hfails, -⟩
  exact hfails (by decide +kernel)

/-- A client that writes twice, and is not told the second time who owns the selection. -/
def unanswered : Chronicle (Fin capacity) Server :=
  let x := lettered { state := gathering 1 } first 97
  lettered { x with state := { x.state with hidesOwner := true } } first 98

/-- It has given up its content and is still the owner. -/
theorem owner_without_content :
    usual.Lived Fair unanswered ∧ usual.Alive first unanswered.state ∧
      usual.queue first unanswered.state = [] ∧
      ((usual.desk first).selection unanswered.state).claim = none ∧
      usual.holder unanswered.state = usual.window first := by
  have hfirst : usual.Lived Fair (lettered { state := gathering 1 } first 97) :=
    lived_lettered (lived_gathering (by decide)) (by decide +kernel) (by decide +kernel)
  have hfair := (hfirst.sound usual_lawful).fair
  have hhides : usual.Lived Fair { lettered { state := gathering 1 } first 97 with
      state := { (lettered { state := gathering 1 } first 97).state with hidesOwner := true } } :=
    hfirst.goesOn ⟨hfair.room, hfair.owner_lt, hfair.alive, hfair.takesOver, hfair.refusesClaims,
      hfair.told, hfair.since, hfair.named, hfair.numbered⟩
      (calm_of_clients rfl rfl rfl (Nat.le_refl _))
  have hlived : usual.Lived Fair unanswered :=
    lived_lettered hhides (by decide +kernel) (by decide +kernel)
  refine ⟨hlived, ?_, ?_, ?_, ?_⟩
  · unfold Display.Alive
    decide +kernel
  · decide +kernel
  · decide +kernel
  · decide +kernel

end Server

end Clipboard.X11
