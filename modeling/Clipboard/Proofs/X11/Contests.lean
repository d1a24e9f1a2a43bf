import Clipboard.Proofs.X11.Displays

/-!
# How a claim runs on a display

A client that offers new content learns the time, puts the content in place, makes its claim and
asks who the owner is.  The news that it is sent comes in order.  So when it has heard of a time
that was issued in the meantime, it has dealt with all dispossessions from before, and none of them
can be mistaken for news of the new claim.

* `Display.Rested`: the times on their way to a client are issued in the meantime;
* `Display.Lawful.learnTime_fresh`: so is the time that it learns;
* `Display.Claims`, `Display.Lawful.claim_cases`: how a claim runs.
-/

namespace Clipboard.X11

open Action

/-- The content has been put in place, and nobody says what has become of the claim. -/
def Connection.Unheard {σ : Type} (c : Connection σ) (content : List (Atom × Octets)) (s : σ) :
    Prop :=
  ∃ t s₁ e, c.learnTime s = (.done t, s₁) ∧
    (c.contend t (c.amend (·.take content t) s₁).2).1 = .failed e

namespace Display

variable {ι σ : Type} {d : Display ι σ} {fair : σ → Prop} {s s' : σ} {k : ι} {t : Timestamp}

/-- Of the times that are on their way to a client, none comes before news of a loss, and none is
from before the selection had its owner. -/
def Rested (d : Display ι σ) (k : ι) (s : σ) : Prop :=
  ∃ before after, d.queue k s = before ++ after ∧
    (∀ m t, (d.desk k).stamped m = some t → .noticed m ∉ before) ∧
    ∀ e ∈ after, e.Issued (d.since s) (d.now s)

/-- So it is where nothing but news of losses is on the way. -/
theorem rested_of_no_notice (h : ∀ e ∈ d.queue k s, e.isNotice = false) : d.Rested k s := by
  refine ⟨d.queue k s, [], (List.append_nil _).symm, fun m t _ hm => ?_, by simp⟩
  have hnotice := h _ hm
  cases hnotice

/-! ## Learning the time -/

theorem stamped_eq_some {c : Connection σ} {m : Notice} (h : c.stamped m = some t) :
    ∃ n, m = .changed n ∧ n.time = t := by
  cases m with
  | replied r => cases h
  | changed n =>
      simp only [Connection.stamped] at h
      split at h
      · exact ⟨n, rfl, Option.some.inj h⟩
      · cases h

namespace Lawful

variable (h : d.Lawful fair)
include h

/-- A client that has heard what it waits for has looked at that notice last. -/
theorem fares_awaitAmong {α : Type} {accept : Notice → Option α} {a : α} (n : Nat) :
    ∀ s, fair s → (d.desk k).awaitAmong accept n s = (.done a, s') → d.Alive k s' →
      ∃ looked m, accept m = some a ∧ d.Fares k (looked ++ [m]) s s' := by
  induction n with
  | zero => exact fun s _ hrun => nomatch hrun
  | succ n ih =>
      intro s hs hrun hk
      obtain ⟨m, t, hheard, -⟩ := Connection.awaitAmong_heard (congrArg Prod.fst hrun)
      have hcalm : fair t ∧ d.Calm s t := by
        have hlisten := (h.abides k).listen s hs
        rw [hheard] at hlisten
        exact hlisten
      cases hm : accept m with
      | some a' =>
          rw [Connection.awaitAmong_of_accepted hheard hm] at hrun
          cases hrun
          obtain ⟨looked, hfares⟩ := h.heard k s m s' hs hheard hk
          exact ⟨looked, m, hm, hfares⟩
      | none =>
          rw [Connection.awaitAmong_of_other hheard hm] at hrun
          obtain ⟨looked, m', hm', hfares⟩ := ih t hcalm.1 hrun hk
          have hlater : d.Calm t s' := by
            have hwaited := Connection.confined_awaitAmong (bounds_calm d fair)
              (h.abides k).listen accept n t hcalm.1
            rw [hrun] at hwaited
            exact hwaited.2
          obtain ⟨first, hfirst⟩ := h.heard k s m t hs hheard (hlater.each k hk).alive
          refine ⟨first ++ [m] ++ looked, m', hm', ?_⟩
          rw [List.append_assoc]
          exact hfirst.trans hfares hcalm.2.since hlater.now

/-- The time that a client learns was issued in the meantime, and all dispossessions from before
have been dealt with. -/
theorem learnTime_fresh (hs : fair s) (hrested : d.Rested k s)
    (hrun : (d.desk k).learnTime s = (.done t, s')) (hk : d.Alive k s') :
    d.Settled k s' ∧ t ≠ 0 ∧ ∃ n, t = .ofNat n ∧ d.since s' ≤ n ∧ n ≤ d.now s' := by
  obtain ⟨_, s₁, hdiscard, hrun⟩ := bind_eq_done hrun
  obtain rfl : s₁ = (d.desk k).discard s := (congrArg Prod.snd hdiscard).symm
  obtain ⟨_, s₂, hsent, hawait⟩ := bind_eq_done hrun
  obtain ⟨hfair₁, hcalm₁⟩ := (h.abides k).discard s hs
  obtain ⟨hfair₂, hcalm₂⟩ : fair s₂ ∧ d.Calm ((d.desk k).discard s) s₂ := by
    have hposts := (h.abides k).send [.touch (d.window k) (d.atoms k).timestamp] (by simp) _ hfair₁
    have hsame := mapCause_eq_done hsent
    rw [show (d.desk k).send [.touch (d.window k) (d.atoms k).timestamp] _ = _ from hsame] at hposts
    exact hposts
  have hcalm₃ : d.Calm s₂ s' := by
    have hwaited := (h.abides k).awaitNotice (d.desk k).stamped s₂ hfair₂
    rw [hawait] at hwaited
    exact hwaited.2
  have hcalm : d.Calm s s' := hcalm₁.trans (hcalm₂.trans hcalm₃)
  -- The notice that tells the time has been heard after all that came in before.
  obtain ⟨looked, m, hm, hheard⟩ := h.fares_awaitAmong _ s₂ hfair₂ hawait hk
  have hstays := hcalm₂.each k (hcalm₃.each k hk).alive
  obtain ⟨later, hpassed⟩ := h.discarded k s hs hstays.alive
  obtain ⟨others, hother⟩ := hstays.fares
  have hfares : d.Fares k (d.inbox k s ++ (later ++ others ++ looked) ++ [m]) s s' := by
    have hall := (hpassed.trans hother hcalm₁.since hcalm₂.now).trans hheard
      (hcalm₂.since.trans hcalm₁.since) hcalm₃.now
    simpa only [List.append_assoc] using hall
  obtain ⟨before, after, hqueue, hbefore, hafter⟩ := hrested
  obtain ⟨hissued, hleft⟩ := Mailbox.Fares.fresh (m := d.mailbox k s) hfares hqueue
    (hbefore m t hm) fun e he => (hafter e he).mono (Nat.le_refl _) hcalm.now
  refine ⟨fun e he => (hleft e he).not_loss, ?_⟩
  obtain ⟨c, rfl, rfl⟩ := stamped_eq_some hm
  obtain ⟨hzero, n, hn, hsince, hnow⟩ := hissued
  exact ⟨hzero, n, hn, hcalm.since ▸ hsince, hnow⟩

end Lawful

theorem Calm.rested (h : d.Calm s s') (hk : d.Alive k s') (hrested : d.Rested k s) :
    d.Rested k s' := by
  obtain ⟨before, after, hqueue, hbefore, hafter⟩ := hrested
  obtain ⟨looked, dealt, sent, hdealt, hsent, -, -⟩ := (h.each k hk).fares
  have hlater : ∀ e ∈ after ++ sent, e.Issued (d.since s') (d.now s') := by
    intro e he
    rw [h.since]
    rcases List.mem_append.mp he with he | he
    · exact (hafter e he).mono (Nat.le_refl _) h.now
    · exact hsent e he
  have hsplit : before ++ (after ++ sent) = dealt ++ d.queue k s' := by
    rw [← List.append_assoc, ← hqueue]
    exact hdealt
  rcases List.append_eq_append_iff.mp hsplit with ⟨more, rfl, hmore⟩ | ⟨rest, rfl, hrest⟩
  · rw [hmore, List.forall_mem_append] at hlater
    exact ⟨[], _, rfl, fun _ _ _ => List.not_mem_nil, hlater.2⟩
  · refine ⟨rest, after ++ sent, hrest, fun m t hm hmem => ?_, hlater⟩
    exact hbefore m t hm (List.mem_append_right dealt hmem)

/-! ## Making a claim -/

/-- How a client offers new content: it does not get as far as the claim; or the content is in place
when the claim is made and is given up again, since another is the owner or nobody says who it is;
or the client is the owner. -/
inductive Claims (d : Display ι σ) (k : ι) (content : List (Atom × Octets)) (s : σ) :
    Outcome Failure Unit → σ → Prop
  | untimed {r : Outcome Failure Unit} {s' : σ} (hfails : r ≠ .done ()) (hcalm : d.Calm s s') :
      Claims d k content s r s'
  | withdrawn {e : Failure} {t : Timestamp} {r : Outcome Hitch Unit} {s₁ s₂ s₃ s₄ s' : σ}
      (hlearnt : d.Calm s s₁)
      (hplaced : d.Places k (((d.desk k).selection s₁).take content t) s₁ s₂)
      (hcontends : d.Contends k t s₂ r s₃) (hafter : d.Calm s₃ s₄)
      (hreleased : d.Places k ((d.desk k).selection s₄).release s₄ s')
      (hother : d.holder s' ≠ d.window k ∨ (d.desk k).Unheard content s) :
      Claims d k content s (.failed e) s'
  | made {t : Timestamp} {s₁ s₂ s₃ s' : σ} (hlearnt : d.Calm s s₁)
      (hsettled : d.Alive k s₁ → d.Settled k s₁)
      (hplaced : d.Places k (((d.desk k).selection s₁).take content t) s₁ s₂)
      (hcontends : d.Contends k t s₂ (.done ()) s₃) (hafter : d.Calm s₃ s')
      (howns : d.holder s' = d.window k) : Claims d k content s (.done ()) s'

namespace Lawful

variable (h : d.Lawful fair)
include h

/-- A claim is granted or not, if its time was issued in the meantime. -/
theorem contends (hs : fair s)
    (hissued : d.Alive k s → t ≠ 0 ∧ ∃ n, t = .ofNat n ∧ d.since s ≤ n ∧ n ≤ d.now s) :
    let r := (d.desk k).send [.claim (d.window k) (d.atoms k).clipboard t] s
    fair r.2 ∧ d.Contends k t s r.1 r.2 := by
  by_cases hk : d.Alive k s
  · obtain ⟨hzero, n, rfl, hsince, hnow⟩ := hissued hk
    exact h.claims k s n hs hk hzero hsince hnow
  · obtain ⟨hfair, hcalm⟩ := h.silenced k s t hs hk
    exact ⟨hfair, .refused hcalm fun _ hlater => absurd (hcalm.each k hlater).alive hk⟩

theorem claim_cases (hs : fair s) (hrested : d.Alive k s → d.Rested k s)
    (content : List (Atom × Octets)) :
    let r := (d.desk k).claim content s
    fair r.2 ∧ d.Claims k content s r.1 r.2 := by
  intro r
  have hlearn := (h.abides k).learnTime s hs
  have hfresh {t : Timestamp} {s₁ : σ} (htime : (d.desk k).learnTime s = (.done t, s₁))
      (hlearnt : d.Calm s s₁) (hk : d.Alive k s₁) :=
    h.learnTime_fresh hs (hrested (hlearnt.each k hk).alive) htime hk
  rcases htime : (d.desk k).learnTime s with ⟨t | e | _, s₁⟩ <;> rw [htime] at hlearn
  · obtain ⟨hfair₁, hlearnt⟩ := hlearn
    let s₂ := ((d.desk k).amend (·.take content t) s₁).2
    obtain ⟨hfair₂, hplaced⟩ : fair s₂ ∧
        d.Places k (((d.desk k).selection s₁).take content t) s₁ s₂ :=
      h.placed k _ s₁ hfair₁ rfl
    let sent := (d.desk k).send [.claim (d.window k) (d.atoms k).clipboard t] s₂
    obtain ⟨hfair₃, hcontends⟩ : fair sent.2 ∧ d.Contends k t s₂ sent.1 sent.2 := by
      refine h.contends hfair₂ fun hk => ?_
      rw [hplaced.since, hplaced.now]
      exact (hfresh htime hlearnt ((hplaced.alive k).mp hk)).2
    -- What is in place is given up, unless the client is the owner.
    have hwithdrawn {e : Failure} {s₄ : σ} (hfair₄ : fair s₄) (hafter : d.Calm sent.2 s₄)
        (hother : d.holder s₄ ≠ d.window k ∨ (d.desk k).Unheard content s)
        (hrun : (d.desk k).claim content s =
          (.failed e, ((d.desk k).amend Selection.release s₄).2)) :
        fair r.2 ∧ d.Claims k content s r.1 r.2 := by
      obtain ⟨hfair', hreleased⟩ := h.placed k ((d.desk k).selection s₄).release s₄ hfair₄ rfl
      rw [show r = _ from hrun]
      exact ⟨hfair', .withdrawn hlearnt hplaced hcontends hafter hreleased
        (hreleased.holder ▸ hother)⟩
    rcases Connection.contend_cases t s₂ (h.sends k _ s₂) with ⟨e, hcontend⟩ | ⟨hdone, hcontend⟩
    · exact hwithdrawn hfair₃ (.refl _)
        (.inr ⟨t, s₁, e, htime, congrArg Prod.fst hcontend⟩)
        (Connection.claim_of_contend_failed htime hcontend)
    · have hasked := (h.abides k).owner sent.2 hfair₃
      rcases howner : (d.desk k).owner sent.2 with ⟨w | fault | _, s₄⟩ <;> rw [howner] at hasked
      · obtain ⟨hfair₄, hafter⟩ := hasked
        have hw := h.named k sent.2 w s₄ hfair₃ howner
        have hrun : (d.desk k).claim content s = _ := Connection.claim_of_contend_done htime
          (hcontend.trans (mapCause_of_done howner))
        by_cases hown : w = (d.desk k).window
        · rw [if_pos hown] at hrun
          rw [show r = _ from hrun]
          refine ⟨hfair₄, .made hlearnt (fun hk => ?_) hplaced (hdone ▸ hcontends) hafter
            (hw.trans hown)⟩
          exact (hfresh htime hlearnt hk).1
        · rw [if_neg hown] at hrun
          exact hwithdrawn hfair₄ hafter (.inl (hw ▸ hown)) hrun
      · have hfailed := hcontend.trans (mapCause_of_failed howner)
        exact hwithdrawn hasked.1 hasked.2 (.inr ⟨t, s₁, _, htime, congrArg Prod.fst hfailed⟩)
          (Connection.claim_of_contend_failed htime hfailed)
      · exact absurd (congrArg Prod.fst howner) (h.answers k sent.2)
  · rw [show r = (.failed e, s₁) from bind_failed htime _]
    exact ⟨hlearn.1, .untimed (by simp) hlearn.2⟩
  · rw [show r = (.unwound, s₁) from bind_unwound htime _]
    exact ⟨hlearn.1, .untimed (by simp) hlearn.2⟩

end Lawful

end Display

end Clipboard.X11
