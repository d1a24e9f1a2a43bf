import Clipboard.Proofs.X11.Claiming
import Clipboard.Proofs.X11.Connections
import Clipboard.Proofs.X11.Events

/-!
# Displays

Several clients share a display server, and what the server does for them is told by laws.  Times
are issued one after the other.  Ownership passes to a window from an instant that is no earlier
than the last, and the client that loses it is told so with that instant, after all that it has
been sent before.  A client that makes a claim with a time that was issued since becomes the owner,
unless its claim gets lost or the server leaves the selection to another.  Apart from this nobody's
ownership changes, and no client is told that it does.

How soon a client deals with what it is sent is not said, nor how long it takes to answer, nor when
a connection is lost.

* `Display.Calm`: something by which nobody's ownership changes;
* `Display.Passes`: the selection passes to a window;
* `Display.Lawful`: the laws;
* `Display.Stays.destined`, `Display.Passes.destined`: what the clients are destined to hold then.
-/

namespace Clipboard.X11

open Action

/-- Clients that share a display server. -/
structure Display (ι σ : Type) where
  desk : ι → Connection σ
  /-- The window that owns the selection, or zero. -/
  holder : σ → Window
  /-- The instant from which the selection has its owner. -/
  since : σ → Nat
  /-- The present instant. -/
  now : σ → Nat
  /-- The events that a client has been sent and has not dealt with, oldest first. -/
  queue : ι → σ → List Event
  /-- The notices that it has not looked at, oldest first. -/
  inbox : ι → σ → List Notice

namespace Display

variable {ι σ : Type} (d : Display ι σ)

/-- The window of a client. -/
def window (k : ι) : Window := (d.desk k).window

/-- The names that the server numbers. -/
def atoms (k : ι) : Atoms := (d.desk k).atoms

/-- A client has its connection. -/
def Alive (k : ι) (s : σ) : Prop := ((d.desk k).selection s).alive = true

def mailbox (k : ι) (s : σ) : Mailbox := ⟨(d.desk k).selection s, d.queue k s, d.inbox k s⟩

/-- What a client will hold when it has dealt with all that it has been sent. -/
def destined (k : ι) (s : σ) : Selection := (d.mailbox k s).destined (d.atoms k) (d.window k)

/-- No dispossession is on its way to a client. -/
def Settled (k : ι) (s : σ) : Prop := ∀ e ∈ d.queue k s, e.isLoss = false

/-- A client has dealt with some events and has been sent others, none of which is a dispossession.
The times that are told are issued meanwhile. -/
def Fares (k : ι) (looked : List Notice) (s s' : σ) : Prop :=
  Mailbox.Fares (·.Issued (d.since s) (d.now s')) (d.atoms k) (d.window k) looked
    (d.mailbox k s) (d.mailbox k s')

/-- A client that is there has been there before, and owns the selection if it has before. -/
structure Stays (k : ι) (s s' : σ) : Prop where
  alive : d.Alive k s
  owner : d.holder s' = d.window k ↔ d.holder s = d.window k
  fares : ∃ looked, d.Fares k looked s s'

/-- Nobody's ownership has changed, as far as the clients are there. -/
structure Calm (s s' : σ) : Prop where
  since : d.since s' = d.since s
  now : d.now s ≤ d.now s'
  each : ∀ k, d.Alive k s' → d.Stays k s s'

/-- A client has come, and nothing else has happened. -/
structure Comes (i : ι) (s s' : σ) : Prop where
  since : d.since s' = d.since s
  now : d.now s ≤ d.now s'
  each : ∀ k, k ≠ i → d.Alive k s' → d.Stays k s s'
  holdsNothing : ((d.desk i).selection s').claim = none
  ownsNothing : d.holder s' ≠ d.window i
  settled : d.Settled i s'

/-- The event by which a client is told that the selection has another owner. -/
def loss (k : ι) (instant : Nat) : Event :=
  .dispossessed ⟨.ofNat instant, d.window k, (d.atoms k).clipboard⟩

/-- The selection has passed to a window, and the client that has lost it is sent the news. -/
structure Passes (w : Window) (s s' : σ) : Prop where
  holder : d.holder s' = w
  since : d.since s ≤ d.since s'
  now : d.now s ≤ d.now s'
  alive : ∀ k, d.Alive k s' → d.Alive k s
  told : ∀ k, d.Alive k s' → d.holder s = d.window k → w ≠ d.window k →
    d.mailbox k s' = { d.mailbox k s with queue := d.queue k s ++ [d.loss k (d.since s')] }
  others : ∀ k, d.Alive k s' → ¬ (d.holder s = d.window k ∧ w ≠ d.window k) →
    d.mailbox k s' = d.mailbox k s

/-- What a client has in place has changed, and nothing else. -/
structure Places (k : ι) (sel : Selection) (s s' : σ) : Prop where
  holder : d.holder s' = d.holder s
  since : d.since s' = d.since s
  now : d.now s' = d.now s
  alive : ∀ j, d.Alive j s' ↔ d.Alive j s
  own : d.Alive k s → d.mailbox k s' = { d.mailbox k s with held := sel }
  others : ∀ j, j ≠ k → d.mailbox j s' = d.mailbox j s

/-- What becomes of a claim with a time: it gets lost or is refused, or the client owns the
selection from that time on.  A client that is told nothing else about a claim that was refused is
not the owner. -/
inductive Contends (k : ι) (t : Timestamp) (s : σ) : Outcome Hitch Unit → σ → Prop
  | refused {r : Outcome Hitch Unit} {s' : σ} (hcalm : d.Calm s s')
      (hother : r = .done () → d.Alive k s' → d.holder s' ≠ d.window k) : Contends k t s r s'
  | granted {r : Outcome Hitch Unit} {u v s' : σ} (hbefore : d.Calm s u)
      (hpasses : d.Passes (d.window k) u v) (hsince : .ofNat (d.since v) = t)
      (hafter : d.Calm v s') : Contends k t s r s'

/-- What the clients rely on, in all states of a fair server. -/
structure Lawful (d : Display ι σ) (fair : σ → Prop) : Prop where
  apart : ∀ j k, d.window j = d.window k → j = k
  there : ∀ k, d.window k ≠ 0
  abides : ∀ k, (d.desk k).Abides fun s s' => fair s → fair s' ∧ d.Calm s s'
  /-- The notice that is heard is the last that has been looked at. -/
  heard : ∀ k s m s', fair s → (d.desk k).listen s = (.notice m, s') → d.Alive k s' →
    ∃ looked, d.Fares k (looked ++ [m]) s s'
  /-- A client that passes over the notices passes over all that have come in. -/
  discarded : ∀ k s, fair s → d.Alive k ((d.desk k).discard s) →
    ∃ later, d.Fares k (d.inbox k s ++ later) s ((d.desk k).discard s)
  placed : ∀ k sel s, fair s → sel.alive = ((d.desk k).selection s).alive →
    fair ((d.desk k).setSelection sel s) ∧ d.Places k sel s ((d.desk k).setSelection sel s)
  claims : ∀ k s n, fair s → d.Alive k s → (.ofNat n : Timestamp) ≠ 0 → d.since s ≤ n →
    n ≤ d.now s →
      let r := (d.desk k).send [.claim (d.window k) (d.atoms k).clipboard (.ofNat n)] s
      fair r.2 ∧ d.Contends k (.ofNat n) s r.1 r.2
  /-- Without its connection a client claims nothing. -/
  silenced : ∀ k s t, fair s → ¬ d.Alive k s →
    let s' := ((d.desk k).send [.claim (d.window k) (d.atoms k).clipboard t] s).2
    fair s' ∧ d.Calm s s'
  /-- The window that is named as the owner is the owner. -/
  named : ∀ k s w s', fair s → (d.desk k).owner s = (.done w, s') → d.holder s' = w
  sends : ∀ k posts s, ((d.desk k).send posts s).1 ≠ .unwound
  answers : ∀ k s, ((d.desk k).owner s).1 ≠ .unwound

variable {d} {s s' s'' : σ} {k : ι} {w : Window} {sel : Selection}

/-! ## While nobody's ownership changes -/

theorem Fares.trans {looked later : List Notice} (h : d.Fares k looked s s')
    (h' : d.Fares k later s' s'') (hsince : d.since s' = d.since s) (hnow : d.now s' ≤ d.now s'') :
    d.Fares k (looked ++ later) s s'' := by
  have hfirst : Mailbox.Fares (·.Issued (d.since s) (d.now s'')) (d.atoms k) (d.window k) looked
      (d.mailbox k s) (d.mailbox k s') :=
    Mailbox.Fares.mono h fun e he => he.mono (Nat.le_refl _) hnow
  have hthen : Mailbox.Fares (·.Issued (d.since s) (d.now s'')) (d.atoms k) (d.window k) later
      (d.mailbox k s') (d.mailbox k s'') :=
    Mailbox.Fares.mono h' fun e he => he.mono (Nat.le_of_eq hsince.symm) (Nat.le_refl _)
  exact Mailbox.Fares.trans hfirst hthen

namespace Stays

theorem trans (h : d.Stays k s s') (h' : d.Stays k s' s'') (hsince : d.since s' = d.since s)
    (hnow : d.now s' ≤ d.now s'') : d.Stays k s s'' where
  alive := h.alive
  owner := h'.owner.trans h.owner
  fares := by
    obtain ⟨looked, hfares⟩ := h.fares
    obtain ⟨later, hfares'⟩ := h'.fares
    exact ⟨looked ++ later, hfares.trans hfares' hsince hnow⟩

theorem destined (h : d.Stays k s s') : d.destined k s' = d.destined k s := by
  obtain ⟨looked, hfares⟩ := h.fares
  exact Mailbox.Fares.destined hfares fun e he => he.not_loss

theorem settled (h : d.Stays k s s') (hs : d.Settled k s) : d.Settled k s' := by
  obtain ⟨looked, hfares⟩ := h.fares
  exact Mailbox.Fares.settled hfares (fun e he => he.not_loss) hs

end Stays

namespace Calm

theorem refl (s : σ) : d.Calm s s where
  since := rfl
  now := Nat.le_refl _
  each _ hk := ⟨hk, Iff.rfl, [], .refl _⟩

theorem trans (h : d.Calm s s') (h' : d.Calm s' s'') : d.Calm s s'' where
  since := h'.since.trans h.since
  now := Nat.le_trans h.now h'.now
  each k hk := (h.each k (h'.each k hk).alive).trans (h'.each k hk) h.since h'.now

end Calm

/-- A fair server is fair all along, and nobody's ownership changes. -/
theorem bounds_calm (d : Display ι σ) (fair : σ → Prop) :
    Bounds fun s s' => fair s → fair s' ∧ d.Calm s s' where
  refl s hs := ⟨hs, .refl s⟩
  trans h h' hs := by
    obtain ⟨ht, hfirst⟩ := h hs
    obtain ⟨hu, hthen⟩ := h' ht
    exact ⟨hu, hfirst.trans hthen⟩

/-! ## When the selection passes on -/

namespace Passes

theorem destined (h : d.Passes w s s') (hk : d.Alive k s') (hw : w = d.window k) :
    d.destined k s' = d.destined k s := by
  rw [Display.destined, h.others k hk fun hboth => hboth.2 hw]
  rfl

/-- A client that has lost the selection is destined to hold nothing, if its claim is not so old
that the news looks older. -/
theorem destined_of_lost (h : d.Passes w s s') (hk : d.Alive k s') (hown : d.holder s = d.window k)
    (hw : w ≠ d.window k)
    (hclaim : ∀ c, (d.destined k s).claim = some c → c.since = .ofNat (d.since s))
    (hnear : d.since s' < d.since s + 2147483648) : (d.destined k s').claim = none := by
  have hheard : d.destined k s' =
      (d.destined k s).hear (d.atoms k) (d.window k)
        ⟨.ofNat (d.since s'), d.window k, (d.atoms k).clipboard⟩ := by
    rw [Display.destined, h.told k hk hown hw]
    exact List.foldl_append
  rw [hheard, Selection.hear, if_pos ⟨rfl, rfl⟩]
  cases hc : (d.destined k s).claim with
  | none => simp [Selection.yieldTo, hc]
  | some c =>
      have hsince : (d.destined k s).claim = some ⟨c.items, .ofNat (d.since s)⟩ :=
        hc.trans (hclaim c hc ▸ rfl)
      exact Selection.claim_yieldTo hsince h.since hnear

theorem destined_of_other (h : d.Passes w s s') (hk : d.Alive k s')
    (hown : d.holder s ≠ d.window k) : d.destined k s' = d.destined k s := by
  rw [Display.destined, h.others k hk fun hboth => hown hboth.1]
  rfl

end Passes

/-- A client to which no dispossession is on its way holds what it is destined to hold. -/
theorem destined_of_settled (h : d.Settled k s) : d.destined k s = (d.desk k).selection s :=
  Mailbox.destined_of_settled (m := d.mailbox k s) h

namespace Places

theorem destined_of_ne (h : d.Places k sel s s') {j : ι} (hj : j ≠ k) :
    d.destined j s' = d.destined j s := by
  rw [Display.destined, h.others j hj]
  rfl

theorem selection (h : d.Places k sel s s') (hk : d.Alive k s) :
    (d.desk k).selection s' = sel := congrArg Mailbox.held (h.own hk)

theorem settled (h : d.Places k sel s s') (hk : d.Alive k s) (hs : d.Settled k s) :
    d.Settled k s' := by
  unfold Settled
  rw [show d.queue k s' = d.queue k s from congrArg Mailbox.queue (h.own hk)]
  exact hs

end Places

end Display

end Clipboard.X11
