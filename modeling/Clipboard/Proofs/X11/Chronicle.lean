import Mathlib.Logic.Function.Basic
import Clipboard.Proofs.X11.Contests

/-!
# Runs of a display

A run of a display: any number of clients that write, clear and look, other clients that take the
selection and give it up, and whatever goes on besides.  A `Chronicle` keeps what a run has been so
far, as far as it is needed to say what each client ought to hold.

A client that is told of a dispossession gives its content up, if its claim is not so old that the
news looks older than the claim.  `Timely` says that none is.  A time that a client has asked for
may come so late that it stopped waiting for it; while such a time is on its way to a client, it
writes nothing, as `Rested` says.  A display has `Lived` if all this was so all along.
-/

namespace Clipboard.X11

/-- A way to look at a clipboard. -/
inductive Look where
  | formats (kind : Kind)
  | offers (id : Format.Id)
  | picks (among : List Format)
  | reads (f : Format)

/-- The state that a look leaves behind, whatever it comes to. -/
def Look.leave {σ : Type} (b : Backend σ) : Look → σ → σ
  | .formats kind, s => (b.formatsFor kind s).2
  | .offers id, s => (b.offers id s).2
  | .picks among, s => (b.pick among s).2
  | .reads f, s => (b.read f s).2

theorem Connection.Reads.leave {σ : Type} {c : Connection σ} {R : σ → σ → Prop} (h : c.Reads R)
    (l : Look) (s : σ) : R s (l.leave c.backend s) := by
  cases l with
  | formats kind => exact h.formatsFor kind s
  | offers id => exact h.offers id s
  | picks among => exact h.pick among s
  | reads f => exact h.read f s

/-- The state of a display, and what has been done so far. -/
structure Chronicle (ι σ : Type) where
  state : σ
  /-- What each client last wrote. -/
  last : ι → List (Format × Payload) := fun _ => []
  /-- A client has made a claim since then and was not told what became of it. -/
  unsure : ι → Prop := fun _ => False

namespace Display

variable {ι σ : Type} [DecidableEq ι] (d : Display ι σ)

/-- A writing, and what has become of it. -/
def wrote (x : Chronicle ι σ) (k : ι) (items : List (Format × Payload))
    (r : Outcome Failure Unit × σ) : Chronicle ι σ where
  state := r.2
  last := if r.1 = .done () then Function.update x.last k items else x.last
  unsure := Function.update x.unsure k <| r.1 ≠ .done () ∧
    (x.unsure k ∨ ∃ content, (d.desk k).contentOf items = .ok content ∧
      (d.desk k).Unheard content x.state)

omit [DecidableEq ι] in
/-- No client loses the selection so long after it has become the owner that the times of both
cannot be told apart. -/
def Timely (s s' : σ) : Prop :=
  ∀ k, d.Alive k s' → d.holder s = d.window k → d.holder s' ≠ d.window k →
    d.since s' < d.since s + 2147483648

omit [DecidableEq ι] in
theorem timely_of_near {s s' : σ} (h : d.since s' < d.since s + 2147483648) : d.Timely s s' :=
  fun _ _ _ _ => h

/-- What can come of a display on which nobody has had anything to offer. -/
inductive Lived (fair : σ → Prop) : Chronicle ι σ → Prop
  | start {s : σ} (hfair : fair s)
      (hnothing : ∀ k, d.Alive k s → (d.destined k s).claim = none)
      (hnobody : ∀ k, d.holder s ≠ d.window k) : Lived fair { state := s }
  | writes {x : Chronicle ι σ} (k : ι) (items : List (Format × Payload)) (h : Lived fair x)
      (hrested : d.Rested k x.state)
      (htimely : d.Timely x.state ((d.desk k).backend.write items x.state).2) :
      Lived fair (d.wrote x k items ((d.desk k).backend.write items x.state))
  | clears {x : Chronicle ι σ} (k : ι) (h : Lived fair x) (hrested : d.Rested k x.state)
      (htimely : d.Timely x.state ((d.desk k).backend.clear x.state).2) :
      Lived fair (d.wrote x k [] ((d.desk k).backend.clear x.state))
  | looks {x : Chronicle ι σ} (k : ι) (l : Look) (h : Lived fair x) :
      Lived fair { x with state := l.leave (d.desk k).backend x.state }
  /-- Clients deal with what they have been sent, time passes, connections are lost, or the server
  refuses what it did not refuse before. -/
  | goesOn {x : Chronicle ι σ} {s' : σ} (h : Lived fair x) (hfair : fair s')
      (hcalm : d.Calm x.state s') : Lived fair { x with state := s' }
  | comes {x : Chronicle ι σ} {s' : σ} (k : ι) (h : Lived fair x) (hfair : fair s')
      (hcomes : d.Comes k x.state s') : Lived fair { x with state := s' }
  /-- Another client takes the selection, or it is left without an owner. -/
  | passes {x : Chronicle ι σ} {s' : σ} (w : Window) (h : Lived fair x) (hfair : fair s')
      (hother : ∀ k, w ≠ d.window k) (hpasses : d.Passes w x.state s')
      (htimely : d.Timely x.state s') : Lived fair { x with state := s' }

end Display

end Clipboard.X11
