import Clipboard.Proofs.X11.Displays
import Clipboard.Proofs.X11.Targets
import Clipboard.Proofs.X11.Tidings

/-!
# Answers that arrive

A display is reliable while all that its clients send each other arrives, in the order in which it
was sent and before those who wait for it give up.  A client that asks the owner of the selection
for a target then hears the owner's reply, and finds what the owner has stored.  The owner deals
with what it has been sent before, so it answers with what it is destined to hold.

* `Connection.Carries`: what is sent in answer to an inquiry arrives;
* `Display.Reliable`: the laws of reliable displays;
* `Reliable.convert_eq`: what a conversion comes to is what the owner delivers.
-/

namespace Clipboard.X11

open Action

namespace Connection

variable {σ : Type} {c : Connection σ} {target : Atom} {s : σ} {sel : Selection}

/-- The inquiry by which a client asks for a conversion. -/
def inquiry (c : Connection σ) (target : Atom) : Inquiry :=
  ⟨0, c.window, c.atoms.clipboard, target, c.atoms.transfer⟩

/-- What is sent in answer to an inquiry for a target arrives: the client hears the reply, and then
finds what has been stored for it. -/
def Carries (c : Connection σ) (target : Atom) (posts : List Post) (s : σ) : Prop :=
  ∃ t u, c.send (c.asking target) (c.discard s) = (.done (), t) ∧
    (∀ r, .reply r ∈ posts → c.Waits c.replied t (.done r.property) u) ∧
    ∀ v, .store c.window c.atoms.transfer v ∈ posts → ∃ s', c.collect u = (.done v, s')

/-- What is delivered in one piece is brought to the client. -/
theorem Carries.brings (h : c.Carries target (sel.answer c.atoms (c.inquiry target)) s)
    (hplace : c.atoms.transfer ≠ 0)
    (hwhole : ∀ v, sel.answer? c.atoms (c.inquiry target) = some v →
      v.type ≠ c.atoms.incremental) :
    ∃ u, c.Brings target (.single (sel.answer? c.atoms (c.inquiry target))) s u := by
  obtain ⟨t, u, hsent, hheard, hfound⟩ := h
  rw [Selection.answer] at hheard hfound
  cases hanswer : sel.answer? c.atoms (c.inquiry target) with
  | none =>
      rw [hanswer] at hheard
      exact ⟨u, .refusal ⟨t, hsent, hheard _ List.mem_cons_self⟩⟩
  | some v =>
      rw [hanswer] at hheard hfound
      have hthere : (c.inquiry target).place = c.atoms.transfer := if_neg hplace
      dsimp only at hheard hfound
      rw [hthere] at hheard hfound
      obtain ⟨s', hcollect⟩ := hfound v List.mem_cons_self
      have htold := hheard _ (List.mem_cons_of_mem _ List.mem_cons_self)
      exact ⟨s', .whole ⟨t, hsent, htold⟩ hplace hcollect (hwhole v hanswer)⟩

end Connection

namespace Display

variable {ι σ : Type} {d : Display ι σ} {fair ready : σ → Prop} {i k : ι} {s s' : σ}

/-- What holds of a display, in the states in which all that is sent arrives.  The numbers of names
are told apart in any state. -/
structure Reliable (d : Display ι σ) (fair ready : σ → Prop) : Prop where
  within : ∀ s, ready s → fair s
  /-- All clients go by the same names. -/
  alike : ∀ j k, d.atoms j = d.atoms k
  apart : ∀ k, (d.atoms k).Apart
  foresees : ∀ k, (d.desk k).Foresees
  /-- Reading costs no client its connection. -/
  reads : ∀ k, (d.desk k).Reads fun s s' => ready s → ready s' ∧ ∀ j, d.Alive j s → d.Alive j s'
  named : ∀ k s, ready s → d.Alive k s → ∃ s', (d.desk k).owner s = (.done (d.holder s), s')
  /-- The owner answers another client with what it is destined to hold. -/
  carried : ∀ i k s target, ready s → d.Alive i s → d.Alive k s → k ≠ i →
    d.holder s = d.window i →
      (d.desk k).Carries target
        ((d.destined i s).answer (d.atoms i) ((d.desk k).inquiry target)) s
  /-- No name but its own has the number of a name that the protocol uses. -/
  numbered : ∀ k s name a s', fair s → (d.desk k).intern name s = (.done a, s') →
    (a = (d.atoms k).targets → name = "TARGETS") ∧
      (a = (d.atoms k).incremental → name = "INCR")

/-- What is carried on in peace: all goes on arriving, nobody's ownership changes, and no connection
is lost. -/
def Peaceful (d : Display ι σ) (ready : σ → Prop) (s s' : σ) : Prop :=
  ready s → ready s' ∧ d.Calm s s' ∧ ∀ j, d.Alive j s → d.Alive j s'

namespace Reliable

variable (h : d.Reliable fair ready) (hd : d.Lawful fair)
include h

include hd in
/-- A client that looks at the content does so in peace. -/
theorem peaceful (k : ι) : (d.desk k).Reads (d.Peaceful ready) := by
  have hcalm := (hd.abides k).reads
  have hreads := h.reads k
  have hboth {s s' : σ} (hcalm : fair s → fair s' ∧ d.Calm s s')
      (hready : ready s → ready s' ∧ ∀ j, d.Alive j s → d.Alive j s') : d.Peaceful ready s s' :=
    fun hs => ⟨(hready hs).1, (hcalm (h.within s hs)).2, (hready hs).2⟩
  constructor
  · constructor
    · exact fun s hs => ⟨hs, .refl s, fun _ hj => hj⟩
    · intro s s' s'' hfirst hthen hs
      obtain ⟨hs', hcalm, halive⟩ := hfirst hs
      obtain ⟨hs'', hcalm', halive'⟩ := hthen hs'
      exact ⟨hs'', hcalm.trans hcalm', fun j hj => halive' j (halive j hj)⟩
  · exact fun name s => hboth (hcalm.intern name s) (hreads.intern name s)
  · exact fun s => hboth (hcalm.owner s) (hreads.owner s)
  · exact fun target s => hboth (hcalm.convert target s) (hreads.convert target s)

/-- **What a conversion comes to is what the owner delivers**, unless that looks like the
announcement of content in parts. -/
theorem convert_eq (hs : ready s) (hi : d.Alive i s) (hk : d.Alive k s) (hne : k ≠ i)
    (hown : d.holder s = d.window i) {target : Atom} {content : List (Atom × Octets)}
    (hoffers : (d.destined i s).claim.map (·.items) = some content)
    (hwhole : ∀ v, Selection.delivery? (d.atoms k) content target = some v →
      v.type ≠ (d.atoms k).incremental) :
    ((d.desk k).convert target s).1 =
      .done (Selection.delivery? (d.atoms k) content target) := by
  have hanswer : (d.destined i s).answer? (d.atoms k) ((d.desk k).inquiry target) =
      Selection.delivery? (d.atoms k) content target := by
    obtain ⟨claim, hclaim, rfl⟩ := Option.map_eq_some_iff.mp hoffers
    have hclip : ((d.desk k).inquiry target).selection = (d.atoms k).clipboard := rfl
    rw [Selection.answer?, if_pos hclip, hclaim]
    rfl
  have hcarried := h.carried i k s target hs hi hk hne hown
  rw [h.alike i k] at hcarried
  obtain ⟨u, hbrings⟩ := Connection.Carries.brings (c := d.desk k) hcarried
    (h.apart k).transfer_ne_zero (by
      show ∀ v, (d.destined i s).answer? (d.atoms k) ((d.desk k).inquiry target) = some v → _
      rw [hanswer]
      exact hwhole)
  rw [Connection.convert_of_brings (h.foresees k) hbrings, Tidings.value?_single]
  exact congrArg Outcome.done hanswer

end Reliable

end Display

end Clipboard.X11
