import Clipboard.X11.Backend
import Clipboard.Proofs.Confined

/-!
# What an exchange is made of

All that a client does over its connection is made of a few small calls.  What
these keep is kept by waiting for a notice, by having the selection converted, by
learning the time, and by every look at the content.

* `Abides.convert`, `Abides.learnTime`: exchanges are within the bounds of the
  small calls;
* `Reads.pick`, `Reads.read`: looking for formats and reading is within the bounds
  of conversions.
-/

namespace Clipboard.X11.Connection

open Action

variable {σ α : Type} {c : Connection σ} {R : σ → σ → Prop}

/-! ## One notice after the other -/

section Await

variable {accept : Notice → Option α} {m : Notice} {a : α} {n : Nat} {s s' : σ}

theorem awaitAmong_of_accepted (h : c.listen s = (.notice m, s')) (ha : accept m = some a) :
    c.awaitAmong accept (n + 1) s = (.done a, s') := by
  simp [awaitAmong, h, ha]

theorem awaitAmong_of_other (h : c.listen s = (.notice m, s')) (ha : accept m = none) :
    c.awaitAmong accept (n + 1) s = c.awaitAmong accept n s' := by
  simp [awaitAmong, h, ha]

/-- Waiting that has an end comes to a notice. -/
theorem awaitAmong_heard (h : (c.awaitAmong accept (n + 1) s).1 = .done a) :
    ∃ m s', c.listen s = (.notice m, s') ∧
      (accept m = some a ∨ accept m = none ∧ (c.awaitAmong accept n s').1 = .done a) := by
  rcases hheard : c.listen s with ⟨m | _ | _, s'⟩
  · cases haccept : accept m with
    | some a' =>
        rw [awaitAmong_of_accepted hheard haccept] at h
        cases h
        exact ⟨m, s', rfl, .inl haccept⟩
    | none =>
        rw [awaitAmong_of_other hheard haccept] at h
        exact ⟨m, s', rfl, .inr ⟨haccept, h⟩⟩
  · simp [awaitAmong, hheard] at h
  · simp [awaitAmong, hheard] at h

/-- Waiting ends with the next notice or goes on after it. -/
theorem awaitAmong_snd (accept : Notice → Option α) (n : Nat) (s : σ) :
    (c.awaitAmong accept (n + 1) s).2 = (c.listen s).2 ∨
      (c.awaitAmong accept (n + 1) s).2 = (c.awaitAmong accept n (c.listen s).2).2 := by
  rcases hheard : c.listen s with ⟨m | _ | _, s'⟩
  · cases haccept : accept m with
    | some a => left; rw [awaitAmong_of_accepted hheard haccept]
    | none => right; rw [awaitAmong_of_other hheard haccept]
  · left; simp [awaitAmong, hheard]
  · left; simp [awaitAmong, hheard]

theorem confined_awaitAmong (hR : Bounds R) (hlisten : ∀ s, R s (c.listen s).2)
    (accept : Notice → Option α) (n : Nat) : Confined R (c.awaitAmong accept n) := by
  induction n with
  | zero => exact confined_fail hR _
  | succ n ih =>
      intro s
      rcases awaitAmong_snd accept n s with hend | hon
      · rw [hend]; exact hlisten s
      · rw [hon]; exact hR.trans (hlisten s) (ih _)

end Await

/-! ## Exchanges -/

/-- The messages that ask for a conversion. -/
def asking (c : Connection σ) (target : Atom) : List Post :=
  [.remove c.window c.atoms.transfer,
    .inquire ⟨0, c.window, c.atoms.clipboard, target, c.atoms.transfer⟩]

/-- What a client does when it has been told where the content is. -/
def fetch (c : Connection σ) (place : Atom) : Action σ Failure (Option Property) :=
  if place = 0 then Pure.pure none
  else c.take >>= fun value =>
    if value.type = c.atoms.incremental then c.receive >>= fun v => Pure.pure (some v)
    else Pure.pure (some value)

theorem fetch_whole {place : Atom} {value : Property} {s s' : σ} (hplace : place ≠ 0)
    (htake : c.take s = (.done value, s')) (hwhole : value.type ≠ c.atoms.incremental) :
    c.fetch place s = (.done (some value), s') := by
  rw [fetch, if_neg hplace]
  refine (bind_done htake _).trans ?_
  rw [if_neg hwhole]
  rfl

theorem fetch_parts {place : Atom} {value : Property} {s s' : σ} (hplace : place ≠ 0)
    (htake : c.take s = (.done value, s')) (hparts : value.type = c.atoms.incremental) :
    c.fetch place s = (c.receive >>= fun v => Pure.pure (some v)) s' := by
  rw [fetch, if_neg hplace]
  refine (bind_done htake _).trans ?_
  rw [if_pos hparts]

theorem convert_of_sent {target : Atom} {s s' : σ}
    (h : c.send (c.asking target) (c.discard s) = (.done (), s')) :
    c.convert target s = (c.awaitNotice c.replied >>= c.fetch) s' :=
  bind_done (mapCause_of_done h) _

theorem convert_of_unsent {target : Atom} {s s' : σ} {hitch : Hitch}
    (h : c.send (c.asking target) (c.discard s) = (.failed hitch, s')) :
    c.convert target s = (.failed hitch.failure, s') :=
  bind_failed (mapCause_of_failed h) _

section Receive

variable (hR : Bounds R) (hawait : Confined R (c.awaitNotice c.delivered))
  (htake : Confined R c.take)
include hR hawait htake

theorem confined_receiveFrom (n : Nat) : ∀ type done, Confined R (c.receiveFrom type done n) := by
  induction n with
  | zero => exact fun _ _ => confined_fail hR _
  | succ n ih =>
      intro type done
      rw [receiveFrom]
      refine Confined.bind hR hawait fun _ => Confined.bind hR htake fun part => ?_
      split
      · exact confined_pure hR _
      · exact ih _ _

theorem confined_fetch (place : Atom) : Confined R (c.fetch place) := by
  have hreceive : Confined R c.receive :=
    fun s => confined_receiveFrom hR hawait htake (c.horizon s + 1) 0 [] s
  unfold fetch
  split
  · exact confined_pure hR none
  · refine Confined.bind hR htake fun value => ?_
    split
    · exact Confined.bind hR hreceive fun _ => confined_pure hR _
    · exact confined_pure hR _

end Receive

theorem confined_learnTime (hR : Bounds R) (hdiscard : ∀ s, R s (c.discard s))
    (hsend : Confined R (c.send [.touch c.window c.atoms.timestamp]))
    (hawait : Confined R (c.awaitNotice c.stamped)) : Confined R c.learnTime := by
  rw [learnTime]
  refine Confined.bind hR (confined_update hdiscard) fun _ => ?_
  exact Confined.bind hR (hsend.mapCause _) fun _ => hawait

/-- The small calls of a connection keep within bounds, as long as no claim is
made. -/
structure Abides (c : Connection σ) (R : σ → σ → Prop) : Prop where
  bounds : Bounds R
  send : ∀ posts, (∀ p ∈ posts, ∀ w a t, p ≠ .claim w a t) → Confined R (c.send posts)
  intern : ∀ name, Confined R (c.intern name)
  owner : Confined R c.owner
  collect : Confined R c.collect
  listen : ∀ s, R s (c.listen s).2
  discard : ∀ s, R s (c.discard s)

namespace Abides

theorem awaitNotice (h : Abides c R) (accept : Notice → Option α) :
    Confined R (c.awaitNotice accept) :=
  fun s => confined_awaitAmong h.bounds h.listen accept (c.horizon s) s

theorem convert (h : Abides c R) (target : Atom) : Confined R (c.convert target) := by
  rw [Connection.convert]
  refine Confined.bind h.bounds (confined_update h.discard) fun _ => ?_
  refine Confined.bind h.bounds (Confined.mapCause (h.send _ (by simp)) _) fun _ => ?_
  exact Confined.bind h.bounds (h.awaitNotice _) fun place =>
    confined_fetch h.bounds (h.awaitNotice _) (h.collect.mapCause _) place

theorem learnTime (h : Abides c R) : Confined R c.learnTime :=
  confined_learnTime h.bounds h.discard (h.send _ (by simp)) (h.awaitNotice _)

end Abides

/-- Conversions, and the questions that have a short answer, keep within bounds. -/
structure Reads (c : Connection σ) (R : σ → σ → Prop) : Prop where
  bounds : Bounds R
  intern : ∀ name, Confined R (c.intern name)
  owner : Confined R c.owner
  convert : ∀ target, Confined R (c.convert target)

theorem Abides.reads (h : Abides c R) : Reads c R := ⟨h.bounds, h.intern, h.owner, h.convert⟩

namespace Reads

theorem foreignTargets (h : Reads c R) : Confined R c.foreignTargets := by
  refine Confined.bind h.bounds (h.owner.mapCause _) fun w => ?_
  split
  · exact confined_pure h.bounds _
  · exact Confined.bind h.bounds (h.convert _) fun _ => confined_pure h.bounds _

theorem offeredTargets (h : Reads c R) : Confined R c.offeredTargets := by
  refine Confined.bind h.bounds (confined_ask h.bounds _) fun items => ?_
  cases items with
  | some items => exact confined_pure h.bounds _
  | none => exact h.foreignTargets

theorem readTarget (h : Reads c R) (target : Atom) (encoding : Encoding) :
    Confined R (c.readTarget target encoding) := by
  refine Confined.bind h.bounds (confined_ask h.bounds _) fun items => ?_
  cases items with
  | some items => exact confined_pure h.bounds _
  | none =>
      refine Confined.bind h.bounds (h.convert target) fun value => ?_
      cases value with
      | some value => exact confined_pure h.bounds _
      | none => exact confined_pure h.bounds _

theorem formatsFor (h : Reads c R) (kind : Kind) : Confined R (c.backend.formatsFor kind) := by
  cases kind with
  | text => exact confined_pure h.bounds _
  | custom name =>
      show Confined R (c.formatsFor (.custom name))
      rw [Connection.formatsFor]
      split
      · exact confined_unwind h.bounds
      · exact Confined.bind h.bounds ((h.intern name).mapCause _) fun _ => confined_pure h.bounds _

theorem acquire (h : Reads c R) : Confined R c.backend.acquire := by
  intro s
  show R s (if (c.selection s).alive then _ else _ : Outcome Failure Unit × σ).2
  split <;> exact h.bounds.refl s

theorem release (h : Reads c R) : Confined R c.backend.release := confined_pure h.bounds ()

theorem offers (h : Reads c R) (id : Format.Id) : Confined R (c.backend.offers id) :=
  Confined.bind h.bounds (confined_ofExcept h.bounds _) fun _ =>
    Confined.bind h.bounds h.offeredTargets fun _ => confined_pure h.bounds _

theorem pick (h : Reads c R) (formats : List Format) : Confined R (c.backend.pick formats) :=
  Confined.bind h.bounds h.offeredTargets fun _ => confined_ofExcept h.bounds _

theorem read (h : Reads c R) (f : Format) : Confined R (c.backend.read f) :=
  Confined.bind h.bounds (confined_ofExcept h.bounds _) fun a =>
    Confined.bind h.bounds (h.readTarget a f.encoding) fun _ => confined_pure h.bounds _

end Reads

end Clipboard.X11.Connection
