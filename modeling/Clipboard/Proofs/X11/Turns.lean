import Mathlib.Algebra.Ring.Int.Defs
import Mathlib.Algebra.Ring.Nat
import Mathlib.Data.List.Induction
import Clipboard.X11.Backend
import Clipboard.X11.Server

/-!
# What becomes of content

What a client holds of the selection changes by turns: it takes the selection with new content, it
gives the content up, it is told that another window owns the selection, or it loses its
connection.  Instants are counted without an end here, and told in 32 bits; of an instant that is
told, a client sees only how far it is on from its claim, modulo 2^32.  As long as the way is
shorter than half of that, on either side, this is enough to tell which of the two is later.

* `precedes_ofNat_iff`: times that are told are ordered by the way from one to the other;
* `turn_of_held`: one turn ends what is held or leaves it as it is;
* `after_of_held`: so turns leave what is held as it is unless one of them ends it;
* `held_after`: what is held after any turns is what was taken last, if nothing has ended it since.
-/

namespace Clipboard.X11

/-- What befalls what a client holds of the selection. -/
inductive Turn where
  | taken (items : List (Atom × Octets)) (instant : Nat)
  | released
  /-- The connection is lost. -/
  | cutOff
  /-- A window, which has owned a selection, does so no longer from an instant on. -/
  | told (instant : Nat) (owner : Window) (selection : Atom)
  deriving DecidableEq, Repr

namespace Turn

/-- New content is taken. -/
def IsTaking : Turn → Prop
  | taken .. => True
  | _ => False

/-- An instant counts as later than another: it is zero as it is told, which is the present time,
or the way on to it from the other is less than half of all times. -/
def Supersedes (instant since : Nat) : Prop :=
  instant % 2 ^ 32 = 0 ∨ ((instant : Int) - since) % 2 ^ 32 < 2 ^ 31

/-- Content that has been taken at an instant is held no longer. -/
def Ends (atoms : Atoms) (window : Window) (since : Nat) : Turn → Prop
  | taken .. => False
  | released => True
  | cutOff => True
  | told instant owner selection =>
    owner = window ∧ selection = atoms.clipboard ∧ Supersedes instant since

instance : (t : Turn) → Decidable t.IsTaking
  | taken .. => inferInstanceAs (Decidable True)
  | released => inferInstanceAs (Decidable False)
  | cutOff => inferInstanceAs (Decidable False)
  | told .. => inferInstanceAs (Decidable False)

instance (instant since : Nat) : Decidable (Supersedes instant since) :=
  inferInstanceAs (Decidable (_ ∨ _))

instance (atoms : Atoms) (window : Window) (since : Nat) :
    (t : Turn) → Decidable (t.Ends atoms window since)
  | taken .. => inferInstanceAs (Decidable False)
  | released => inferInstanceAs (Decidable True)
  | cutOff => inferInstanceAs (Decidable True)
  | told .. => inferInstanceAs (Decidable (_ ∧ _))

/-- Within half of all times, what counts as later is later. -/
theorem supersedes_iff {instant since : Nat} (htold : instant % 2 ^ 32 ≠ 0)
    (hbefore : since < instant + 2 ^ 31) (hafter : instant < since + 2 ^ 31) :
    Supersedes instant since ↔ since ≤ instant := by
  unfold Supersedes
  omega

end Turn

/-! ## Instants as they are told -/

theorem ofNat_eq_zero_iff (instant : Nat) :
    (.ofNat instant : Timestamp) = 0 ↔ instant % 2 ^ 32 = 0 := by
  rw [← UInt32.toNat_inj, UInt32.toNat_ofNat']
  rfl

/-- A time that is told precedes another if the way on to it is at least half of all times. -/
theorem precedes_ofNat_iff (instant since : Nat) :
    precedes (.ofNat instant) (.ofNat since) = true ↔
      ¬ ((instant : Int) - since) % 2 ^ 32 < 2 ^ 31 := by
  unfold precedes
  rw [decide_eq_true_eq, UInt32.toNat_sub, UInt32.toNat_ofNat', UInt32.toNat_ofNat']
  omega

/-- News that counts as later than a claim ends it, and other news leaves it as it is. -/
theorem Selection.yieldTo_ofNat {s : Selection} {items : List (Atom × Octets)} {instant since : Nat}
    (h : s.claim = some ⟨items, .ofNat since⟩) :
    s.yieldTo (.ofNat instant) = if Turn.Supersedes instant since then s.release else s := by
  have hkept : (.ofNat instant : Timestamp) ≠ 0 ∧ precedes (.ofNat instant) (.ofNat since) = true ↔
      ¬ Turn.Supersedes instant since := by
    rw [Turn.Supersedes, not_or, precedes_ofNat_iff, ne_eq, ofNat_eq_zero_iff]
  unfold yieldTo
  rw [h]
  dsimp only
  rw [if_congr hkept rfl rfl, ite_not]

namespace Selection

variable {atoms : Atoms} {window : Window} {s : Selection} {c : Claim} {t : Turn}
  {turns : List Turn} {since : Nat}

/-! ## Turn by turn -/

section

variable (atoms window)

/-- What is held after a turn. -/
def turn (s : Selection) : Turn → Selection
  | .taken items instant => s.take items (.ofNat instant)
  | .released => s.release
  | .cutOff => s.cutOff
  | .told instant owner selection => s.hear atoms window ⟨.ofNat instant, owner, selection⟩

/-- What is held after turns. -/
def after (s : Selection) (turns : List Turn) : Selection := turns.foldl (turn atoms window) s

end

/-- News of another window or selection, or to a client that holds nothing, changes nothing. -/
theorem turn_of_idle {instant : Nat} {owner : Window} {selection : Atom}
    (h : owner ≠ window ∨ selection ≠ atoms.clipboard ∨ s.claim = none) :
    s.turn atoms window (.told instant owner selection) = s := by
  show s.hear atoms window ⟨.ofNat instant, owner, selection⟩ = s
  rcases h with h | h | h
  · exact hear_foreign (.inr h) s
  · exact hear_foreign (.inl h) s
  · unfold hear yieldTo
    rw [h]
    exact ite_self s

/-- News to the owner of the selection ends what it holds, or leaves it as it is. -/
theorem turn_told {items : List (Atom × Octets)} (h : s.claim = some ⟨items, .ofNat since⟩)
    (instant : Nat) :
    s.turn atoms window (.told instant window atoms.clipboard) =
      if Turn.Supersedes instant since then s.release else s := by
  show s.hear atoms window ⟨.ofNat instant, window, atoms.clipboard⟩ = _
  rw [hear, if_pos ⟨rfl, rfl⟩, yieldTo_ofNat h]

/-- A turn other than a taking ends what is held, or leaves it as it is. -/
theorem turn_of_held (hc : s.claim = some c) (hsince : c.since = .ofNat since)
    (ht : ¬ t.IsTaking) :
    (s.turn atoms window t).claim = if t.Ends atoms window since then none else some c := by
  obtain ⟨items, _⟩ := c
  obtain rfl := hsince
  cases t with
  | taken items instant => exact absurd trivial ht
  | released => rfl
  | cutOff => rfl
  | told instant owner selection =>
      by_cases hown : owner = window ∧ selection = atoms.clipboard
      · obtain ⟨rfl, rfl⟩ := hown
        have hends : (Turn.told instant owner atoms.clipboard).Ends atoms owner since ↔
            Turn.Supersedes instant since := ⟨fun h => h.2.2, fun h => ⟨rfl, rfl, h⟩⟩
        rw [turn_told hc, if_congr hends rfl rfl]
        split
        · rfl
        · exact hc
      · rw [turn_of_idle (by tauto), if_neg fun hends => hown ⟨hends.1, hends.2.1⟩, hc]

/-- A client that holds nothing still holds nothing after a turn other than a taking. -/
theorem turn_of_none (hc : s.claim = none) (ht : ¬ t.IsTaking) :
    (s.turn atoms window t).claim = none := by
  cases t with
  | taken items instant => exact absurd trivial ht
  | released => rfl
  | cutOff => rfl
  | told instant owner selection => rw [turn_of_idle (.inr (.inr hc)), hc]

/-- No turn brings back a connection that is lost. -/
theorem alive_turn (s : Selection) (t : Turn) :
    (s.turn atoms window t).alive = true ↔ s.alive = true ∧ t ≠ .cutOff := by
  cases t with
  | taken items instant => simp [turn, take]
  | released => simp [turn, release]
  | cutOff => simp [turn, cutOff]
  | told instant owner selection =>
      have hkept : (s.turn atoms window (.told instant owner selection)).alive = s.alive := by
        simp only [turn, hear, yieldTo]
        split
        · split
          · split <;> rfl
          · rfl
        · rfl
      rw [hkept]
      simp

/-! ## Turn after turn -/

theorem after_append (s : Selection) (turns later : List Turn) :
    s.after atoms window (turns ++ later) = (s.after atoms window turns).after atoms window later :=
  List.foldl_append

theorem after_of_none (hc : s.claim = none) (h : ∀ t ∈ turns, ¬ t.IsTaking) :
    (s.after atoms window turns).claim = none := by
  induction turns generalizing s with
  | nil => exact hc
  | cons t rest ih =>
      obtain ⟨ht, hrest⟩ := List.forall_mem_cons.mp h
      exact ih (turn_of_none hc ht) hrest

/-- What is held is still held after turns, unless one of them ends it. -/
theorem after_of_held (hc : s.claim = some c) (hsince : c.since = .ofNat since)
    (h : ∀ t ∈ turns, ¬ t.IsTaking) :
    (s.after atoms window turns).claim =
      if ∃ t ∈ turns, t.Ends atoms window since then none else some c := by
  induction turns generalizing s with
  | nil => simpa [after] using hc
  | cons t rest ih =>
      obtain ⟨ht, hrest⟩ := List.forall_mem_cons.mp h
      have hturn : (s.turn atoms window t).claim =
          if t.Ends atoms window since then none else some c := turn_of_held hc hsince ht
      show ((s.turn atoms window t).after atoms window rest).claim = _
      by_cases hends : t.Ends atoms window since
      · rw [if_pos hends] at hturn
        rw [after_of_none hturn hrest, if_pos ⟨t, List.mem_cons_self, hends⟩]
      · rw [if_neg hends] at hturn
        simp [ih hturn hrest, hends]

/-- The connection is there as long as it has not been lost. -/
theorem alive_after : (s.after atoms window turns).alive = true ↔
    s.alive = true ∧ .cutOff ∉ turns := by
  induction turns generalizing s with
  | nil => simp [after]
  | cons t rest ih =>
      show ((s.turn atoms window t).after atoms window rest).alive = true ↔ _
      rw [ih, alive_turn, List.mem_cons, not_or, and_assoc, ne_comm]

/-- A client that began with nothing holds what it took last, if nothing has ended it since. -/
theorem claim_after_iff : (after atoms window {} turns).claim = some c ↔
    ∃ before items since later, turns = before ++ .taken items since :: later ∧
      c = ⟨items, .ofNat since⟩ ∧ ∀ t ∈ later, ¬ t.IsTaking ∧ ¬ t.Ends atoms window since := by
  constructor
  · intro h
    -- The last turn is the taking, or has left what was held before it.
    induction turns using List.reverseRecOn generalizing c with
    | nil => cases h
    | append_singleton turns t ih =>
        rw [after_append] at h
        generalize hs : after atoms window {} turns = s at h ih
        change (s.turn atoms window t).claim = some c at h
        by_cases ht : t.IsTaking
        · cases t with
          | taken items since =>
              exact ⟨turns, items, since, [], rfl, (Option.some.inj h).symm, nofun⟩
          | _ => exact ht.elim
        · cases hbefore : s.claim with
          | none =>
              rw [turn_of_none hbefore ht] at h
              cases h
          | some c' =>
              obtain ⟨before, items, since, later, rfl, rfl, hlater⟩ := ih hbefore
              rw [turn_of_held hbefore rfl ht] at h
              split at h
              · cases h
              · next hends =>
                  obtain rfl := Option.some.inj h
                  refine ⟨before, items, since, later ++ [t], by simp, rfl, ?_⟩
                  rw [List.forall_mem_append, List.forall_mem_singleton]
                  exact ⟨hlater, ht, hends⟩
  · rintro ⟨before, items, since, later, rfl, rfl, hlater⟩
    have htaken : ((after atoms window {} before).turn atoms window (.taken items since)).claim =
        some ⟨items, .ofNat since⟩ := rfl
    rw [after_append]
    show (((after atoms window {} before).turn atoms window (.taken items since)).after
      atoms window later).claim = _
    rw [after_of_held htaken rfl fun t ht => (hlater t ht).1, if_neg]
    rintro ⟨t, ht, hends⟩
    exact (hlater t ht).2 hends

/-- **Content through all turns.**  After any turns, news of the owner's window and of the clipboard
at an instant that is less than half of all times from that of the claim, on either side, ends what
is held if the claim is not later, and leaves it as it is if it is; news of the present time always
ends it.  News of another window or selection, or to a client that holds nothing, changes nothing.
So what is held is what was taken last, if it has not been given up since, nor the connection lost,
nor the client been told of a later owner.  A client that has lost its connection is never found
alive again. -/
theorem held_after (atoms : Atoms) (window : Window) (turns : List Turn) :
    let s := after atoms window {} turns
    (∀ c, s.claim = some c → ∀ since instant : Nat, c.since = .ofNat since →
      ((.ofNat instant : Timestamp) ≠ 0 → since < instant + 2 ^ 31 → instant < since + 2 ^ 31 →
        s.turn atoms window (.told instant window atoms.clipboard) =
          if since ≤ instant then { s with claim := none } else s) ∧
      ((.ofNat instant : Timestamp) = 0 →
        s.turn atoms window (.told instant window atoms.clipboard) = { s with claim := none })) ∧
    (∀ instant owner selection,
      owner ≠ window ∨ selection ≠ atoms.clipboard ∨ s.claim = none →
        s.turn atoms window (.told instant owner selection) = s) ∧
    (∀ c, s.claim = some c ↔
      ∃ before items since later, turns = before ++ .taken items since :: later ∧
        c = ⟨items, .ofNat since⟩ ∧ ∀ t ∈ later, ¬ t.IsTaking ∧ ¬ t.Ends atoms window since) ∧
    (s.alive = true ↔ .cutOff ∉ turns) ∧
    ∀ (σ : Type) (c : Connection σ) (x : σ), c.selection x = s →
      ((c.backend.acquire x).1 = .done () ↔ .cutOff ∉ turns) := by
  intro s
  have halive : s.alive = true ↔ .cutOff ∉ turns := alive_after.trans (and_iff_right rfl)
  refine ⟨fun c hc since instant hsince => ⟨fun hne hbefore hafter => ?_, fun hzero => ?_⟩,
    fun instant owner selection => turn_of_idle, fun c => claim_after_iff, halive,
    fun σ c x hx => ?_⟩
  · obtain ⟨items, _⟩ := c
    obtain rfl := hsince
    have hlater := Turn.supersedes_iff (mt (ofNat_eq_zero_iff instant).mpr hne) hbefore hafter
    rw [turn_told hc, if_congr hlater rfl rfl]
    rfl
  · obtain ⟨items, _⟩ := c
    obtain rfl := hsince
    rw [turn_told hc, if_pos (.inl ((ofNat_eq_zero_iff instant).mp hzero))]
    rfl
  · rw [← halive, ← hx]
    show (if (c.selection x).alive then _ else _ : Outcome Failure Unit × σ).1 = _ ↔ _
    split <;> simp_all

/-- Content that was taken shortly before times start over: news from before the claim is passed
over, though it looks much later, and news from after it ends the claim, though it looks much
earlier. -/
theorem held_after_wrap :
    let atoms := Server.atoms
    let window := Server.windowOf 0
    let s := after atoms window {}
      [.taken [] (2 ^ 32 - 11), .told (2 ^ 32 - 21) window atoms.clipboard]
    s.claim = some ⟨[], .ofNat (2 ^ 32 - 11)⟩ ∧
      (s.turn atoms window (.told (2 ^ 32 + 5) window atoms.clipboard)).claim = none := by
  intro atoms window s
  obtain ⟨htold, -, hheld, -⟩ := held_after atoms window
    [.taken [] (2 ^ 32 - 11), .told (2 ^ 32 - 21) window atoms.clipboard]
  have hclaim : s.claim = some ⟨[], .ofNat (2 ^ 32 - 11)⟩ := by
    refine (hheld _).mpr ⟨[], [], 2 ^ 32 - 11, _, rfl, rfl, ?_⟩
    rw [List.forall_mem_singleton]
    exact ⟨id, fun hends => absurd hends.2.2 (by decide)⟩
  obtain ⟨hlater, -⟩ := htold _ hclaim (2 ^ 32 - 11) (2 ^ 32 + 5) rfl
  refine ⟨hclaim, ?_⟩
  rw [hlater (by decide) (by decide) (by decide), if_pos (by decide)]

end Selection

end Clipboard.X11
