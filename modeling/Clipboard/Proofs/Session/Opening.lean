import Clipboard.InMemory
import Clipboard.Trace
import Clipboard.Proofs.Session.Access
import Clipboard.Proofs.Retry.Pauses
import Mathlib.Order.Bounds.Basic

/-!
# Tries to gain access

An opening is told by the answers that its backend would give to one try after the other: it ends
with the first that is not busy, or with the last that the schedule has.  It comes to what that try
is answered with, leaves the state that the try leaves, and has paused after each try before.

* `openingFrom_succ`, `openingFrom_spec`: the tries of an opening, one by one;
* `Settles.opening_eq`, `Settles.openHandle_eq`: an opening by its last try;
* `openHandle_settled`: the same of any opening, with the calls and pauses that it takes.
-/

namespace Clipboard

/-- The answer to a try while another owner holds the clipboard. -/
def Outcome.isBusy : Outcome Failure Unit → Bool
  | .failed (.busy _) => true
  | _ => false

namespace Backend

variable {σ : Type} {b : Backend σ} {p : Policy} {s : σ} {m n k : Nat}

/-- The state after so many tries, one after the other. -/
def afterTries (b : Backend σ) : Nat → σ → σ
  | 0, s => s
  | n + 1, s => b.afterTries n (b.acquire s).2

/-- What try `n` is answered with, counted from one. -/
def answered (b : Backend σ) (n : Nat) (s : σ) : Outcome Failure Unit :=
  (b.acquire (b.afterTries (n - 1) s)).1

/-- The tries after the first are the first ones from the state that it leaves. -/
theorem answered_succ (b : Backend σ) (s : σ) (hn : 1 ≤ n) :
    b.answered (n + 1) s = b.answered n (b.acquire s).2 := by
  obtain ⟨k, rfl⟩ := Nat.exists_eq_add_of_le' hn
  rfl

/-- A try after which there is no other: the first that is not busy, or the last of `m`. -/
def Settles (b : Backend σ) (m : Nat) (s : σ) (k : Nat) : Prop :=
  IsLeast {i | 1 ≤ i ∧ (i = m ∨ (b.answered i s).isBusy = false)} k

theorem settles_one (h : 1 = m ∨ (b.answered 1 s).isBusy = false) : b.Settles m s 1 :=
  ⟨⟨Nat.le_refl 1, h⟩, fun _ hi => hi.1⟩

/-- After a busy try the last one is that of the tries from there. -/
theorem Settles.succ (h : b.Settles m (b.acquire s).2 k) (hm : 1 ≤ m)
    (hbusy : (b.answered 1 s).isBusy = true) : b.Settles (m + 1) s (k + 1) := by
  obtain ⟨⟨hpos, hlast⟩, hleast⟩ := h
  refine ⟨⟨Nat.le_add_left 1 k, ?_⟩, ?_⟩
  · rw [answered_succ b s hpos]
    exact hlast.imp (congrArg (· + 1)) id
  · rintro i ⟨hi, hend⟩
    rcases Nat.eq_or_lt_of_le hi with rfl | hlater
    · rcases hend with hone | hfree
      · omega
      · rw [hbusy] at hfree
        cases hfree
    · obtain ⟨j, rfl⟩ := Nat.exists_eq_add_of_le' hi
      have hj : 1 ≤ j := by omega
      rw [answered_succ b s hj] at hend
      have hle : k ≤ j := hleast ⟨hj, hend.imp Nat.succ.inj id⟩
      exact Nat.succ_le_succ hle

/-- A busy try is followed by a pause and by the others, and any other try is the last. -/
theorem openingFrom_succ (b : Backend σ) (p : Policy) (n left : Nat) (s : σ) :
    b.openingFrom p n (left + 1) s =
      if (b.answered 1 s).isBusy then
        ({ (b.openingFrom p (n + 1) left (b.acquire s).2).1 with
            pauses := p.pause n :: (b.openingFrom p (n + 1) left (b.acquire s).2).1.pauses },
          (b.openingFrom p (n + 1) left (b.acquire s).2).2)
      else (⟨n, [], b.answered 1 s⟩, b.afterTries 1 s) := by
  have hanswered : b.answered 1 s = (b.acquire s).1 := rfl
  have hafter : b.afterTries 1 s = (b.acquire s).2 := rfl
  rw [openingFrom, hanswered, hafter]
  rcases b.acquire s with ⟨a | e | _, s'⟩
  · rfl
  · cases e <;> rfl
  · rfl

/-- An opening from try `n` on makes every try up to the one that settles it, and pauses after each
but that. -/
theorem openingFrom_spec (b : Backend σ) (p : Policy) (n left : Nat) (s : σ) :
    ∃ k, b.Settles (left + 1) s (k + 1) ∧
      b.openingFrom p n left s =
        (⟨n + k, (List.range' n k).map p.pause, b.answered (k + 1) s⟩, b.afterTries (k + 1) s) := by
  -- on the tries that are left, wherever the opening has come to
  induction left generalizing n s with
  | zero => exact ⟨0, settles_one (.inl rfl), rfl⟩
  | succ left ih =>
      cases hbusy : (b.answered 1 s).isBusy with
      | false =>
          refine ⟨0, settles_one (.inr hbusy), ?_⟩
          rw [openingFrom_succ, hbusy]
          rfl
      | true =>
          obtain ⟨k, hsettles, hrun⟩ := ih (n + 1) (b.acquire s).2
          refine ⟨k + 1, hsettles.succ (Nat.le_add_left 1 left) hbusy, ?_⟩
          rw [openingFrom_succ, if_pos hbusy, hrun, List.range'_succ, List.map_cons,
            Nat.add_right_comm n 1 k]
          rfl

/-- An opening ends with a last try. -/
theorem opening_spec (b : Backend σ) (p : Policy) (s : σ) :
    ∃ k, b.Settles p.tries s k ∧
      b.opening p s =
        (⟨k, (List.range' 1 (k - 1)).map p.pause, b.answered k s⟩, b.afterTries k s) := by
  have htries : p.tries - 1 + 1 = p.tries := Nat.sub_add_cancel p.tries_pos
  obtain ⟨j, hsettles, hrun⟩ := b.openingFrom_spec p 1 (p.tries - 1) s
  rw [htries] at hsettles
  refine ⟨j + 1, hsettles, ?_⟩
  rw [opening, hrun, Nat.add_comm 1 j]
  rfl

/-- An opening by its last try, since there is only one. -/
theorem Settles.opening_eq (h : b.Settles p.tries s k) :
    b.opening p s =
      (⟨k, (List.range' 1 (k - 1)).map p.pause, b.answered k s⟩, b.afterTries k s) := by
  obtain ⟨j, hsettles, hrun⟩ := b.opening_spec p s
  have hk : j = k := hsettles.unique h
  subst hk
  exact hrun

theorem Settles.le (h : b.Settles p.tries s k) : k ≤ p.tries :=
  h.2 ⟨p.tries_pos, .inl rfl⟩

/-- What a program is told of an opening. -/
def granted (b : Backend σ) (k : Nat) : Outcome Failure Unit → Outcome AccessError (Handle σ)
  | .done () => .done ⟨b, true⟩
  | .failed f => .failed (.acquireFailed k f.message)
  | .unwound => .unwound

/-- The access that is gained, or the failure, by the last try. -/
theorem Settles.openHandle_eq {d : Host σ} (h : b.Settles p.tries d.world k) :
    b.openHandle p d =
      (b.granted k (b.answered k d.world), { d with world := b.afterTries k d.world }) := by
  rw [openHandle, h.opening_eq]
  rfl

/-- A backend that keeps a list of its calls is tried as it would be without, and notes down each
try. -/
theorem traced_afterTries (b : Backend σ) (n : Nat) (s : σ) (calls : List Call) :
    b.traced.afterTries n (s, calls) =
      (b.afterTries n s, calls ++ List.replicate n .acquire) := by
  induction n generalizing s calls with
  | zero => simp [afterTries]
  | succ n ih =>
      rw [afterTries, afterTries, List.replicate_succ]
      show b.traced.afterTries n ((b.acquire s).2, calls ++ [.acquire]) = _
      rw [ih, List.append_assoc]
      rfl

theorem traced_answered (b : Backend σ) (n : Nat) (s : σ) (calls : List Call) :
    b.traced.answered n (s, calls) = b.answered n s := by
  rw [answered, traced_afterTries]
  rfl

theorem settles_traced {calls : List Call} :
    b.traced.Settles m (s, calls) k ↔ b.Settles m s k := by
  simp only [Settles, traced_answered]

/-- An opening ends with the first try that is not busy, or with the last that the schedule has: it
makes that many tries and no other call, is told what that try is answered with, and has paused
after each try before.  All pauses together are within the budget, if there is one, and use it up if
every try but the last is busy. -/
theorem openHandle_settled (b : Backend σ) (p : Policy) (d : Host σ) :
    ∃ k, IsLeast {i | 1 ≤ i ∧ (i = max 1 p.attempts ∨ (b.answered i d.world).isBusy = false)} k ∧
      b.openHandle p d =
        (b.granted k (b.answered k d.world), { d with world := b.afterTries k d.world }) ∧
      (∀ calls, (b.traced.openHandle p ⟨(d.world, calls), d.registry⟩).2.world =
        (b.afterTries k d.world, calls ++ List.replicate k .acquire)) ∧
      (b.opening p d.world).1.pauses = (List.range' 1 (k - 1)).map p.pause ∧
      ∀ total, p.budget? = some total →
        ((b.opening p d.world).1.pauses.map Duration.nanos).sum ≤ total.nanos ∧
        ((∀ i, 1 ≤ i → i < max 1 p.attempts → (b.answered i d.world).isBusy = true) →
          ((b.opening p d.world).1.pauses.map Duration.nanos).sum = total.nanos) := by
  obtain ⟨k, hk, -⟩ := b.opening_spec p d.world
  refine ⟨k, hk, hk.openHandle_eq, ?_, by rw [hk.opening_eq], ?_⟩
  · intro calls
    have htraced : b.traced.Settles p.tries (d.world, calls) k := settles_traced.mpr hk
    rw [htraced.openHandle_eq]
    exact b.traced_afterTries k d.world calls
  · intro total htotal
    have hnanos : total.nanos = p.nanosUpTo (p.tries - 1) := by
      rw [← p.totalNanos_eq]
      exact Duration.ofNanos?_eq_some_iff.mp htotal
    rw [hk.opening_eq, p.sum_pauses, hnanos]
    refine ⟨p.nanosUpTo_mono (Nat.sub_le_sub_right hk.le 1), ?_⟩
    intro hbusy
    -- a last try that is not busy would be one of those before the last of the schedule
    have hlast : p.tries ≤ k := by
      rcases hk.1.2 with hall | hfree
      · exact Nat.le_of_eq hall.symm
      · by_contra hlt
        rw [hbusy k hk.1.1 (Nat.not_le.mp hlt)] at hfree
        cases hfree
    rw [Nat.le_antisymm hk.le hlast]

/-- A clipboard in memory that is held for longer than the schedule uses up its budget. -/
theorem openHandle_settled_held :
    let b := Memory.backend .unix
    let p : Policy := { attempts := 4 }
    let held : Memory := Memory.hold {} 9
    p.budget? = some (.ofMillis 70) ∧
    (∀ i, 1 ≤ i → i < max 1 p.attempts → (b.answered i held).isBusy = true) ∧
    ((b.opening p held).1.pauses.map Duration.nanos).sum = 70000000 := by
  intro b p held
  have hbudget : p.budget? = some (.ofMillis 70) := by decide
  have hbusy : ∀ i, 1 ≤ i → i < max 1 p.attempts → (b.answered i held).isBusy = true := by
    intro i hpos hlt
    change i < 4 at hlt
    have hcases : i = 1 ∨ i = 2 ∨ i = 3 := by omega
    rcases hcases with rfl | rfl | rfl <;> rfl
  obtain ⟨_, -, -, -, -, htotal⟩ := openHandle_settled b p ⟨held, {}⟩
  exact ⟨hbudget, hbusy, (htotal _ hbudget).2 hbusy⟩

end Backend

end Clipboard
