import Clipboard.Retry
import Clipboard.Proofs.Retry.Words
import Mathlib.Algebra.BigOperators.Intervals

/-!
# Pauses of a schedule

The pauses of a schedule are doubled from one to the next until they reach the bound, and then stay
there, provided that sixteen doublings are enough to reach it.  They are the same calculated in
words, and so is their sum; from the seventeenth on all are alike, so that the sum of any number of
them is found at once.

* `pause_eq`, `pause_mono`, `pause_le_longest`: a pause in exact nanoseconds;
* `Reaches.pause_succ`: each pause is twice the one before, up to the bound;
* `pauseInWords_eq`, `budgetInWords?_eq`: a pause and the sum of all, calculated in words;
* `totalNanos_eq_sum`: the sum that is found at once is that of all pauses.
-/

namespace Clipboard.Policy

variable {p : Policy} {m n : Nat}

/-- A pause is the first one doubled sixteen times at most, and never longer than the bound.  That
durations end somewhere is not seen, since the bound is one. -/
theorem pause_eq (p : Policy) (n : Nat) :
    (p.pause n).nanos =
      min p.longest.nanos (p.initial.nanos * 2 ^ min (max n 1 - 1) 16) := by
  have hdoublings : doublings n = min (max n 1 - 1) 16 := by
    unfold doublings
    omega
  rw [pause_nanos, hdoublings, Nat.min_comm]
  rfl

theorem pause_le_longest (p : Policy) (n : Nat) : (p.pause n).nanos ≤ p.longest.nanos := by
  rw [pause_eq]
  exact Nat.min_le_left _ _

/-- No pause is shorter than one before it. -/
theorem pause_mono (p : Policy) (h : m ≤ n) : (p.pause m).nanos ≤ (p.pause n).nanos := by
  have hexp : min (max m 1 - 1) 16 ≤ min (max n 1 - 1) 16 := by omega
  have hpow : 2 ^ min (max m 1 - 1) 16 ≤ 2 ^ min (max n 1 - 1) 16 :=
    Nat.pow_le_pow_right (by decide) hexp
  have hmul := Nat.mul_le_mul_left p.initial.nanos hpow
  rw [pause_eq, pause_eq]
  omega

/-- From the seventeenth on all pauses are alike. -/
theorem pause_of_late (p : Policy) (h : 17 ≤ n) : p.pause n = p.pause 17 := by
  have hdoublings : doublings n = doublings 17 := by
    unfold doublings
    omega
  rw [pause, pause, hdoublings]

/-- The doublings reach the bound, if there is anything to double. -/
def Reaches (p : Policy) : Prop :=
  p.initial.nanos = 0 ∨ p.longest.nanos ≤ p.initial.nanos * 2 ^ 16

/-- Each pause is twice the one before, up to the bound. -/
theorem Reaches.pause_succ (h : p.Reaches) (hn : 1 ≤ n) :
    (p.pause (n + 1)).nanos = min (2 * (p.pause n).nanos) p.longest.nanos := by
  rw [pause_eq, pause_eq]
  -- later there is no doubling, and the bound has been reached
  rcases Nat.lt_or_ge n 17 with hearly | hlate
  · have hnext : min (max (n + 1) 1 - 1) 16 = min (max n 1 - 1) 16 + 1 := by omega
    rw [hnext, Nat.pow_succ, ← Nat.mul_assoc]
    omega
  · have hnow : min (max n 1 - 1) 16 = 16 := by omega
    have hnext : min (max (n + 1) 1 - 1) 16 = 16 := by omega
    rw [hnow, hnext]
    rcases h with hnone | hbound
    · rw [hnone]
      omega
    · omega

/-! ### Sums of pauses -/

/-- The pauses between so many tries and one more add up to these nanoseconds. -/
theorem sum_pauses (p : Policy) (n : Nat) :
    (((List.range' 1 n).map p.pause).map Duration.nanos).sum = p.nanosUpTo n := by
  induction n with
  | zero => rfl
  | succ n ih =>
      rw [List.range'_1_concat, List.map_append, List.map_append, List.sum_append, ih, nanosUpTo,
        Nat.add_comm 1 n]
      simp

theorem nanosUpTo_eq_sum (p : Policy) (n : Nat) :
    p.nanosUpTo n = ∑ i ∈ Finset.Icc 1 n, (p.pause i).nanos := by
  induction n with
  | zero => simp [nanosUpTo]
  | succ n ih => rw [nanosUpTo, ih, Finset.sum_Icc_succ_top (Nat.le_add_left 1 n)]

theorem nanosUpTo_mono (p : Policy) (h : m ≤ n) : p.nanosUpTo m ≤ p.nanosUpTo n := by
  induction n, h using Nat.le_induction with
  | base => exact Nat.le_refl _
  | succ n _ ih => exact Nat.le_trans ih (Nat.le_add_right _ _)

/-- No sum of pauses is longer than as many times the bound. -/
theorem nanosUpTo_le (p : Policy) (n : Nat) : p.nanosUpTo n ≤ n * p.longest.nanos := by
  induction n with
  | zero => exact Nat.zero_le _
  | succ n ih =>
      rw [nanosUpTo, Nat.succ_mul]
      exact Nat.add_le_add ih (p.pause_le_longest (n + 1))

/-- After the sixteenth pause the sum grows by the same each time. -/
theorem nanosUpTo_of_late (p : Policy) (h : 16 ≤ n) :
    p.nanosUpTo n = p.nanosUpTo 16 + (n - 16) * (p.pause 17).nanos := by
  induction n, h using Nat.le_induction with
  | base => omega
  | succ n hn ih =>
      have hcount : n + 1 - 16 = n - 16 + 1 := by omega
      have hpause : p.pause (n + 1) = p.pause 17 := p.pause_of_late (by omega)
      rw [nanosUpTo, ih, hpause, hcount, Nat.succ_mul, Nat.add_assoc]

theorem totalNanos_eq (p : Policy) : p.totalNanos = p.nanosUpTo (p.tries - 1) := by
  unfold totalNanos
  dsimp only
  rcases Nat.lt_or_ge (p.tries - 1) 16 with hfew | hmany
  · have hnone : p.tries - 1 - 16 = 0 := by omega
    rw [Nat.min_eq_left (Nat.le_of_lt hfew), hnone, Nat.zero_mul, Nat.add_zero]
  · rw [Nat.min_eq_right hmany, p.nanosUpTo_of_late hmany]

/-- The nanoseconds of all pauses are the exact sum. -/
theorem totalNanos_eq_sum (p : Policy) :
    p.totalNanos = ∑ n ∈ Finset.Icc 1 (max 1 p.attempts - 1), (p.pause n).nanos := by
  rw [totalNanos_eq, nanosUpTo_eq_sum]
  rfl

/-! ### Pauses in words -/

/-- The doublings before the pause after try `n`, counted in a word.  There is no try before the
first. -/
def doublingsInWords (n : UInt32) : UInt32 :=
  let before := if n = 0 then 0 else n - 1
  if before < 16 then before else 16

/-- The pause after try `n`, calculated in words. -/
def pauseInWords (p : Policy) (n : UInt32) : Duration.Words :=
  (p.initial.words.scale (1 <<< doublingsInWords n)).min p.longest.words

theorem toNat_doublingsInWords (n : UInt32) : (doublingsInWords n).toNat = doublings n.toNat := by
  have hbefore : (if n = 0 then 0 else n - 1 : UInt32).toNat = n.toNat - 1 := by
    split
    next hzero =>
      rw [hzero]
      rfl
    next hpos =>
      have hne : n.toNat ≠ 0 := fun hzero => hpos (UInt32.toNat_inj.mp hzero)
      have hone : (1 : UInt32) ≤ n := by
        rw [UInt32.le_iff_toNat_le, UInt32.toNat_one]
        omega
      rw [UInt32.toNat_sub_of_le _ _ hone, UInt32.toNat_one]
  have hmost : (16 : UInt32).toNat = 16 := rfl
  unfold doublingsInWords doublings
  dsimp only
  -- what is left is about the number of tries before alone
  generalize (if n = 0 then 0 else n - 1 : UInt32) = before at hbefore ⊢
  split
  next hlt =>
    rw [UInt32.lt_iff_toNat_lt, hbefore, hmost] at hlt
    rw [hbefore]
    omega
  next hge =>
    rw [UInt32.lt_iff_toNat_lt, hbefore, hmost] at hge
    omega

theorem toNat_shiftLeft_one {k : UInt32} (h : k.toNat ≤ 16) :
    ((1 : UInt32) <<< k).toNat = 2 ^ k.toNat := by
  have hpow : 2 ^ k.toNat ≤ 2 ^ 16 := Nat.pow_le_pow_right (by decide) h
  have hmod : k.toNat % 32 = k.toNat := Nat.mod_eq_of_lt (by omega)
  rw [UInt32.toNat_shiftLeft, hmod, UInt32.toNat_one, Nat.one_shiftLeft]
  exact Nat.mod_eq_of_lt (by omega)

/-- A pause may be calculated in words. -/
theorem pauseInWords_eq (p : Policy) (n : UInt32) : p.pauseInWords n = (p.pause n.toNat).words := by
  have hle : (doublingsInWords n).toNat ≤ 16 := by
    rw [toNat_doublingsInWords]
    exact Nat.min_le_right _ _
  rw [pauseInWords, Duration.words_scale, Duration.words_min, toNat_shiftLeft_one hle,
    toNat_doublingsInWords]
  rfl

/-- The sum of all pauses, kept in words. -/
def budgetInWords? (p : Policy) : Option Duration.Words :=
  Duration.sumWords? ((List.range' 1 (p.tries - 1)).map fun n => p.pauseInWords (UInt32.ofNat n))

/-- The sum of all pauses may be kept in words, if the tries are counted in one. -/
theorem budgetInWords?_eq (h : p.attempts < 4294967296) :
    p.budgetInWords? = p.budget?.map Duration.words := by
  have htries : p.tries - 1 < 4294967296 := by
    unfold tries
    omega
  have hpauses : (List.range' 1 (p.tries - 1)).map (fun n => p.pauseInWords (UInt32.ofNat n)) =
      ((List.range' 1 (p.tries - 1)).map p.pause).map Duration.words := by
    rw [List.map_map]
    apply List.map_congr_left
    intro n hn
    have hword : (UInt32.ofNat n).toNat = n := by
      rw [List.mem_range'_1] at hn
      exact UInt32.toNat_ofNat_of_lt' (by change n < 4294967296; omega)
    rw [pauseInWords_eq, hword]
    rfl
  rw [budgetInWords?, hpauses, Duration.sumWords?_eq, sum_pauses, ← totalNanos_eq]
  rfl

end Clipboard.Policy
