import Clipboard.Proofs.CommandLine.Limits
import Clipboard.Proofs.Retry.Pauses

/-!
# Schedules

What a schedule of tries comes to: each single pause, and the time that is spent in all of them.
Durations end somewhere, and a schedule can be made whose pauses add up to more than there is; one
that settings make never comes near.

* `Settings.Permitted.reaches`, `Settings.Permitted.totalNanos_le`: schedules that settings make;
* `Policy.pauses_doubled`: the pauses of a schedule, one by one;
* `Policy.budget_exact`: the time that is spent in all pauses, and when it is no duration.
-/

namespace Clipboard

namespace Settings.Permitted

variable {a : Settings} (h : a.Permitted)

include h

theorem attempts_le : a.policy.attempts ≤ Setting.mostAttempts := h.values .attempts

theorem longest_nanos : a.policy.longest.nanos = 200000000 := by
  rw [h.longest]
  rfl

/-- Every first pause that can be set but none reaches the bound. -/
theorem reaches : a.policy.Reaches := by
  obtain ⟨millis, hmillis, hinitial⟩ := h.values .retryDelay
  have hnanos : a.policy.initial.nanos = millis * 1000000 := by
    have hword : millis * 1000000 ≤ longestNanos := by
      simp only [Setting.mostMillis, longestNanos, nanosPerSecond] at *
      omega
    rw [hinitial]
    exact Nat.min_eq_left hword
  rw [Policy.Reaches, hnanos, h.longest_nanos]
  omega

/-- The pauses that can be set add up to a duration. -/
theorem totalNanos_le : a.policy.totalNanos ≤ longestNanos := by
  have htries : a.policy.tries - 1 ≤ Setting.mostAttempts := by
    have hle := h.attempts_le
    unfold Policy.tries
    omega
  calc a.policy.totalNanos = a.policy.nanosUpTo (a.policy.tries - 1) := a.policy.totalNanos_eq
    _ ≤ (a.policy.tries - 1) * a.policy.longest.nanos := a.policy.nanosUpTo_le _
    _ ≤ Setting.mostAttempts * 200000000 := by
        rw [h.longest_nanos]
        exact Nat.mul_le_mul_right _ htries
    _ ≤ longestNanos := by decide

theorem budget?_ne_none : a.policy.budget? ≠ none := by
  intro hnone
  have hlong := Duration.ofNanos?_eq_none_iff.mp hnone
  have hle := h.totalNanos_le
  omega

end Settings.Permitted

namespace Policy

/-- The pause after try `n` is the first one doubled with each try up to the seventeenth, or the
bound where that is shorter, be it calculated in nanoseconds or in words.  Pauses never become
shorter or longer than the bound.  If sixteen doublings reach the bound, or there is nothing to
double, each pause is twice the one before, up to the bound; and so it is with all settings. -/
theorem pauses_doubled :
    (∀ p : Policy,
      (∀ n, (p.pause n).nanos =
        min p.longest.nanos (p.initial.nanos * 2 ^ min (max n 1 - 1) 16)) ∧
      (∀ n : UInt32, p.pauseInWords n = (p.pause n.toNat).words) ∧
      (∀ m n, m ≤ n → (p.pause m).nanos ≤ (p.pause n).nanos) ∧
      (∀ n, (p.pause n).nanos ≤ p.longest.nanos) ∧
      (p.initial.nanos = 0 ∨ p.longest.nanos ≤ p.initial.nanos * 2 ^ 16 →
        ∀ n, 1 ≤ n → (p.pause (n + 1)).nanos = min (2 * (p.pause n).nanos) p.longest.nanos)) ∧
    (∀ env a, Settings.ofEnvironment env = .ok a →
      a.policy.initial.nanos = 0 ∨
        a.policy.longest.nanos ≤ a.policy.initial.nanos * 2 ^ 16) ∧
    ∀ env words order, CommandLine.read env words = .ok order →
      order.settings.policy.initial.nanos = 0 ∨
        order.settings.policy.longest.nanos ≤ order.settings.policy.initial.nanos * 2 ^ 16 := by
  refine ⟨fun p => ⟨p.pause_eq, p.pauseInWords_eq, ?_, p.pause_le_longest, ?_⟩, ?_, ?_⟩
  · intro m n hle
    exact p.pause_mono hle
  · intro hreaches n hn
    exact Reaches.pause_succ hreaches hn
  · intro env a ha
    exact (Settings.permitted_of_ofEnvironment ha).reaches
  · intro env words order horder
    exact (CommandLine.permitted_of_read horder).reaches

/-- Three milliseconds are doubled six times before they reach the bound. -/
theorem pauses_doubled_three :
    let env := Environment.empty.set "CLIPD_RETRY_DELAY_MS" (some [0x33])
    let p : Policy := { initial := .ofMillis 3 }
    let words := ["--retry-delay-ms=3", "get"]
    Settings.ofEnvironment env = .ok { policy := p } ∧
    CommandLine.read .empty words = .ok ⟨{ policy := p }, .get, none, false⟩ ∧
    p.longest.nanos ≤ p.initial.nanos * 2 ^ 16 ∧
    (p.pause 7).nanos = min (2 * (p.pause 6).nanos) p.longest.nanos ∧
    (p.pause 6).nanos ≤ (p.pause 9).nanos ∧ (p.pause 9).nanos ≤ p.longest.nanos := by
  intro env p words
  have henv : Settings.ofEnvironment env = .ok { policy := p } := by decide
  have hread : CommandLine.read .empty words = .ok ⟨{ policy := p }, .get, none, false⟩ := by decide
  obtain ⟨hpolicy, hsettings, -⟩ := pauses_doubled
  obtain ⟨-, -, hmono, hle, hdoubled⟩ := hpolicy p
  have hreaches := hsettings env _ henv
  refine ⟨henv, hread, ?_, hdoubled hreaches 6 (by decide), hmono 6 9 (by decide), hle 9⟩
  exact hreaches.resolve_left (by decide)

/-- The budget of a schedule is the exact sum of the pauses before its last try, if there is a
duration so long, and otherwise there is none; kept in words it is the same, so that no carry on the
way fails unless the whole sum does.  All settings have a budget. -/
theorem budget_exact :
    (∀ p : Policy,
      (∑ n ∈ Finset.Icc 1 (max 1 p.attempts - 1), (p.pause n).nanos ≤
          (2 ^ 64 - 1) * 1000000000 + 999999999 →
        ∃ d, p.budget? = some d ∧
          d.nanos = ∑ n ∈ Finset.Icc 1 (max 1 p.attempts - 1), (p.pause n).nanos) ∧
      (p.budget? = none ↔ (2 ^ 64 - 1) * 1000000000 + 999999999 <
        ∑ n ∈ Finset.Icc 1 (max 1 p.attempts - 1), (p.pause n).nanos) ∧
      (p.attempts < 2 ^ 32 → p.budgetInWords? = p.budget?.map Duration.words)) ∧
    (∀ env a, Settings.ofEnvironment env = .ok a → a.policy.budget? ≠ none) ∧
    ∀ env words order, CommandLine.read env words = .ok order →
      order.settings.policy.budget? ≠ none := by
  have hlongest : (2 ^ 64 - 1) * 1000000000 + 999999999 = longestNanos := by decide
  refine ⟨fun p => ⟨?_, ?_, budgetInWords?_eq⟩, ?_, ?_⟩
  · rw [hlongest, ← totalNanos_eq_sum]
    intro hle
    exact ⟨⟨p.totalNanos, hle⟩, Duration.ofNanos?_eq_some_iff.mpr rfl, rfl⟩
  · rw [hlongest, ← totalNanos_eq_sum]
    exact Duration.ofNanos?_eq_none_iff
  · intro env a ha
    exact (Settings.permitted_of_ofEnvironment ha).budget?_ne_none
  · intro env words order horder
    exact (CommandLine.permitted_of_read horder).budget?_ne_none

/-- One pause of the longest duration is a budget, two are none; and the most tries that can be set
have one. -/
theorem budget_exact_longest :
    let most : Duration := .ofParts 18446744073709551615 999999999
    let one : Policy := { attempts := 2, initial := most, longest := most }
    let two : Policy := { attempts := 3, initial := most, longest := most }
    let env := Environment.empty.set "CLIPD_ATTEMPTS" (some (Utf8.encode "4294967295".toList))
    let set : Settings := { policy := { attempts := 4294967295 } }
    ∑ n ∈ Finset.Icc 1 (max 1 one.attempts - 1), (one.pause n).nanos ≤
        (2 ^ 64 - 1) * 1000000000 + 999999999 ∧
    (∃ d, one.budget? = some d ∧
      d.nanos = ∑ n ∈ Finset.Icc 1 (max 1 one.attempts - 1), (one.pause n).nanos) ∧
    two.budget? = none ∧ two.budgetInWords? = two.budget?.map Duration.words ∧
    Settings.ofEnvironment env = .ok set ∧ set.policy.budget? ≠ none := by
  intro most one two env set
  have hsum : ∑ n ∈ Finset.Icc 1 (max 1 one.attempts - 1), (one.pause n).nanos ≤
      (2 ^ 64 - 1) * 1000000000 + 999999999 := by decide
  have hlong : (2 ^ 64 - 1) * 1000000000 + 999999999 <
      ∑ n ∈ Finset.Icc 1 (max 1 two.attempts - 1), (two.pause n).nanos := by decide
  have henv : Settings.ofEnvironment env = .ok set := by decide
  obtain ⟨hpolicy, hsettings, -⟩ := budget_exact
  obtain ⟨hone, -, -⟩ := hpolicy one
  obtain ⟨-, htwo, hwords⟩ := hpolicy two
  exact ⟨hsum, hone hsum, htwo.mpr hlong, hwords (by decide), henv, hsettings env set henv⟩

end Policy

end Clipboard
