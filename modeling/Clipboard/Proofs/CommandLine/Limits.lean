import Clipboard.Proofs.CommandLine.Configured

/-!
# Limits of settings

A number that a setting is given fits the word that it is kept in, whether it is read from a
variable or from an option.  So there are limits to every setting, and to the schedule that settings
make, wherever these come from.

* `Decimal.read_le`: a number that is read is not above its bound;
* `Setting.permits_of_ofVariable?`, `Setting.permits_of_ofOption?`: what a text can set;
* `Settings.permitted_of_ofEnvironment`, `CommandLine.permitted_of_read`: settings of an environment
  and of a command line are within the limits.
-/

namespace Clipboard

namespace Decimal

variable {bound value n : Nat} {text : List Char}

/-- No digit is taken with which a number passes the bound. -/
theorem readFrom_le (hvalue : value ≤ bound) (h : readFrom bound value text = .ok n) :
    n ≤ bound := by
  induction text generalizing value with
  | nil =>
      cases h
      exact hvalue
  | cons c rest ih =>
      unfold readFrom at h
      cases hdigit : digit? c with
      | none => rw [hdigit] at h; cases h
      | some d =>
          rw [hdigit] at h
          dsimp only at h
          split at h
          next hle => exact ih hle h
          next => cases h

/-- A number that is read is not above its bound. -/
theorem read_le (h : read bound text = .ok n) : n ≤ bound := by
  unfold read at h
  split at h
  · cases h
  · cases h
  · exact readFrom_le (Nat.zero_le bound) h
  · exact readFrom_le (Nat.zero_le bound) h

theorem le_of_toOption_read (h : (read bound text).toOption = some n) : n ≤ bound := by
  cases hread : read bound text with
  | error e => rw [hread] at h; cases h
  | ok m =>
      rw [hread] at h
      cases h
      exact read_le hread

end Decimal

namespace CommandLine.Given

/-- A number of tries fits its word, with a minus sign before zero or without. -/
theorem readAttempts_le {text : String} {n : Nat} (h : readAttempts text = some n) :
    n ≤ Setting.mostAttempts := by
  unfold readAttempts at h
  split at h
  · split at h
    · cases h
      exact Nat.zero_le _
    · cases h
  · exact Decimal.le_of_toOption_read h

end CommandLine.Given

namespace Setting

variable {s : Setting} {text : String} {v : Value}

/-- The values that a setting can have: a choice, or a number that fits its word. -/
def Permits : Setting → Value → Prop
  | backend, .choice _ => True
  | attempts, .count n => n ≤ mostAttempts
  | retryDelay, .pause d => ∃ n ≤ mostMillis, d = .ofMillis n
  | readTimeout, .pause d => ∃ n ≤ mostMillis, d = .ofMillis n
  | _, _ => False

theorem permits_usual (s : Setting) : s.Permits (Settings.usual s) := by
  cases s with
  | backend => trivial
  | attempts => show 5 ≤ mostAttempts; decide
  | retryDelay => exact ⟨10, by decide, rfl⟩
  | readTimeout => exact ⟨1000, by decide, rfl⟩

/-- A variable sets what the setting can have. -/
theorem permits_of_ofVariable? (h : s.ofVariable? text = some v) : s.Permits v := by
  cases s with
  | backend =>
      obtain ⟨c, -, rfl⟩ := Option.map_eq_some_iff.mp h
      trivial
  | attempts =>
      obtain ⟨n, hn, rfl⟩ := Option.map_eq_some_iff.mp h
      rw [Settings.toOption_readNumber] at hn
      exact Decimal.le_of_toOption_read hn
  | retryDelay | readTimeout =>
      obtain ⟨n, hn, rfl⟩ := Option.map_eq_some_iff.mp h
      rw [Settings.toOption_readNumber] at hn
      exact ⟨n, Decimal.le_of_toOption_read hn, rfl⟩

/-- An option sets what the setting can have. -/
theorem permits_of_ofOption? (h : s.ofOption? text = some v) : s.Permits v := by
  cases s with
  | backend =>
      obtain ⟨c, -, rfl⟩ := Option.map_eq_some_iff.mp h
      trivial
  | attempts =>
      obtain ⟨n, hn, rfl⟩ := Option.map_eq_some_iff.mp h
      exact CommandLine.Given.readAttempts_le hn
  | retryDelay | readTimeout =>
      obtain ⟨n, hn, rfl⟩ := Option.map_eq_some_iff.mp h
      exact ⟨n, Decimal.le_of_toOption_read hn, rfl⟩

end Setting

namespace Settings

/-- Every setting has a value that it can have, and no pause is longer than usual. -/
structure Permitted (a : Settings) : Prop where
  values : ∀ s : Setting, s.Permits (a.value s)
  longest : a.policy.longest = usualLongest

/-- Settings of an environment are within the limits. -/
theorem permitted_of_ofEnvironment {env : Environment} {a : Settings}
    (h : ofEnvironment env = .ok a) : a.Permitted where
  values s := by
    have hvalue := value_of_ofEnvironment h s
    unfold inEnvironment? at hvalue
    cases htext : env.text? s.variableName with
    | none =>
        rw [htext] at hvalue
        rw [← Option.some.inj hvalue]
        exact s.permits_usual
    | some text =>
        rw [htext] at hvalue
        exact Setting.permits_of_ofVariable? hvalue
  longest := longest_of_ofEnvironment h

end Settings

namespace CommandLine

/-- Settings of a command line are within the limits. -/
theorem permitted_of_read {env : Environment} {words : List String} {order : Order}
    (h : read env words = .ok order) : order.settings.Permitted := by
  obtain ⟨before, after, hst⟩ := exists_stated parser_heeds h
  refine ⟨fun s => ?_, hst.longest_settings h⟩
  cases hoption : parser.optionText? words s with
  | some text => exact Setting.permits_of_ofOption? (hst.value_of_option h hoption)
  | none =>
      rw [hst.value_of_variable h hoption]
      cases hvalue : s.valueIn? env with
      | none => exact s.permits_usual
      | some v =>
          obtain ⟨text, -, hspells⟩ := Option.bind_eq_some_iff.mp hvalue
          exact Setting.permits_of_ofOption? hspells

end CommandLine

end Clipboard
