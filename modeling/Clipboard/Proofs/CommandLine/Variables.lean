import Clipboard.Proofs.CommandLine.Given
import Clipboard.Proofs.Text.Blank

/-!
# Options and variables

An option and a variable spell the same values, apart from white space around a number, which is
dropped from a variable only, and from a minus sign before zero tries, which only an option can
have.

* `ofVariable?_of_ofOption?`, `ofOption?_of_ofVariable?`: what one spells the other spells too;
* `inEnvironment?_of_readable`, `valueIn?_of_inEnvironment?`: a variable that a command line looks
  at has the value that it has in the settings of an environment.
-/

namespace Clipboard

namespace CommandLine.Given

variable {text : String}

/-- Without a minus sign a number of tries is a number. -/
theorem readAttempts_of_unsigned (h : text.toList.head? ≠ some '-') :
    readAttempts text = (Decimal.read Setting.mostAttempts text.toList).toOption := by
  unfold readAttempts
  split
  next c digits htext => exact absurd (by rw [htext]; rfl) h
  · rfl

end CommandLine.Given

namespace Settings

theorem toOption_readNumber (bound : Nat) (text : String) :
    (readNumber bound text).toOption =
      (Decimal.read bound (Blank.trimChars text.toList)).toOption := by
  unfold readNumber
  cases Decimal.read bound (Blank.trimChars text.toList) <;> rfl

/-- A number that is read as it stands is read with white space around it dropped. -/
theorem toOption_readNumber_of_read {bound n : Nat} {text : String}
    (h : (Decimal.read bound text.toList).toOption = some n) :
    (readNumber bound text).toOption = some n := by
  cases hread : Decimal.read bound text.toList with
  | error e => rw [hread] at h; cases h
  | ok m =>
      rw [toOption_readNumber, Decimal.trimChars_of_read hread]
      exact h

/-- White space that is not there need not be dropped. -/
theorem toOption_readNumber_of_trim {text : String} (bound : Nat) (h : Blank.trim text = text) :
    (readNumber bound text).toOption = (Decimal.read bound text.toList).toOption := by
  have htrim : Blank.trimChars text.toList = text.toList := by
    rw [← String.toList_ofList (l := Blank.trimChars text.toList)]
    exact congrArg String.toList h
  rw [toOption_readNumber, htrim]

end Settings

namespace Setting

variable {env : Environment} {s : Setting} {text : String} {v : Value}

/-- What an option spells a variable spells too. -/
theorem ofVariable?_of_ofOption? (hsign : s = attempts → text.toList.head? ≠ some '-')
    (h : s.ofOption? text = some v) : s.ofVariable? text = some v := by
  cases s with
  | backend => exact h
  | attempts =>
      rw [ofOption?, CommandLine.Given.readAttempts_of_unsigned (hsign rfl)] at h
      obtain ⟨n, hn, rfl⟩ := Option.map_eq_some_iff.mp h
      rw [ofVariable?, Settings.toOption_readNumber_of_read hn]
      rfl
  | retryDelay | readTimeout =>
      obtain ⟨n, hn, rfl⟩ := Option.map_eq_some_iff.mp h
      rw [ofVariable?, Settings.toOption_readNumber_of_read hn]
      rfl

/-- What a variable spells without white space around it an option spells too. -/
theorem ofOption?_of_ofVariable? (htrim : Blank.trim text = text)
    (h : s.ofVariable? text = some v) : s.ofOption? text = some v := by
  cases s with
  | backend => exact h
  | attempts =>
      rw [ofVariable?, Settings.toOption_readNumber_of_trim _ htrim] at h
      have hsign : text.toList.head? ≠ some '-' := by
        intro hminus
        obtain ⟨n, hn, -⟩ := Option.map_eq_some_iff.mp h
        cases hread : Decimal.read mostAttempts text.toList with
        | error e => rw [hread] at hn; cases hn
        | ok m => exact Decimal.minus_notMem_of_read hread (List.mem_of_mem_head? hminus)
      rw [ofOption?, CommandLine.Given.readAttempts_of_unsigned hsign]
      exact h
  | retryDelay | readTimeout => rwa [ofVariable?, Settings.toOption_readNumber_of_trim _ htrim] at h

/-- The text of a setting's variable, if it has one, does not begin with a minus sign. -/
def Unsigned (env : Environment) (s : Setting) : Prop :=
  ∀ text, env.text? s.variableName = some text → text.toList.head? ≠ some '-'

/-- The variable of a setting, if it is set, is a text without white space around it. -/
def Trimmed (env : Environment) (s : Setting) : Prop :=
  ∀ bytes, env.get? s.variableName = some bytes →
    ∃ text, env.text? s.variableName = some text ∧ Blank.trim text = text

/-- A variable that the command line can look at has a value of its own. -/
theorem inEnvironment?_of_readable (hsign : s = attempts → Unsigned env s)
    (h : s.Readable env) :
    Settings.inEnvironment? env s = some ((s.valueIn? env).getD (Settings.usual s)) := by
  rcases h with hunset | hvalue
  · rw [valueIn?_of_unset hunset]
    exact Settings.inEnvironment?_of_unset hunset
  · obtain ⟨v, hv⟩ := Option.isSome_iff_exists.mp hvalue
    obtain ⟨text, htext, hspells⟩ := Option.bind_eq_some_iff.mp hv
    rw [Settings.inEnvironment?, htext, hv]
    exact ofVariable?_of_ofOption? (fun hs => hsign hs text htext) hspells

/-- A variable that has a value can be looked at, if there is no white space around it. -/
theorem valueIn?_of_inEnvironment? (htrim : Trimmed env s)
    (h : Settings.inEnvironment? env s = some v) :
    s.Readable env ∧ (s.valueIn? env).getD (Settings.usual s) = v := by
  cases hget : env.get? s.variableName with
  | none =>
      rw [Settings.inEnvironment?_of_unset hget] at h
      rw [valueIn?_of_unset hget]
      exact ⟨.inl hget, Option.some.inj h⟩
  | some bytes =>
      obtain ⟨text, htext, hblank⟩ := htrim bytes hget
      rw [Settings.inEnvironment?, htext] at h
      have hvalue : s.valueIn? env = some v := by
        rw [valueIn?, htext]
        exact ofOption?_of_ofVariable? hblank h
      exact ⟨.inr (by rw [hvalue]; rfl), by rw [hvalue]; rfl⟩

end Setting

end Clipboard
