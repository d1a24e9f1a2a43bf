import Clipboard.Proofs.CommandLine.Options
import Clipboard.Proofs.CommandLine.Variables

/-!
# Settings of a command line

A parser of command lines is told which options there are, and for each its variable and its usual
value.  The options are declared for the program and for each of its commands, so they may stand
before the command and after it.

A command line that is accepted gives each setting the value of its option, or else the one that
settings of an environment have with the setting's variable alone.  The variable of a setting that
is given in one place only is still looked at for the other, and one that cannot be read is in the
way there; but it has no say in what the setting is.

* `Parser.Heeds`: what is relied on of a parser;
* `Stated.accepted_iff`: a command line is accepted where the variables that it looks at can be
  read;
* `Stated.value_settings`: a setting has the value of its option, of its variable, or the usual one;
* `read_configured`: the same said of the words and of settings of environments;
* `parser_heeds`: the parser of this program can be relied on.
-/

namespace Clipboard.CommandLine

/-- A parser of command lines: what words ask for in an environment, and the options that they give,
in their order, with the texts of the values. -/
structure Parser where
  read : Environment → List String → Except Stop Order
  options : List String → List (Setting × String)

namespace Parser

/-- The text of the last value that a command line gives to a setting. -/
def optionText? (p : Parser) (words : List String) (s : Setting) : Option String :=
  (p.options words).reverse.lookup s

/-- How often a command line gives a setting. -/
def timesGiven (p : Parser) (words : List String) (s : Setting) : Nat :=
  (p.options words).countP (·.1 = s)

/-- What is relied on of a parser.  A command line that it accepts gives options before the command
and after it, in either place at most once for a setting, and their texts are taken as they stand.
In any environment it asks for what the two places come to when each is filled from there: an option
comes before a variable and this before the usual value, and the options after the command come
before those that precede it. -/
structure Heeds (p : Parser) : Prop where
  places : ∀ {env : Environment} {words : List String} {order : Order},
    p.read env words = .ok order →
      ∃ first last before after, p.options words = first ++ last ∧
        Given.ofTexts first = some before ∧ Given.ofTexts last = some after ∧
        ∀ env', p.read env' words = fill env' before after order.verb order.text order.noWait

end Parser

variable {p : Parser} {words : List String} {before after : Given} {env env' : Environment}

/-- Texts that spell values still do where there are two places to look. -/
theorem rel_or {α β : Type} {r : α → β → Prop} {a a' : Option α} {b b' : Option β}
    (h : Option.Rel r a b) (h' : Option.Rel r a' b') : Option.Rel r (a.or a') (b.or b') := by
  cases h with
  | some hr => exact .some hr
  | none => exact h'

/-- What the words of a command line give to settings before the command and after it, when they
can be read. -/
structure Stated (p : Parser) (words : List String) (before after : Given) (order : Order) :
    Prop where
  /-- Each value is what the last text for its setting spells. -/
  spelt : ∀ s, Option.Rel (fun text v => s.ofOption? text = some v) (p.optionText? words s)
    ((after.or before).value? s)
  /-- A setting that is given twice is given in both places. -/
  twice : ∀ s, p.timesGiven words s < 2 ↔ ¬ (after.holds s = true ∧ before.holds s = true)
  /-- What is asked for in an environment. -/
  filled : ∀ env, p.read env words = fill env before after order.verb order.text order.noWait

/-- The words of a command line that is accepted somewhere give values to settings. -/
theorem exists_stated {order : Order} (hp : p.Heeds) (h : p.read env words = .ok order) :
    ∃ before after, Stated p words before after order := by
  obtain ⟨first, last, before, after, hoptions, hfirst, hlast, hfill⟩ := hp.places h
  refine ⟨before, after, fun s => ?_, fun s => ?_, hfill⟩
  · rw [Parser.optionText?, hoptions, List.reverse_append, List.lookup_append, Given.value?_or]
    exact rel_or (Given.ofTexts_reads hlast s) (Given.ofTexts_reads hfirst s)
  · rw [Parser.timesGiven, hoptions, List.countP_append, Given.countP_ofTexts hfirst,
      Given.countP_ofTexts hlast]
    cases before.holds s <;> cases after.holds s <;> decide

namespace Stated

variable {order order' : Order} (h : Stated p words before after order)

include h

/-- A command line is accepted where each variable can be read but those of settings that are given
twice. -/
theorem accepted_iff :
    (∃ order', p.read env words = .ok order') ↔ ∀ s, p.timesGiven words s < 2 → s.Readable env := by
  have hlooked (s : Setting) : (p.timesGiven words s < 2 → s.Readable env) ↔
      (after.holds s = true ∨ s.Readable env) ∧ (before.holds s = true ∨ s.Readable env) := by
    rw [h.twice, ← and_or_right]
    exact or_iff_not_imp_left.symm
  simp only [hlooked, forall_and, ← Given.isSome_withVariables, h.filled, fill_eq_ok_iff]
  constructor
  · rintro ⟨_, inner, hinner, hbefore, -⟩
    exact ⟨by rw [hinner]; rfl, hbefore⟩
  · rintro ⟨hafter, hbefore⟩
    obtain ⟨inner, hinner⟩ := Option.isSome_iff_exists.mp hafter
    exact ⟨_, inner, hinner, hbefore, rfl⟩

/-- What is asked for has the values that are given, else those of the environment, else the usual
ones. -/
theorem value_settings (hread : p.read env words = .ok order') (s : Setting) :
    order'.settings.value s =
      (((after.or before).value? s).or (s.valueIn? env)).getD (Settings.usual s) := by
  rw [h.filled] at hread
  obtain ⟨inner, hinner, -, rfl⟩ := fill_eq_ok_iff.mp hread
  rw [Given.value_settings, Given.value?_or, Given.value?_withVariables hinner, Given.value?_or]
  cases after.value? s <;> cases before.value? s <;> rfl

theorem longest_settings (hread : p.read env words = .ok order') :
    order'.settings.policy.longest = Settings.usualLongest := by
  rw [h.filled] at hread
  obtain ⟨inner, -, -, rfl⟩ := fill_eq_ok_iff.mp hread
  rfl

/-- The value of a setting with an option is what the option spells. -/
theorem value_of_option {s : Setting} {text : String} (hread : p.read env words = .ok order')
    (htext : p.optionText? words s = some text) :
    s.ofOption? text = some (order'.settings.value s) := by
  rw [h.value_settings hread]
  have hspelt := h.spelt s
  rw [htext] at hspelt
  generalize (after.or before).value? s = given at hspelt ⊢
  cases hspelt with
  | some hv => exact hv

/-- The value of a setting without an option is that of its variable. -/
theorem value_of_variable {s : Setting} (hread : p.read env words = .ok order')
    (htext : p.optionText? words s = none) :
    order'.settings.value s = (s.valueIn? env).getD (Settings.usual s) := by
  rw [h.value_settings hread]
  have hspelt := h.spelt s
  rw [htext] at hspelt
  generalize (after.or before).value? s = given at hspelt ⊢
  cases hspelt with
  | none => rfl

/-- The variable of a setting without an option is looked at. -/
theorem readable_of_variable {s : Setting} (hread : p.read env words = .ok order')
    (htext : p.optionText? words s = none) : s.Readable env := by
  have hnone : (after.or before).holds s = false := by
    have hspelt := h.spelt s
    rw [htext] at hspelt
    rw [Given.holds_eq]
    generalize (after.or before).value? s = given at hspelt ⊢
    cases hspelt with
    | none => rfl
  rw [Given.or_holds, Bool.or_eq_false_iff] at hnone
  exact h.accepted_iff.mp ⟨order', hread⟩ s ((h.twice s).mpr (by simp [hnone.1]))

/-- The value of a setting without an option is the one that an environment has for it. -/
theorem inEnvironment?_of_variable {s : Setting} (hread : p.read env words = .ok order')
    (hsign : s = .attempts → s.Unsigned env) (htext : p.optionText? words s = none) :
    Settings.inEnvironment? env s = some (order'.settings.value s) := by
  rw [h.value_of_variable hread htext]
  exact Setting.inEnvironment?_of_readable hsign (h.readable_of_variable hread htext)

/-- The same is asked for in environments where the variables of settings without options are the
same. -/
theorem order_congr {order₁ order₂ : Order} (h₁ : p.read env words = .ok order₁)
    (h₂ : p.read env' words = .ok order₂)
    (hsame : ∀ s, p.optionText? words s = none →
      env'.get? s.variableName = env.get? s.variableName) : order₂ = order₁ := by
  have hsettings : order₂.settings = order₁.settings := by
    refine Settings.ext_value (fun s => ?_)
      ((h.longest_settings h₂).trans (h.longest_settings h₁).symm)
    cases htext : p.optionText? words s with
    | some text =>
        have hoption := (h.value_of_option h₂ htext).symm.trans (h.value_of_option h₁ htext)
        exact Option.some.inj hoption
    | none =>
        rw [h.value_of_variable h₂ htext, h.value_of_variable h₁ htext, Setting.valueIn?,
          Setting.valueIn?, Environment.text?, Environment.text?, hsame s htext]
  rw [h.filled] at h₁ h₂
  obtain ⟨_, -, -, rfl⟩ := fill_eq_ok_iff.mp h₁
  obtain ⟨_, -, -, rfl⟩ := fill_eq_ok_iff.mp h₂
  exact congrArg (Order.mk · order.verb order.text order.noWait) hsettings

/-- Without options, a command line is accepted in an environment that has settings, and asks for
these, if there is no white space around the values. -/
theorem accepted_of_ofEnvironment {settings : Settings} (hnone : p.options words = [])
    (hsettings : Settings.ofEnvironment env = .ok settings) (htrim : ∀ s : Setting, s.Trimmed env) :
    ∃ order', p.read env words = .ok order' ∧ order'.settings = settings := by
  have hvalue (s : Setting) := Setting.valueIn?_of_inEnvironment? (htrim s)
    (Settings.value_of_ofEnvironment hsettings s)
  obtain ⟨order', hread⟩ := h.accepted_iff.mpr fun s _ => (hvalue s).1
  refine ⟨order', hread, Settings.ext_value (fun s => ?_)
    ((h.longest_settings hread).trans (Settings.longest_of_ofEnvironment hsettings).symm)⟩
  have htext : p.optionText? words s = none := by
    rw [Parser.optionText?, hnone]
    rfl
  rw [h.value_of_variable hread htext]
  exact (hvalue s).2

end Stated

/-- The settings of an accepted command line are what its options say and, where there is none,
what an environment says that has the setting's variable alone.  Such a line is accepted in another
environment if each variable can be read there but those of settings that are given in both places,
and asks for the same where the variables of settings without options are the same.  Without
options the settings are those of the environment, and a line like it is accepted in any
environment that has settings and no white space around their values. -/
theorem read_configured {p : Parser} (hp : p.Heeds) {env : Environment} {words : List String}
    {order : Order} (h : p.read env words = .ok order)
    (hsign : p.optionText? words .attempts = none → Setting.attempts.Unsigned env) :
    (∀ s, match p.optionText? words s with
      | some text => s.ofOption? text = some (order.settings.value s)
      | none => ∃ alone, Settings.ofEnvironment (s.aloneIn env) = .ok alone ∧
          order.settings.value s = alone.value s) ∧
    order.settings.policy.longest = Settings.usualLongest ∧
    (∀ env', (∃ order', p.read env' words = .ok order') ↔
      ∀ s, p.timesGiven words s < 2 → s.Readable env') ∧
    (∀ env' order', p.read env' words = .ok order' →
      (∀ s, p.optionText? words s = none →
        env'.get? s.variableName = env.get? s.variableName) → order' = order) ∧
    (p.options words = [] → Settings.ofEnvironment env = .ok order.settings ∧
      ∀ env' settings, Settings.ofEnvironment env' = .ok settings →
        (∀ s : Setting, s.Trimmed env') →
        ∃ order', p.read env' words = .ok order' ∧ order'.settings = settings) := by
  obtain ⟨before, after, hst⟩ := exists_stated hp h
  have hvariable (s : Setting) (htext : p.optionText? words s = none) :
      Settings.inEnvironment? env s = some (order.settings.value s) := by
    refine hst.inEnvironment?_of_variable h (fun hs => ?_) htext
    subst hs
    exact hsign htext
  refine ⟨fun s => ?_, hst.longest_settings h, fun env' => hst.accepted_iff,
    fun env' order' h' hsame => hst.order_congr h h' hsame, fun hnone => ⟨?_, ?_⟩⟩
  · cases htext : p.optionText? words s with
    | some text => exact hst.value_of_option h htext
    | none =>
        obtain ⟨alone, halone, hvalue⟩ := Setting.exists_aloneIn (hvariable s htext)
        exact ⟨alone, halone, hvalue.symm⟩
  · have htext (s : Setting) : p.optionText? words s = none := by
      rw [Parser.optionText?, hnone]
      rfl
    exact Settings.ofEnvironment_eq_ok (fun s => hvariable s (htext s)) (hst.longest_settings h)
  · intro env' settings hsettings htrim
    exact hst.accepted_of_ofEnvironment hnone hsettings htrim

/-- The parser of this program. -/
def parser : Parser := ⟨read, options⟩

/-- It can be relied on. -/
theorem parser_heeds : parser.Heeds := ⟨fun h => read_eq_fill h⟩

/-- One setting has an option and a variable, one an option after the command, one a variable, and
one neither. -/
theorem read_configured_mixed :
    let env := (Environment.empty.set "CLIPD_ATTEMPTS" (some [0x37])).set "CLIPD_RETRY_DELAY_MS"
      (some [0x32, 0x35])
    let words := ["--attempts", "2", "get", "--backend=Memory"]
    let order : Order :=
      ⟨{ backend := .memory, policy := { attempts := 2, initial := .ofMillis 25 } }, .get, none,
        false⟩
    parser.Heeds ∧ parser.read env words = .ok order ∧
    (parser.optionText? words .attempts = none → Setting.attempts.Unsigned env) ∧
    Setting.attempts.ofOption? "2" = some (order.settings.value .attempts) ∧
    Setting.backend.ofOption? "Memory" = some (order.settings.value .backend) ∧
    (∃ alone, Settings.ofEnvironment (Setting.retryDelay.aloneIn env) = .ok alone ∧
      order.settings.value .retryDelay = alone.value .retryDelay) ∧
    ∃ alone, Settings.ofEnvironment (Setting.readTimeout.aloneIn env) = .ok alone ∧
      order.settings.value .readTimeout = alone.value .readTimeout := by
  intro env words order
  have hread : parser.read env words = .ok order := by decide
  have hsign : parser.optionText? words .attempts = none → Setting.attempts.Unsigned env :=
    fun hnone => absurd hnone (by decide)
  obtain ⟨hvalue, -⟩ := read_configured parser_heeds hread hsign
  exact ⟨parser_heeds, hread, hsign, hvalue .attempts, hvalue .backend, hvalue .retryDelay,
    hvalue .readTimeout⟩

/-- The variable of a setting that has an option before the command is looked at for the place after
it, and stops a command line that is accepted without it. -/
theorem read_obstructed :
    ¬ ∀ (env env' : Environment) (words : List String) (order : Order),
      read env words = .ok order →
      (∀ s, parser.optionText? words s = none →
        env'.get? s.variableName = env.get? s.variableName) →
      read env' words = .ok order := by
  intro hclaim
  let env := Environment.empty.set "CLIPD_BACKEND" (some (Utf8.encode "memory".toList))
  let env' := env.set "CLIPD_ATTEMPTS" (some (Utf8.encode "bogus".toList))
  let words := ["--attempts", "2", "get"]
  let order : Order := ⟨{ backend := .memory, policy := { attempts := 2 } }, .get, none, false⟩
  have hread : parser.read env words = .ok order := by decide
  have hsame (s : Setting) (hnone : parser.optionText? words s = none) :
      env'.get? s.variableName = env.get? s.variableName := by
    cases s with
    | attempts => exact absurd hnone (by decide)
    | backend => decide
    | retryDelay => decide
    | readTimeout => decide
  have hstopped : read env' words = .error .misuse := by decide
  rw [hclaim env env' words order hread hsame] at hstopped
  cases hstopped

end Clipboard.CommandLine
