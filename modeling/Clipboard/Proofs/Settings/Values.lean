import Clipboard.Settings

/-!
# Settings one by one

The settings differ in what they hold and in where it is kept, and are alike otherwise: each has
a variable of its own, a reader for it, and a usual value.  Seen through their values, settings
of an environment are four times the same.

* `ext_value`: settings are their values and the longest pause;
* `value_of_ofEnvironment`: each setting is what its variable spells, or as usual;
* `exists_ofEnvironment`: there are settings if every variable that is set can be read;
* `exists_aloneIn`: a variable that can be read is enough for settings with its value.
-/

namespace Clipboard

/-- A sequence that succeeds has succeeded at each step. -/
theorem except_bind_eq_ok {ε α β : Type} {x : Except ε α} {f : α → Except ε β} {b : β} :
    (x >>= f) = .ok b ↔ ∃ a, x = .ok a ∧ f a = .ok b := by
  cases x with
  | error e => exact ⟨nofun, fun ⟨_, h, _⟩ => nomatch h⟩
  | ok a => exact ⟨fun h => ⟨a, rfl, h⟩, fun ⟨a', ha, h⟩ => Except.ok.inj ha ▸ h⟩

/-- A sequence that fails has failed at its first step or after it. -/
theorem except_bind_eq_error {ε α β : Type} {x : Except ε α} {f : α → Except ε β} {e : ε} :
    (x >>= f) = .error e ↔ x = .error e ∨ ∃ a, x = .ok a ∧ f a = .error e := by
  cases x with
  | error e' =>
      refine ⟨fun h => .inl (congrArg Except.error (Except.error.inj h)), ?_⟩
      rintro (h | ⟨a, ha, -⟩)
      · exact congrArg Except.error (Except.error.inj h)
      · cases ha
  | ok a =>
      exact ⟨fun h => .inr ⟨a, rfl, h⟩,
        fun h => h.elim nofun fun ⟨a', ha, h⟩ => Except.ok.inj ha ▸ h⟩

theorem except_toOption_eq_some {ε α : Type} {x : Except ε α} {a : α} :
    x.toOption = some a ↔ x = .ok a := by
  cases x <;> simp [Except.toOption]

namespace Setting

/-- What a setting is set to. -/
inductive Value where
  | choice (c : Choice)
  | count (n : Nat)
  | pause (d : Duration)
  deriving DecidableEq, Repr

/-- All settings, in the order in which their variables are read. -/
def all : List Setting := [backend, attempts, retryDelay, readTimeout]

theorem mem_all (s : Setting) : s ∈ all := by cases s <;> decide

/-- Every setting has a variable of its own. -/
theorem variableName_injective : Function.Injective variableName := by
  intro s s' h
  cases s <;> cases s' <;> first | rfl | exact absurd h (by decide)

/-- The value that the text of a variable spells. -/
def ofVariable? : Setting → String → Option Value
  | backend, text => (Choice.read text).toOption.map .choice
  | attempts, text => (Settings.readNumber mostAttempts text).toOption.map .count
  | retryDelay, text =>
    (Settings.readNumber mostMillis text).toOption.map fun n => .pause (.ofMillis n)
  | readTimeout, text =>
    (Settings.readNumber mostMillis text).toOption.map fun n => .pause (.ofMillis n)

end Setting

namespace Settings

/-- The value of a setting. -/
def value (a : Settings) : Setting → Setting.Value
  | .backend => .choice a.backend
  | .attempts => .count a.policy.attempts
  | .retryDelay => .pause a.policy.initial
  | .readTimeout => .pause a.readTimeout

/-- The value of a setting that nobody has set. -/
def usual (s : Setting) : Setting.Value := ({} : Settings).value s

/-- No pause is longer, and no setting is for that. -/
def usualLongest : Duration := ({} : Settings).policy.longest

/-- Settings are their values. -/
theorem ext_value {a b : Settings} (h : ∀ s, a.value s = b.value s)
    (hlongest : a.policy.longest = b.policy.longest) : a = b := by
  obtain ⟨backend, ⟨attempts, initial, longest⟩, readTimeout⟩ := a
  obtain ⟨backend', ⟨attempts', initial', longest'⟩, readTimeout'⟩ := b
  have hbackend : backend = backend' := Setting.Value.choice.inj (h .backend)
  have hattempts : attempts = attempts' := Setting.Value.count.inj (h .attempts)
  have hinitial : initial = initial' := Setting.Value.pause.inj (h .retryDelay)
  have htimeout : readTimeout = readTimeout' := Setting.Value.pause.inj (h .readTimeout)
  have hlongest : longest = longest' := hlongest
  subst hbackend hattempts hinitial htimeout hlongest
  rfl

/-- The value of a setting in an environment, if its variable is unset or can be read. -/
def inEnvironment? (env : Environment) (s : Setting) : Option Setting.Value :=
  match env.text? s.variableName with
  | none => some (usual s)
  | some text => s.ofVariable? text

/-- Nothing but its variable has a say in the value of a setting. -/
theorem inEnvironment?_congr {env env' : Environment} {s : Setting}
    (h : env'.get? s.variableName = env.get? s.variableName) :
    inEnvironment? env' s = inEnvironment? env s := by
  unfold inEnvironment? Environment.text?
  rw [h]

theorem inEnvironment?_of_unset {env : Environment} {s : Setting}
    (h : env.get? s.variableName = none) : inEnvironment? env s = some (usual s) := by
  simp [inEnvironment?, Environment.text?, h]

section

variable {α : Type} {env : Environment} {s : Setting} {read : String → Except String α}
  {f : α → Setting.Value}

/-- A variable is read for the value that it spells. -/
theorem inEnvironment?_of_given (hread : ∀ text, s.ofVariable? text = (read text).toOption.map f)
    {o : Option α} (h : given env s read = .ok o) :
    inEnvironment? env s = some ((o.map f).getD (usual s)) := by
  unfold given at h
  unfold inEnvironment?
  cases htext : env.text? s.variableName with
  | none =>
      rw [htext] at h
      cases h
      rfl
  | some text =>
      rw [htext] at h
      dsimp only at h ⊢
      rw [hread]
      cases hvalue : read text with
      | error reason => rw [hvalue] at h; cases h
      | ok a => rw [hvalue] at h; cases h; rfl

/-- A variable that spells a value can be read. -/
theorem exists_given (read : String → Except String α)
    (hread : ∀ text, s.ofVariable? text = (read text).toOption.map f) {v : Setting.Value}
    (h : inEnvironment? env s = some v) : ∃ o, given env s read = .ok o := by
  unfold inEnvironment? at h
  unfold given
  cases htext : env.text? s.variableName with
  | none => exact ⟨none, rfl⟩
  | some text =>
      rw [htext] at h
      dsimp only at h ⊢
      rw [hread] at h
      cases hvalue : read text with
      | error reason => rw [hvalue] at h; cases h
      | ok a => exact ⟨some a, rfl⟩

end

/-- The values of settings made of those that are given. -/
theorem value_ofGiven (backend : Option Choice) (attempts retryDelay readTimeout : Option Nat) :
    ∀ s, (ofGiven backend attempts retryDelay readTimeout).value s =
      match s with
      | .backend => (backend.map .choice).getD (usual .backend)
      | .attempts => (attempts.map .count).getD (usual .attempts)
      | .retryDelay => (retryDelay.map fun n => .pause (.ofMillis n)).getD (usual .retryDelay)
      | .readTimeout => (readTimeout.map fun n => .pause (.ofMillis n)).getD (usual .readTimeout)
  | .backend => by cases backend <;> rfl
  | .attempts => by cases attempts <;> rfl
  | .retryDelay => by cases retryDelay <;> rfl
  | .readTimeout => by cases readTimeout <;> rfl

/-- The settings of an environment are those that are given by its variables. -/
theorem ofEnvironment_eq_ok_iff {env : Environment} {a : Settings} :
    ofEnvironment env = .ok a ↔ ∃ backend attempts retryDelay readTimeout,
      given env .backend Choice.read = .ok backend ∧
      given env .attempts (readNumber Setting.mostAttempts) = .ok attempts ∧
      given env .retryDelay (readNumber Setting.mostMillis) = .ok retryDelay ∧
      given env .readTimeout (readNumber Setting.mostMillis) = .ok readTimeout ∧
      a = ofGiven backend attempts retryDelay readTimeout := by
  unfold ofEnvironment
  simp only [except_bind_eq_ok]
  constructor
  · rintro ⟨backend, hb, attempts, hn, retryDelay, hd, readTimeout, ht, h⟩
    exact ⟨backend, attempts, retryDelay, readTimeout, hb, hn, hd, ht, (Except.ok.inj h).symm⟩
  · rintro ⟨backend, attempts, retryDelay, readTimeout, hb, hn, hd, ht, rfl⟩
    exact ⟨backend, hb, attempts, hn, retryDelay, hd, readTimeout, ht, rfl⟩

/-- Each setting of an environment is what its variable spells, or as usual. -/
theorem value_of_ofEnvironment {env : Environment} {a : Settings}
    (h : ofEnvironment env = .ok a) (s : Setting) : inEnvironment? env s = some (a.value s) := by
  obtain ⟨backend, attempts, retryDelay, readTimeout, hb, hn, hd, ht, rfl⟩ :=
    ofEnvironment_eq_ok_iff.mp h
  rw [value_ofGiven]
  cases s with
  | backend => exact inEnvironment?_of_given (fun _ => rfl) hb
  | attempts => exact inEnvironment?_of_given (fun _ => rfl) hn
  | retryDelay => exact inEnvironment?_of_given (fun _ => rfl) hd
  | readTimeout => exact inEnvironment?_of_given (fun _ => rfl) ht

theorem longest_of_ofEnvironment {env : Environment} {a : Settings}
    (h : ofEnvironment env = .ok a) : a.policy.longest = usualLongest := by
  obtain ⟨_, _, _, _, -, -, -, -, rfl⟩ := ofEnvironment_eq_ok_iff.mp h
  rfl

/-- An environment has settings if every variable that is set spells a value. -/
theorem exists_ofEnvironment {env : Environment}
    (h : ∀ s, ∃ v, inEnvironment? env s = some v) : ∃ a, ofEnvironment env = .ok a := by
  obtain ⟨_, hb⟩ := h .backend
  obtain ⟨_, hn⟩ := h .attempts
  obtain ⟨_, hd⟩ := h .retryDelay
  obtain ⟨_, ht⟩ := h .readTimeout
  obtain ⟨backend, hb⟩ := exists_given Choice.read (fun _ => rfl) hb
  obtain ⟨attempts, hn⟩ := exists_given (readNumber Setting.mostAttempts) (fun _ => rfl) hn
  obtain ⟨retryDelay, hd⟩ := exists_given (readNumber Setting.mostMillis) (fun _ => rfl) hd
  obtain ⟨readTimeout, ht⟩ := exists_given (readNumber Setting.mostMillis) (fun _ => rfl) ht
  exact ⟨_, ofEnvironment_eq_ok_iff.mpr
    ⟨backend, attempts, retryDelay, readTimeout, hb, hn, hd, ht, rfl⟩⟩

/-- Settings whose values an environment has are the settings of that environment. -/
theorem ofEnvironment_eq_ok {env : Environment} {a : Settings}
    (h : ∀ s, inEnvironment? env s = some (a.value s))
    (hlongest : a.policy.longest = usualLongest) : ofEnvironment env = .ok a := by
  obtain ⟨b, hb⟩ := exists_ofEnvironment fun s => ⟨_, h s⟩
  have hvalue (s : Setting) : b.value s = a.value s :=
    Option.some.inj ((value_of_ofEnvironment hb s).symm.trans (h s))
  rw [hb, ext_value hvalue ((longest_of_ofEnvironment hb).trans hlongest.symm)]

end Settings

namespace Setting

/-- The environment with the variable of a setting alone. -/
def aloneIn (env : Environment) (s : Setting) : Environment :=
  Environment.empty.set s.variableName (env.get? s.variableName)

/-- A variable that spells a value is enough for settings that have it. -/
theorem exists_aloneIn {env : Environment} {s : Setting} {v : Value}
    (h : Settings.inEnvironment? env s = some v) :
    ∃ alone, Settings.ofEnvironment (s.aloneIn env) = .ok alone ∧ alone.value s = v := by
  have hself : Settings.inEnvironment? (s.aloneIn env) s = some v := by
    rw [← h]
    exact Settings.inEnvironment?_congr (Environment.get?_set_self _ _ _)
  have hall (s' : Setting) : ∃ v, Settings.inEnvironment? (s.aloneIn env) s' = some v := by
    by_cases hs : s' = s
    · subst hs
      exact ⟨v, hself⟩
    · have hname : s'.variableName ≠ s.variableName := variableName_injective.ne hs
      have hunset : (s.aloneIn env).get? s'.variableName = none :=
        Environment.get?_set_of_ne hname _ _
      exact ⟨_, Settings.inEnvironment?_of_unset hunset⟩
  obtain ⟨alone, halone⟩ := Settings.exists_ofEnvironment hall
  have hvalue := Settings.value_of_ofEnvironment halone s
  rw [hself] at hvalue
  exact ⟨alone, halone, (Option.some.inj hvalue).symm⟩

end Setting

end Clipboard
