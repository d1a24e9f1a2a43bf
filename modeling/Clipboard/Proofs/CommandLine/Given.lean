import Clipboard.CommandLine.Arguments
import Clipboard.Proofs.Settings.Values
import Mathlib.Data.List.Induction

/-!
# Values that are given

A place of a command line gives values to settings one after the other, and the environment gives
them to settings that have none.  Both are the same for every setting once values are seen through
`Given.value?`.

* `ofTexts_reads`: values that are given as texts are what the texts spell;
* `countP_ofTexts`: none is given twice;
* `isSome_withVariables`: the environment is taken if each setting has a value or a readable
  variable;
* `value?_withVariables`: it gives values where there are none.
-/

namespace Clipboard

namespace Setting

/-- The value that the text of an option spells. -/
def ofOption? : Setting → String → Option Value
  | backend, text => (Choice.read text).toOption.map .choice
  | attempts, text => (CommandLine.Given.readAttempts text).map .count
  | retryDelay, text => (CommandLine.Given.readMillis text).map fun n => .pause (.ofMillis n)
  | readTimeout, text => (CommandLine.Given.readMillis text).map fun n => .pause (.ofMillis n)

/-- The value that the variable of a setting spells as the text of an option. -/
def valueIn? (env : Environment) (s : Setting) : Option Value :=
  (env.text? s.variableName).bind s.ofOption?

/-- The variable of a setting can be looked at: it is unset, or spells a value. -/
def Readable (env : Environment) (s : Setting) : Prop :=
  env.get? s.variableName = none ∨ (s.valueIn? env).isSome = true

theorem valueIn?_of_unset {env : Environment} {s : Setting}
    (h : env.get? s.variableName = none) : s.valueIn? env = none := by
  simp [valueIn?, Environment.text?, h]

end Setting

namespace CommandLine.Given

/-- The value of a setting, if it has one. -/
def value? (g : Given) : Setting → Option Setting.Value
  | .backend => g.backend.map .choice
  | .attempts => g.attempts.map .count
  | .retryDelay => g.retryDelay.map fun n => .pause (.ofMillis n)
  | .readTimeout => g.readTimeout.map fun n => .pause (.ofMillis n)

@[simp] theorem value?_empty (s : Setting) : ({} : Given).value? s = none := by
  cases s <;> rfl

theorem holds_eq (g : Given) (s : Setting) : g.holds s = (g.value? s).isSome := by
  cases s <;> simp [holds, value?]

theorem value?_or (g h : Given) (s : Setting) :
    (g.or h).value? s = (g.value? s).or (h.value? s) := by
  cases s <;> simp [or, value?, Option.map_or]

/-- Settings made of given values have these, and are as usual otherwise. -/
theorem value_settings (g : Given) (s : Setting) :
    g.settings.value s = (g.value? s).getD (Settings.usual s) := by
  rw [settings, Settings.value_ofGiven]
  cases s <;> rfl

theorem longest_settings (g : Given) : g.settings.policy.longest = Settings.usualLongest := rfl

variable {g g' : Given} {env : Environment} {s : Setting} {text : String}

/-- A value is added if its text spells one. -/
theorem isSome_add : (g.add s text).isSome = (s.ofOption? text).isSome := by
  cases s <;> simp [add, Setting.ofOption?]

theorem spelt_of_add (h : g.add s text = some g') : ∃ v, s.ofOption? text = some v := by
  rw [← Option.isSome_iff_exists, ← isSome_add (g := g), h]
  rfl

/-- A value that is added is what its text spells, and leaves the others as they are. -/
theorem value?_add (h : g.add s text = some g') (s' : Setting) :
    g'.value? s' = if s' = s then s.ofOption? text else g.value? s' := by
  cases s <;> simp only [add, Option.map_eq_some_iff] at h <;> obtain ⟨a, ha, rfl⟩ := h <;>
    cases s' <;> simp [value?, Setting.ofOption?, ha]

/-! ### Values as texts -/

/-- The values with one more, for a setting that has none. -/
def addNew (g : Given) (o : Setting × String) : Option Given :=
  if g.holds o.1 then none else g.add o.1 o.2

theorem addNew_eq_some_iff {o : Setting × String} :
    g.addNew o = some g' ↔ g.value? o.1 = none ∧ g.add o.1 o.2 = some g' := by
  unfold addNew
  rw [holds_eq]
  cases g.value? o.1 <;> simp

/-- The values that texts give to settings, if each setting is given at most one. -/
def ofTexts (options : List (Setting × String)) : Option Given := options.foldlM addNew {}

theorem ofTexts_concat_eq_some_iff {options : List (Setting × String)} {o : Setting × String} :
    ofTexts (options ++ [o]) = some g' ↔ ∃ g, ofTexts options = some g ∧ g.addNew o = some g' := by
  unfold ofTexts
  rw [List.foldlM_append]
  simp [Option.bind_eq_some_iff]

/-- Each value is what the last text for its setting spells. -/
theorem ofTexts_reads {options : List (Setting × String)} (h : ofTexts options = some g)
    (s : Setting) :
    Option.Rel (fun text v => s.ofOption? text = some v) (options.reverse.lookup s)
      (g.value? s) := by
  induction options using List.reverseRecOn generalizing g with
  | nil =>
      cases h
      rw [value?_empty]
      exact .none
  | append_singleton options o ih =>
      obtain ⟨g₀, hoptions, ho⟩ := ofTexts_concat_eq_some_iff.mp h
      obtain ⟨-, hadd⟩ := addNew_eq_some_iff.mp ho
      rw [value?_add hadd, List.reverse_concat, List.lookup_cons]
      by_cases hs : s = o.1
      · subst hs
        obtain ⟨v, hv⟩ := spelt_of_add hadd
        rw [if_pos rfl, hv]
        simpa using Option.Rel.some hv
      · have hne : (s == o.1) = false := by simpa using hs
        rw [if_neg hs, hne]
        exact ih hoptions

/-- A setting that has a value is given once, and any other not at all. -/
theorem countP_ofTexts {options : List (Setting × String)} (h : ofTexts options = some g)
    (s : Setting) : options.countP (·.1 = s) = if g.holds s then 1 else 0 := by
  induction options using List.reverseRecOn generalizing g with
  | nil => cases h; cases s <;> rfl
  | append_singleton options o ih =>
      obtain ⟨g₀, hoptions, ho⟩ := ofTexts_concat_eq_some_iff.mp h
      obtain ⟨hnone, hadd⟩ := addNew_eq_some_iff.mp ho
      have hcount := ih hoptions
      rw [holds_eq] at hcount ⊢
      rw [List.countP_append, List.countP_singleton, hcount, value?_add hadd]
      by_cases hs : s = o.1
      · subst hs
        obtain ⟨v, hv⟩ := spelt_of_add hadd
        simp [hnone, hv]
      · simp [hs, Ne.symm hs]

/-! ### Values of the environment -/

/-- The variable of a setting is looked at if the setting has no value. -/
theorem isSome_addVariable :
    (g.addVariable env s).isSome = true ↔ g.holds s = true ∨ s.Readable env := by
  unfold addVariable Setting.Readable Setting.valueIn?
  cases g.holds s with
  | true => simp
  | false =>
      cases env.get? s.variableName with
      | none => simp
      | some bytes =>
          cases env.text? s.variableName with
          | none => simp
          | some text => simp [isSome_add]

/-- A setting that has no value is given that of its variable. -/
theorem value?_addVariable (h : g.addVariable env s = some g') (s' : Setting) :
    g'.value? s' = (g.value? s').or (if s' = s then s.valueIn? env else none) := by
  unfold addVariable at h
  rw [holds_eq] at h
  cases hvalue : g.value? s with
  | some v =>
      rw [hvalue] at h
      cases h
      by_cases hs : s' = s
      · simp [hs, hvalue]
      · simp [hs]
  | none =>
      rw [hvalue] at h
      cases hget : env.get? s.variableName with
      | none =>
          rw [hget] at h
          cases h
          simp [Setting.valueIn?_of_unset hget]
      | some bytes =>
          rw [hget] at h
          obtain ⟨text, htext, hadd⟩ := Option.bind_eq_some_iff.mp h
          rw [value?_add hadd]
          by_cases hs : s' = s
          · simp [hs, hvalue, Setting.valueIn?, htext]
          · simp [hs]

/-- The environment gives values to one setting after the other. -/
theorem withVariables_eq (env : Environment) (g : Given) :
    g.withVariables env = Setting.all.foldlM (addVariable env) g := by
  simp [withVariables, Setting.all]

/-- Settings are given the values of their variables where they have none. -/
theorem value?_foldlM_addVariable {settings : List Setting}
    (h : settings.foldlM (addVariable env) g = some g') (s : Setting) :
    g'.value? s = (g.value? s).or (if s ∈ settings then s.valueIn? env else none) := by
  induction settings generalizing g with
  | nil => cases h; simp
  | cons s₀ settings ih =>
      obtain ⟨g₁, hfirst, hrest⟩ := Option.bind_eq_some_iff.mp h
      rw [ih hrest, value?_addVariable hfirst, Option.or_assoc]
      by_cases hs : s = s₀
      · subst hs
        by_cases hmem : s ∈ settings <;> simp [hmem]
      · simp [hs]

/-- They can be given them if each has a value or a readable variable. -/
theorem isSome_foldlM_addVariable {settings : List Setting} :
    (settings.foldlM (addVariable env) g).isSome = true ↔
      ∀ s ∈ settings, g.holds s = true ∨ s.Readable env := by
  induction settings generalizing g with
  | nil => simp
  | cons s₀ settings ih =>
      rw [List.forall_mem_cons, ← isSome_addVariable, List.foldlM_cons]
      cases hfirst : g.addVariable env s₀ with
      | none => simp
      | some g₁ =>
          -- a value that is new is one of a readable variable
          have hsame (s : Setting) : g₁.holds s = true ∨ s.Readable env ↔
              g.holds s = true ∨ s.Readable env := by
            rw [holds_eq, holds_eq, value?_addVariable hfirst]
            by_cases hs : s = s₀
            · subst hs
              have hreadable : (s.valueIn? env).isSome = true → s.Readable env := .inr
              simp [or_assoc, or_iff_right_of_imp hreadable]
            · simp [hs]
          have hrest := ih (g := g₁)
          simp only [hsame] at hrest
          simpa using hrest

/-- The environment can be taken if each setting has a value or a readable variable. -/
theorem isSome_withVariables :
    (g.withVariables env).isSome = true ↔ ∀ s : Setting, g.holds s = true ∨ s.Readable env := by
  rw [withVariables_eq, isSome_foldlM_addVariable]
  exact forall_congr' fun s => imp_iff_right s.mem_all

/-- It gives values where there are none. -/
theorem value?_withVariables (h : g.withVariables env = some g') (s : Setting) :
    g'.value? s = (g.value? s).or (s.valueIn? env) := by
  rw [withVariables_eq] at h
  rw [value?_foldlM_addVariable h, if_pos s.mem_all]

end CommandLine.Given

end Clipboard
