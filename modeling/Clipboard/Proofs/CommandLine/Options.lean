import Clipboard.Proofs.CommandLine.Given

/-!
# Options

Which options a command line gives can be read off its words alone: an option for a setting has its
value in its word or in the next one, and nothing after two dashes is an option.  Reading the words
place by place comes to the same: a place with the words that are still to come stands for the same
options (`Place.Awaits`) before a word is read and after it.

* `readBefore_reads`, `ofTexts_of_readAfter`: what is read before the command and after it are the
  options of the words, cut in two;
* `read_eq_fill`: a command line that is accepted in one environment is, in any other, its two
  places filled from that environment.
-/

namespace Clipboard.CommandLine

/-! ### Options of words -/

/-- The options among words, with the texts of their values.  If a setting is named, the first word
is its value. -/
def optionsFrom : Option Setting → List String → List (Setting × String)
  | _, [] => []
  | some setting, value :: rest => (setting, value) :: optionsFrom none rest
  | none, word :: rest =>
    match Word.ofString word with
    | .divider => []
    | .option name value =>
      match settingOf? name, value with
      | some setting, some value => (setting, value) :: optionsFrom none rest
      | some setting, none => optionsFrom (some setting) rest
      | none, _ => optionsFrom none rest
    | .letter _ => optionsFrom none rest
    | .argument _ => optionsFrom none rest

/-- The options that a command line gives. -/
def options (words : List String) : List (Setting × String) := optionsFrom none words

/-- A word without dashes is an argument as it stands. -/
theorem Word.eq_of_argument {word text : String} (h : ofString word = .argument text) :
    text = word := by
  unfold ofString at h
  split at h
  · cases h
  · cases h
  · cases h
  · cases h
    rfl

section

variable {word name : String} {value : Option String} {rest : List String}

theorem optionsFrom_divider (h : Word.ofString word = .divider) :
    optionsFrom none (word :: rest) = [] := by
  simp [optionsFrom, h]

theorem optionsFrom_argument {text : String} (h : Word.ofString word = .argument text) :
    optionsFrom none (word :: rest) = optionsFrom none rest := by
  simp [optionsFrom, h]

theorem optionsFrom_complete {s : Setting} {value : String}
    (h : Word.ofString word = .option name (some value)) (hname : settingOf? name = some s) :
    optionsFrom none (word :: rest) = (s, value) :: optionsFrom none rest := by
  simp [optionsFrom, h, hname]

theorem optionsFrom_wanting {s : Setting} (h : Word.ofString word = .option name none)
    (hname : settingOf? name = some s) :
    optionsFrom none (word :: rest) = optionsFrom (some s) rest := by
  simp [optionsFrom, h, hname]

theorem optionsFrom_otherOption (h : Word.ofString word = .option name value)
    (hname : settingOf? name = none) :
    optionsFrom none (word :: rest) = optionsFrom none rest := by
  simp [optionsFrom, h, hname]

end

/-! ### Places -/

namespace Place

/-- The option of a place whose value has come and has not been looked at. -/
def pending (p : Place) : List (Setting × String) :=
  match p.unread with
  | some (setting, some value) => [(setting, value)]
  | _ => []

/-- The options of a place that have their values: those that have been looked at, and then the
one that has not. -/
def Reads (p : Place) (options : List (Setting × String)) : Prop :=
  ∃ seen, Given.ofTexts seen = some p.given ∧ options = seen ++ p.pending

/-- A place with the words that are still to come stands for options. -/
def Awaits (p : Place) (words : List String) (options : List (Setting × String)) : Prop :=
  ∃ read, p.Reads read ∧ options = read ++ optionsFrom p.wantsValue? words

variable {p q : Place} {os : List (Setting × String)} {s : Setting} {value word : String}
  {rest : List String}

theorem reads_empty : ({} : Place).Reads [] := ⟨[], rfl, rfl⟩

/-- Nothing has been read at first, and the words give what they give. -/
theorem awaits_empty (words : List String) : ({} : Place).Awaits words (options words) :=
  ⟨[], reads_empty, rfl⟩

theorem reads_of_unread (hunread : p.unread = none) (h : Given.ofTexts os = some p.given) :
    p.Reads os :=
  ⟨os, h, by simp [pending, hunread]⟩

theorem awaits_of_unread (hunread : p.unread = none) (h : Given.ofTexts os = some p.given)
    (words : List String) : p.Awaits words (os ++ optionsFrom none words) :=
  ⟨os, reads_of_unread hunread h, by simp [wantsValue?, hunread]⟩

theorem add_eq_ok_iff : p.add s value = .ok q ↔
    ∃ g, p.given.addNew (s, value) = some g ∧ q = { p with given := g } := by
  unfold add Given.addNew
  cases p.given.holds s with
  | true => simp
  | false => cases p.given.add s value <;> simp [eq_comm]

/-- The options of a place when the last value has been looked at. -/
theorem settled (hp : p.Reads os) (h : p.settle = .ok q) :
    p.wantsValue? = none ∧ q.unread = none ∧ Given.ofTexts os = some q.given := by
  obtain ⟨seen, hseen, rfl⟩ := hp
  unfold settle at h
  unfold wantsValue? pending
  match hunread : p.unread with
  | none =>
      rw [hunread] at h
      cases h
      simp [hunread, hseen]
  | some (s, none) => rw [hunread] at h; cases h
  | some (s, some value) =>
      rw [hunread] at h
      obtain ⟨g, hadd, rfl⟩ := add_eq_ok_iff.mp h
      exact ⟨rfl, rfl, Given.ofTexts_concat_eq_some_iff.mpr ⟨_, hseen, hadd⟩⟩

/-! ### One word -/

/-- A word that is the value of the option before it. -/
theorem awaits_value (hp : p.Awaits (word :: rest) os) (hwants : p.wantsValue? = some s) :
    ({ p with unread := some (s, some word) } : Place).Awaits rest os := by
  obtain ⟨read, ⟨seen, hseen, rfl⟩, rfl⟩ := hp
  have hpending : p.pending = [] := by
    unfold wantsValue? at hwants
    unfold pending
    split at hwants
    next setting hunread => rw [hunread]
    · cases hwants
  refine ⟨seen ++ [(s, word)], ⟨seen, hseen, rfl⟩, ?_⟩
  rw [hwants, hpending]
  simp [optionsFrom, wantsValue?]

/-- A word that is an option for a setting. -/
theorem awaits_option {name : String} {value : Option String}
    (hword : Word.ofString word = .option name value) (hp : p.Awaits (word :: rest) os)
    (h : p.option name value = .ok q) : q.Awaits rest os := by
  obtain ⟨read, hread, rfl⟩ := hp
  unfold option at h
  split at h
  · obtain ⟨_, -, h⟩ := except_bind_eq_ok.mp h
    cases h
  cases hname : settingOf? name with
  | none => rw [hname] at h; cases h
  | some s =>
      rw [hname] at h
      obtain ⟨p', hsettle, h⟩ := except_bind_eq_ok.mp h
      obtain ⟨hwants, hunread, hgiven⟩ := settled hread hsettle
      rw [hwants]
      cases value with
      | none =>
          cases h
          rw [optionsFrom_wanting hword hname]
          exact ⟨read, ⟨read, hgiven, (List.append_nil _).symm⟩, rfl⟩
      | some value =>
          obtain ⟨g, hadd, rfl⟩ := add_eq_ok_iff.mp h
          have hread' := Given.ofTexts_concat_eq_some_iff.mpr ⟨_, hgiven, hadd⟩
          rw [optionsFrom_complete hword hname, List.append_cons]
          exact awaits_of_unread (p := { p' with given := g }) hunread hread' rest

/-- A word that is an option after the command, where one more is known. -/
theorem awaits_optionOf {verb : Verb} {name : String} {value : Option String}
    (hword : Word.ofString word = .option name value) (hp : p.Awaits (word :: rest) os)
    (h : p.optionOf verb name value = .ok q) : q.Awaits rest os := by
  unfold optionOf at h
  split at h
  next hnoWait =>
    obtain ⟨read, hread, rfl⟩ := hp
    obtain ⟨p', hsettle, h⟩ := except_bind_eq_ok.mp h
    obtain ⟨hwants, hunread, hgiven⟩ := settled hread hsettle
    have hname : settingOf? name = none := by rw [hnoWait.2.1]; decide
    rw [hwants, optionsFrom_otherOption hword hname]
    split at h
    · cases h
    · cases h
      exact awaits_of_unread hunread hgiven rest
  · exact awaits_option hword hp h

/-- No option with a letter is taken. -/
theorem letter_ne_ok (p q : Place) (c : Char) : p.letter c ≠ .ok q := by
  intro h
  unfold letter at h
  split at h
  · obtain ⟨_, -, h⟩ := except_bind_eq_ok.mp h
    cases h
  · cases h

/-- An argument is taken when the last value has been looked at. -/
theorem settled_argument {verb : Verb} {text : String} (hp : p.Reads os)
    (h : p.argument verb text = .ok q) :
    p.wantsValue? = none ∧ q.unread = none ∧ Given.ofTexts os = some q.given := by
  obtain ⟨p', hsettle, h⟩ := except_bind_eq_ok.mp h
  obtain ⟨hwants, hunread, hgiven⟩ := settled hp hsettle
  split at h
  · cases h
    exact ⟨hwants, hunread, hgiven⟩
  · cases h

/-- A word that is an argument after the command. -/
theorem awaits_argument {verb : Verb} {text : String}
    (hword : Word.ofString word = .argument text) (hp : p.Awaits (word :: rest) os)
    (h : p.argument verb text = .ok q) : q.Awaits rest os := by
  obtain ⟨read, hread, rfl⟩ := hp
  obtain ⟨hwants, hunread, hgiven⟩ := settled_argument hread h
  rw [hwants, optionsFrom_argument hword]
  exact awaits_of_unread hunread hgiven rest

/-- Words that are all arguments, to the end. -/
theorem settled_arguments {verb : Verb} {words : List String} (hp : p.Reads os)
    (h : (words.foldlM (argument verb) p >>= settle) = .ok q) :
    p.wantsValue? = none ∧ Given.ofTexts os = some q.given := by
  induction words generalizing p with
  | nil =>
      obtain ⟨hwants, -, hgiven⟩ := settled hp h
      exact ⟨hwants, hgiven⟩
  | cons word words ih =>
      rw [List.foldlM_cons, bind_assoc] at h
      obtain ⟨p', hargument, h⟩ := except_bind_eq_ok.mp h
      obtain ⟨hwants, hunread, hgiven⟩ := settled_argument hp hargument
      exact ⟨hwants, (ih (reads_of_unread hunread hgiven) h).2⟩

end Place

/-! ### All words -/

variable {p q : Place} {verb : Verb} {words rest : List String} {os : List (Setting × String)}

/-- After the command, what has been read at the end is what the place stood for. -/
theorem ofTexts_of_readAfter (hp : p.Awaits words os) (h : readAfter verb p words = .ok q) :
    Given.ofTexts os = some q.given := by
  induction words generalizing p with
  | nil =>
      obtain ⟨read, hread, rfl⟩ := hp
      obtain ⟨-, -, hgiven⟩ := Place.settled hread h
      rw [← hgiven]
      simp [optionsFrom]
  | cons word rest ih =>
      cases hword : Word.ofString word with
      | divider =>
          obtain ⟨read, hread, rfl⟩ := hp
          unfold readAfter at h
          rw [hword] at h
          obtain ⟨hwants, hgiven⟩ := Place.settled_arguments hread h
          rw [hwants, optionsFrom_divider hword, List.append_nil, hgiven]
      | option name value =>
          unfold readAfter at h
          rw [hword] at h
          obtain ⟨p', hoption, h⟩ := except_bind_eq_ok.mp h
          exact ih (Place.awaits_optionOf hword hp hoption) h
      | letter c =>
          unfold readAfter at h
          rw [hword] at h
          obtain ⟨p', hletter, -⟩ := except_bind_eq_ok.mp h
          exact absurd hletter (Place.letter_ne_ok p p' c)
      | argument text =>
          cases hwants : p.wantsValue? with
          | some s =>
              unfold readAfter at h
              rw [hword, hwants, Word.eq_of_argument hword] at h
              exact ih (Place.awaits_value hp hwants) h
          | none =>
              unfold readAfter at h
              rw [hword, hwants] at h
              obtain ⟨p', hargument, h⟩ := except_bind_eq_ok.mp h
              exact ih (Place.awaits_argument hword hp hargument) h

/-- An argument that is no value is the command, and the words after it are for the other place. -/
theorem readBefore_command {word text : String} (hword : Word.ofString word = .argument text)
    (hwants : p.wantsValue? = none) (h : readBefore p (word :: words) = .ok (q, verb, rest)) :
    q = p ∧ rest = words := by
  unfold readBefore at h
  rw [hword, hwants] at h
  dsimp only at h
  split at h
  · split at h <;> cases h
  · split at h
    · cases h
      exact ⟨rfl, rfl⟩
    · cases h

/-- Before the command, what has been read there and what follows the command are what the place
stood for. -/
theorem readBefore_reads (hp : p.Awaits words os)
    (h : readBefore p words = .ok (q, verb, rest)) :
    ∃ first, q.Reads first ∧ os = first ++ options rest := by
  induction words generalizing p with
  | nil => cases h
  | cons word words ih =>
      cases hword : Word.ofString word with
      | divider =>
          unfold readBefore at h
          rw [hword] at h
          cases h
      | option name value =>
          unfold readBefore at h
          rw [hword] at h
          obtain ⟨p', hoption, h⟩ := except_bind_eq_ok.mp h
          exact ih (Place.awaits_option hword hp hoption) h
      | letter c =>
          unfold readBefore at h
          rw [hword] at h
          obtain ⟨p', hletter, -⟩ := except_bind_eq_ok.mp h
          exact absurd hletter (Place.letter_ne_ok p p' c)
      | argument text =>
          cases hwants : p.wantsValue? with
          | some s =>
              unfold readBefore at h
              rw [hword, hwants, Word.eq_of_argument hword] at h
              exact ih (Place.awaits_value hp hwants) h
          | none =>
              obtain ⟨read, hread, rfl⟩ := hp
              rw [hwants, optionsFrom_argument hword]
              obtain ⟨rfl, rfl⟩ := readBefore_command hword hwants h
              exact ⟨read, hread, rfl⟩

/-! ### The two places -/

/-- What is asked for with values before the command and after it, in an environment. -/
def fill (env : Environment) (before after : Given) (verb : Verb) (text : Option String)
    (noWait : Bool) : Except Stop Order :=
  match after.withVariables env, before.withVariables env with
  | some inner, some _ => .ok ⟨((after.or before).or inner).settings, verb, text, noWait⟩
  | _, _ => .error .misuse

theorem fill_eq_ok_iff {env : Environment} {before after : Given} {text : Option String}
    {noWait : Bool} {order : Order} : fill env before after verb text noWait = .ok order ↔
      ∃ inner, after.withVariables env = some inner ∧ (before.withVariables env).isSome = true ∧
        order = ⟨((after.or before).or inner).settings, verb, text, noWait⟩ := by
  unfold fill
  cases after.withVariables env <;> cases before.withVariables env <;> simp [eq_comm]

/-- Words whose places can be read ask for what these come to. -/
theorem read_eq_of_places {p' : Place} (hbefore : readBefore {} words = .ok (p, verb, rest))
    (hafter : readAfter verb {} rest = .ok q) (hsettle : p.settle = .ok p') (env : Environment) :
    read env words = fill env p'.given q.given verb q.text q.noWait := by
  unfold read
  rw [hbefore]
  change (readAfter verb {} rest >>= _) = _
  rw [hafter]
  change (p.settle >>= _) = _
  rw [hsettle]
  rfl

/-- A command line that is accepted in one environment gives options before the command and after
it, and asks in any environment for what these come to there. -/
theorem read_eq_fill {env : Environment} {order : Order} (h : read env words = .ok order) :
    ∃ first last before after, options words = first ++ last ∧
      Given.ofTexts first = some before ∧ Given.ofTexts last = some after ∧
      ∀ env', read env' words = fill env' before after order.verb order.text order.noWait := by
  obtain ⟨⟨p, verb, rest⟩, hbefore, hplaces⟩ := except_bind_eq_ok.mp h
  obtain ⟨q, hafter, hplaces⟩ := except_bind_eq_ok.mp hplaces
  obtain ⟨p', hsettle, -⟩ := except_bind_eq_ok.mp hplaces
  obtain ⟨first, hp, hoptions⟩ := readBefore_reads (Place.awaits_empty words) hbefore
  obtain ⟨-, -, hfirst⟩ := Place.settled hp hsettle
  have hlast := ofTexts_of_readAfter (Place.awaits_empty rest) hafter
  have hfill := read_eq_of_places hbefore hafter hsettle
  rw [hfill env] at h
  obtain ⟨inner, -, -, rfl⟩ := fill_eq_ok_iff.mp h
  exact ⟨first, options rest, p'.given, q.given, hoptions, hfirst, hlast, hfill⟩

end Clipboard.CommandLine
