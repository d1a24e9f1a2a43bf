import Mathlib.Data.List.Forall2
import Clipboard.Proofs.Session.Picking
import Clipboard.Proofs.Settings.Values
import Clipboard.Proofs.Text.Decimal
import Clipboard.Proofs.Text.Spelling

/-!
# What variables can spell

A backend is spelt by one of a few words, in small letters or capitals and with nothing around it.
A number is spelt by digits, with a plus sign before them or without and with white space around
them, as long as it fits the word that it is kept in.  A variable whose octets are no text is as
good as unset.

* `Choice.read_eq_ok_iff`, `Settings.readNumber_eq_ok_iff`: what is read of a text;
* `Setting.ofVariable?_eq_some_iff`: what the text of a variable spells;
* `Settings.ofEnvironment_decides`: which environments have settings and what these are, and which
  variable is in the way in any other.
-/

namespace Clipboard

namespace Choice

/-- A character, and itself or the small letter for a capital of ASCII. -/
def SameLetter (c small : Char) : Prop :=
  c = small ∨ 'A' ≤ c ∧ c ≤ 'Z' ∧ small.toNat = c.toNat + 32

/-- A text is a word in which some letters may be capitals. -/
def Alike (text word : String) : Prop := List.Forall₂ SameLetter text.toList word.toList

/-- There are no capitals in a word. -/
def InSmall (word : List Char) : Prop := ∀ c ∈ word, ¬ ('A' ≤ c ∧ c ≤ 'Z')

-- Looking at the letters of the word, not at all letters that there are.
instance (word : List Char) : Decidable (InSmall word) :=
  List.decidableBAll (fun c => ¬ ('A' ≤ c ∧ c ≤ 'Z')) word

theorem toNat_toLower {c : Char} (h : 'A' ≤ c ∧ c ≤ 'Z') : c.toLower.toNat = c.toNat + 32 := by
  have hle : c.val.toNat ≤ 90 := h.2
  unfold Char.toLower
  rw [dif_pos ⟨h.1, h.2⟩]
  show (c.val + 32).toNat = c.val.toNat + 32
  rw [UInt32.toNat_add]
  show (c.val.toNat + 32) % 4294967296 = _
  omega

theorem toLower_eq_iff {c small : Char} (hsmall : ¬ ('A' ≤ small ∧ small ≤ 'Z')) :
    c.toLower = small ↔ SameLetter c small := by
  by_cases hc : 'A' ≤ c ∧ c ≤ 'Z'
  · rw [← Char.toNat_inj, toNat_toLower hc]
    constructor
    · exact fun h => .inr ⟨hc.1, hc.2, h.symm⟩
    · rintro (rfl | ⟨-, -, h⟩)
      · exact absurd hc hsmall
      · exact h.symm
  · have hsame : c.toLower = c := dif_neg hc
    rw [hsame]
    constructor
    · exact .inl
    · rintro (h | ⟨hA, hZ, -⟩)
      · exact h
      · exact absurd ⟨hA, hZ⟩ hc

theorem map_toLower_eq_iff {text word : List Char} (hword : InSmall word) :
    text.map Char.toLower = word ↔ List.Forall₂ SameLetter text word := by
  induction text generalizing word with
  | nil =>
      rw [List.forall₂_nil_left_iff]
      exact eq_comm
  | cons c rest ih =>
      cases word with
      | nil => simp
      | cons small word =>
          obtain ⟨hsmall, hword⟩ := List.forall_mem_cons.mp hword
          rw [List.map_cons, List.cons.injEq, List.forall₂_cons, toLower_eq_iff hsmall, ih hword]

theorem small_eq_iff {text word : String} (hword : InSmall word.toList) :
    small text = word ↔ Alike text word := by
  rw [Alike, ← map_toLower_eq_iff hword, small, ← String.toList_inj, String.toList_ofList]

/-- The words for a choice, in small letters. -/
def words : Choice → List String
  | auto => ["auto"]
  | x11 => ["x11"]
  | xclip => ["xclip"]
  | wlClipboard => ["wl-clipboard", "wayland"]
  | windows => ["windows", "win32"]
  | memory => ["memory"]

theorem mem_spellings_iff {word : String} {c : Choice} :
    (word, c) ∈ spellings ↔ word ∈ c.words := by
  cases c <;> simp [spellings, words]

theorem inSmall_of_mem {word : String} {c : Choice} (h : (word, c) ∈ spellings) :
    InSmall word.toList := by
  have hall : ∀ p ∈ spellings, InSmall p.1.toList := by decide
  exact hall _ h

/-- No word spells two choices. -/
theorem lookup_of_mem {word : String} {c : Choice} (h : (word, c) ∈ spellings) :
    spellings.lookup word = some c := by
  have hall : ∀ p ∈ spellings, spellings.lookup p.1 = some p.2 := by decide
  exact hall _ h

/-- A choice is read from each of its words, with capitals or without. -/
theorem read_eq_ok_iff {text : String} {c : Choice} :
    read text = .ok c ↔ ∃ word ∈ c.words, Alike text word := by
  have hread : read text = .ok c ↔ spellings.lookup (small text) = some c := by
    unfold read
    cases spellings.lookup (small text) <;> simp
  rw [hread]
  constructor
  · intro hlookup
    obtain ⟨before, after, hsplit, -⟩ := List.lookup_eq_some_iff.mp hlookup
    have hmem : (small text, c) ∈ spellings := by rw [hsplit]; simp
    exact ⟨small text, mem_spellings_iff.mp hmem, (small_eq_iff (inSmall_of_mem hmem)).mp rfl⟩
  · rintro ⟨word, hword, halike⟩
    have hmem := mem_spellings_iff.mpr hword
    rw [(small_eq_iff (inSmall_of_mem hmem)).mpr halike]
    exact lookup_of_mem hmem

end Choice

namespace Setting

variable {env : Environment} {s : Setting} {text : String} {v : Value}

/-- A text is a number with white space around it. -/
def Numeral (text : String) (n : Nat) : Prop :=
  ∃ left middle right, text.toList = left ++ middle ++ right ∧
    (∀ c ∈ left ++ right, Blank.isBlank c = true) ∧ Decimal.Writes middle n

/-- The text of a variable spells a value of its setting. -/
def Spells : Setting → String → Value → Prop
  | backend, text, v => ∃ c : Choice, (∃ word ∈ c.words, Choice.Alike text word) ∧ v = .choice c
  | attempts, text, v => ∃ n, Numeral text n ∧ n < 2 ^ 32 ∧ v = .count n
  | retryDelay, text, v => ∃ n, Numeral text n ∧ n < 2 ^ 64 ∧ v = .pause (.ofMillis n)
  | readTimeout, text, v => ∃ n, Numeral text n ∧ n < 2 ^ 64 ∧ v = .pause (.ofMillis n)

/-- The variable of a setting is set to a text, in UTF-8. -/
def Holds (env : Environment) (s : Setting) (text : String) : Prop :=
  ∃ bytes, env.get? s.variableName = some bytes ∧ Encoding.utf8.Spells text.toList bytes

/-- The variable of a setting is unset, or no text, or spells a value. -/
def Acceptable (env : Environment) (s : Setting) : Prop :=
  ∀ text, s.Holds env text → ∃ v, s.Spells text v

end Setting

namespace Settings

/-- A number is read within its bound. -/
theorem readNumber_eq_ok_iff {bound n : Nat} {text : String} :
    readNumber bound text = .ok n ↔ Setting.Numeral text n ∧ n ≤ bound := by
  have hread : readNumber bound text = .ok n ↔
      Decimal.read bound (Blank.trimChars text.toList) = .ok n := by
    unfold readNumber
    cases Decimal.read bound (Blank.trimChars text.toList) <;> simp [Except.mapError]
  rw [hread, Decimal.read_eq_ok_iff, Blank.writes_trimChars_iff, Setting.Numeral]

end Settings

namespace Setting

variable {env : Environment} {s : Setting} {text : String} {v : Value}

/-- A text that is read as a number is one, below what comes after the bound. -/
theorem map_readNumber_eq_some_iff {bound : Nat} {f : Nat → Value} :
    (Settings.readNumber bound text).toOption.map f = some v ↔
      ∃ n, Numeral text n ∧ n < bound + 1 ∧ v = f n := by
  simp only [Option.map_eq_some_iff, except_toOption_eq_some, Settings.readNumber_eq_ok_iff,
    Nat.lt_succ_iff, and_assoc, @eq_comm _ v]

/-- A variable is read for what its text spells. -/
theorem ofVariable?_eq_some_iff : s.ofVariable? text = some v ↔ s.Spells text v := by
  cases s with
  | backend =>
      simp only [ofVariable?, Spells, Option.map_eq_some_iff, except_toOption_eq_some,
        Choice.read_eq_ok_iff, @eq_comm _ v]
  | attempts => exact map_readNumber_eq_some_iff
  | retryDelay | readTimeout => exact map_readNumber_eq_some_iff

theorem text?_eq_some_iff : env.text? s.variableName = some text ↔ s.Holds env text := by
  unfold Environment.text? Holds
  cases hget : env.get? s.variableName with
  | none => simp
  | some bytes =>
      simp only [Option.map_eq_some_iff, except_toOption_eq_some, Utf8.decode_eq_ok_iff,
        Option.some.injEq, exists_eq_left', Encoding.spells_utf8]
      constructor
      · rintro ⟨chars, hbytes, rfl⟩
        rw [String.toList_ofList]
        exact hbytes
      · exact fun hbytes => ⟨text.toList, hbytes, String.ofList_toList⟩

/-- A variable is acceptable if there is a value of its setting in the environment. -/
theorem acceptable_iff : s.Acceptable env ↔ ∃ v, Settings.inEnvironment? env s = some v := by
  unfold Acceptable Settings.inEnvironment?
  simp only [← text?_eq_some_iff, ← ofVariable?_eq_some_iff]
  cases env.text? s.variableName with
  | none => simp
  | some text => simp

end Setting

namespace Settings

section

variable {α : Type} {env : Environment} {s : Setting} {read : String → Except String α}
  {f : α → Setting.Value} (hread : ∀ text, s.ofVariable? text = (read text).toOption.map f)

include hread

theorem acceptable_of_given {o : Option α} (h : given env s read = .ok o) : s.Acceptable env :=
  Setting.acceptable_iff.mpr ⟨_, inEnvironment?_of_given hread h⟩

/-- A variable that cannot be read is reported with its text. -/
theorem fault_of_given {fault : Misconfigured} (h : given env s read = .error fault) :
    fault.setting = s ∧ s.Holds env fault.value ∧ ¬ s.Acceptable env := by
  unfold given at h
  cases htext : env.text? s.variableName with
  | none => rw [htext] at h; cases h
  | some text =>
      rw [htext] at h
      dsimp only at h
      cases hvalue : read text with
      | ok a => rw [hvalue] at h; cases h
      | error reason =>
          rw [hvalue] at h
          cases h
          have hholds : s.Holds env text := Setting.text?_eq_some_iff.mp htext
          refine ⟨rfl, hholds, fun hacceptable => ?_⟩
          obtain ⟨v, hv⟩ := hacceptable text hholds
          rw [← Setting.ofVariable?_eq_some_iff, hread, hvalue] at hv
          cases hv

end

/-- The first variable that cannot be read is the one that is reported. -/
theorem firstOf_of_ofEnvironment {env : Environment} {fault : Misconfigured}
    (h : ofEnvironment env = .error fault) :
    FirstOf Setting.all (fun s => ¬ s.Acceptable env) fault.setting ∧
      fault.setting.Holds env fault.value := by
  unfold ofEnvironment at h
  rcases except_bind_eq_error.mp h with h | ⟨backend, hb, h⟩
  · obtain ⟨hs, hholds, hnot⟩ := fault_of_given (fun _ => rfl) h
    rw [hs]
    exact ⟨⟨[], _, rfl, hnot, nofun⟩, hholds⟩
  have hb := acceptable_of_given (fun _ => rfl) hb
  rcases except_bind_eq_error.mp h with h | ⟨attempts, hn, h⟩
  · obtain ⟨hs, hholds, hnot⟩ := fault_of_given (fun _ => rfl) h
    rw [hs]
    exact ⟨⟨[.backend], _, rfl, hnot, by simpa using hb⟩, hholds⟩
  have hn := acceptable_of_given (fun _ => rfl) hn
  rcases except_bind_eq_error.mp h with h | ⟨retryDelay, hd, h⟩
  · obtain ⟨hs, hholds, hnot⟩ := fault_of_given (fun _ => rfl) h
    rw [hs]
    exact ⟨⟨[.backend, .attempts], _, rfl, hnot, by simp [hb, hn]⟩, hholds⟩
  have hd := acceptable_of_given (fun _ => rfl) hd
  rcases except_bind_eq_error.mp h with h | ⟨readTimeout, -, h⟩
  · obtain ⟨hs, hholds, hnot⟩ := fault_of_given (fun _ => rfl) h
    rw [hs]
    exact ⟨⟨[.backend, .attempts, .retryDelay], _, rfl, hnot, by simp [hb, hn, hd]⟩, hholds⟩
  · cases h

/-- **Settings of an environment.**  An environment has settings exactly if each variable that is
set to a text is acceptable.  Each setting is then what the text of its own variable spells, and
nothing else is spelt by it, or else as usual; and no pause is longer than usual.  In any other
environment the first variable that is not acceptable is reported, with its text as it stands. -/
theorem ofEnvironment_decides (env : Environment) :
    ((∃ a, ofEnvironment env = .ok a) ↔ ∀ s : Setting, s.Acceptable env) ∧
    match ofEnvironment env with
    | .ok a =>
      (∀ s : Setting, ∀ text, s.Holds env text → ∀ v, s.Spells text v ↔ v = a.value s) ∧
      (∀ s : Setting, (∀ text, ¬ s.Holds env text) → a.value s = usual s) ∧
      a.policy.longest = usualLongest
    | .error fault =>
      FirstOf Setting.all (fun s => ¬ s.Acceptable env) fault.setting ∧
        fault.setting.Holds env fault.value := by
  constructor
  · simp only [Setting.acceptable_iff]
    constructor
    · rintro ⟨a, h⟩ s
      exact ⟨_, value_of_ofEnvironment h s⟩
    · exact exists_ofEnvironment
  · cases h : ofEnvironment env with
    | error fault => exact firstOf_of_ofEnvironment h
    | ok a =>
        refine ⟨fun s text hholds v => ?_, fun s hnone => ?_, longest_of_ofEnvironment h⟩
        · have hvalue := value_of_ofEnvironment h s
          rw [inEnvironment?, Setting.text?_eq_some_iff.mpr hholds] at hvalue
          have hspelt : s.ofVariable? text = some (a.value s) := hvalue
          rw [← Setting.ofVariable?_eq_some_iff, hspelt, Option.some.injEq]
          exact eq_comm
        · have hunset : env.text? s.variableName = none :=
            Option.eq_none_iff_forall_ne_some.mpr fun text htext =>
              hnone text (Setting.text?_eq_some_iff.mp htext)
          have hvalue := value_of_ofEnvironment h s
          rw [inEnvironment?, hunset] at hvalue
          exact (Option.some.inj hvalue).symm

/-- Two variables have values that can be read, a third has octets that are no text, and the last
has a number that passes its bound. -/
example :
    let env := Environment.empty
      |>.set "CLIPD_BACKEND" (some (Utf8.encode "WayLand".toList))
      |>.set "CLIPD_ATTEMPTS" (some (Utf8.encode "\u3000+0007\n".toList))
      |>.set "CLIPD_RETRY_DELAY_MS" (some [0xff])
      |>.set "CLIPD_READ_TIMEOUT_MS" (some (Utf8.encode " 18446744073709551616".toList))
    ofEnvironment env = .error
      ⟨.readTimeout, " 18446744073709551616", "number too large to fit in target type"⟩ := by
  decide

end Settings

end Clipboard
