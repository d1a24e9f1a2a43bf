import Clipboard.Duration
import Mathlib.Algebra.GroupWithZero.Nat
import Mathlib.Logic.Function.Basic

/-!
# Durations in words

A duration fits into two words, one of 64 bits for its whole seconds and one of 32 bits for the
nanoseconds beyond them.  Arithmetic in words carries whole seconds from the one to the other, and
fails where the seconds do not fit.  What it comes to is told by the nanoseconds in all, on which
`Duration` calculates.

* `words_bijective`: every two words of this kind are one duration;
* `carry?_of_le`, `carry?_of_lt`: what carrying comes to, and when it fails;
* `words_scale`, `words_min`: a multiple and the shorter of two durations;
* `sumWords?_eq`: a sum that is kept in words fails only where the whole sum is no duration,
  whatever is carried on the way.
-/

namespace Clipboard.Duration

/-- How many values a word of 64 bits has. -/
def wordSize : Nat := 18446744073709551616

/-- The sum of two words, if it is one. -/
def addWords? (a b : UInt64) : Option UInt64 :=
  if a.toNat + b.toNat < wordSize then some (a + b) else none

/-- The product of two words, if it is one. -/
def mulWords? (a b : UInt64) : Option UInt64 :=
  if a.toNat * b.toNat < wordSize then some (a * b) else none

/-- Whole seconds in one word, and in the other nanoseconds that make no whole second. -/
structure Words where
  seconds : UInt64
  nanos : UInt32
  nanos_lt : nanos.toNat < nanosPerSecond
  deriving DecidableEq

section

variable {a b : UInt64}

theorem addWords?_of_lt (h : a.toNat + b.toNat < wordSize) :
    ∃ c, addWords? a b = some c ∧ c.toNat = a.toNat + b.toNat := by
  refine ⟨a + b, if_pos h, ?_⟩
  rw [UInt64.toNat_add]
  exact Nat.mod_eq_of_lt h

theorem addWords?_of_le (h : wordSize ≤ a.toNat + b.toNat) : addWords? a b = none :=
  if_neg (Nat.not_lt.mpr h)

theorem mulWords?_of_lt (h : a.toNat * b.toNat < wordSize) :
    ∃ c, mulWords? a b = some c ∧ c.toNat = a.toNat * b.toNat := by
  refine ⟨a * b, if_pos h, ?_⟩
  rw [UInt64.toNat_mul]
  exact Nat.mod_eq_of_lt h

theorem mulWords?_of_le (h : wordSize ≤ a.toNat * b.toNat) : mulWords? a b = none :=
  if_neg (Nat.not_lt.mpr h)

end

namespace Words

variable {v w : Words}

/-- The nanoseconds in all. -/
def total (w : Words) : Nat := w.seconds.toNat * nanosPerSecond + w.nanos.toNat

theorem total_le (w : Words) : w.total ≤ longestNanos := by
  have hseconds : w.seconds.toNat < wordSize := w.seconds.toNat_lt
  have hnanos := w.nanos_lt
  simp only [total, longestNanos, nanosPerSecond, wordSize] at *
  omega

/-- Words are told apart by their nanoseconds. -/
theorem ext_total (h : v.total = w.total) : v = w := by
  have hv := v.nanos_lt
  have hw := w.nanos_lt
  simp only [total, nanosPerSecond] at h hv hw
  have hseconds : v.seconds = w.seconds := UInt64.toNat_inj.mp (by omega)
  have hnanos : v.nanos = w.nanos := UInt32.toNat_inj.mp (by omega)
  cases v
  cases w
  cases hseconds
  cases hnanos
  rfl

/-- Seconds, and of some nanoseconds those that make no whole second. -/
def beyond (seconds nanos : UInt64) : Words where
  seconds := seconds
  nanos := (nanos % 1000000000).toUInt32
  nanos_lt := by
    rw [UInt64.toNat_toUInt32, UInt64.toNat_mod]
    exact Nat.lt_of_le_of_lt (Nat.mod_le _ _) (Nat.mod_lt _ (by decide))

theorem total_beyond (seconds nanos : UInt64) :
    (beyond seconds nanos).total =
      seconds.toNat * nanosPerSecond + nanos.toNat % nanosPerSecond := by
  have hsmall : nanos.toNat % nanosPerSecond < 4294967296 :=
    Nat.lt_trans (Nat.mod_lt _ (by decide)) (by decide)
  have hword : (nanos % 1000000000).toUInt32.toNat = nanos.toNat % nanosPerSecond := by
    rw [UInt64.toNat_toUInt32, UInt64.toNat_mod]
    exact Nat.mod_eq_of_lt hsmall
  rw [total, beyond, hword]

/-- Seconds and nanoseconds with the whole seconds carried, if they fit. -/
def carry? (seconds nanos : UInt64) : Option Words :=
  (addWords? seconds (nanos / 1000000000)).map fun seconds => beyond seconds nanos

section

variable {seconds nanos : UInt64}

theorem toNat_wholeSeconds : (nanos / 1000000000).toNat = nanos.toNat / nanosPerSecond :=
  UInt64.toNat_div nanos 1000000000

/-- Carrying loses no nanosecond. -/
theorem carry?_of_le (h : seconds.toNat * nanosPerSecond + nanos.toNat ≤ longestNanos) :
    ∃ w, carry? seconds nanos = some w ∧
      w.total = seconds.toNat * nanosPerSecond + nanos.toNat := by
  have hfits : seconds.toNat + (nanos / 1000000000).toNat < wordSize := by
    rw [toNat_wholeSeconds]
    simp only [longestNanos, nanosPerSecond, wordSize] at *
    omega
  obtain ⟨all, hall, hsum⟩ := addWords?_of_lt hfits
  refine ⟨beyond all nanos, by rw [carry?, hall]; rfl, ?_⟩
  rw [total_beyond, hsum, toNat_wholeSeconds]
  simp only [nanosPerSecond]
  omega

/-- It fails only where there is no duration. -/
theorem carry?_of_lt (h : longestNanos < seconds.toNat * nanosPerSecond + nanos.toNat) :
    carry? seconds nanos = none := by
  have hover : wordSize ≤ seconds.toNat + (nanos / 1000000000).toNat := by
    rw [toNat_wholeSeconds]
    simp only [longestNanos, nanosPerSecond, wordSize] at *
    omega
  rw [carry?, addWords?_of_le hover]
  rfl

end

/-! ### Multiples -/

/-- The words so many times over, if the seconds fit.  The nanoseconds are multiplied in a word of
their own, which is wide enough. -/
def scale? (w : Words) (k : UInt32) : Option Words :=
  (mulWords? w.seconds k.toUInt64).bind fun seconds =>
    carry? seconds (w.nanos.toUInt64 * k.toUInt64)

/-- The most that two words hold. -/
def longest : Words := ⟨18446744073709551615, 999999999, by decide⟩

theorem total_longest : longest.total = longestNanos := by decide

/-- The words so many times over, or the most that there is. -/
def scale (w : Words) (k : UInt32) : Words := (w.scale? k).getD longest

theorem toNat_mul_nanos (w : Words) (k : UInt32) :
    (w.nanos.toUInt64 * k.toUInt64).toNat = w.nanos.toNat * k.toNat := by
  have hfits : w.nanos.toNat * k.toNat < nanosPerSecond * 4294967296 :=
    Nat.mul_lt_mul'' w.nanos_lt k.toNat_lt
  rw [UInt64.toNat_mul, UInt32.toNat_toUInt64, UInt32.toNat_toUInt64]
  exact Nat.mod_eq_of_lt (Nat.lt_trans hfits (by decide))

theorem total_mul (w : Words) (k : Nat) :
    w.total * k = w.seconds.toNat * k * nanosPerSecond + w.nanos.toNat * k := by
  rw [total, Nat.add_mul, Nat.mul_right_comm]

/-- A multiple has so many times the nanoseconds, up to the most that there is. -/
theorem total_scale (w : Words) (k : UInt32) :
    (w.scale k).total = Min.min (w.total * k.toNat) longestNanos := by
  have hproduct := w.total_mul k.toNat
  -- either product may not fit: that of the seconds, or the whole once seconds are carried
  rcases Nat.lt_or_ge (w.seconds.toNat * k.toUInt64.toNat) wordSize with hseconds | hseconds
  · obtain ⟨seconds, hmul, htimes⟩ := mulWords?_of_lt hseconds
    rw [UInt32.toNat_toUInt64] at htimes
    have hscale : w.scale? k = carry? seconds (w.nanos.toUInt64 * k.toUInt64) := by
      rw [scale?, hmul]
      rfl
    rw [← htimes, ← toNat_mul_nanos] at hproduct
    rcases Nat.lt_or_ge longestNanos (w.total * k.toNat) with hlt | hle
    · rw [scale, hscale, carry?_of_lt (hproduct ▸ hlt), Nat.min_eq_right (Nat.le_of_lt hlt),
        Option.getD_none, total_longest]
    · obtain ⟨all, hall, htotal⟩ := carry?_of_le (hproduct ▸ hle)
      rw [scale, hscale, hall, Option.getD_some, htotal, ← hproduct, Nat.min_eq_left hle]
  · have hlt : longestNanos < w.total * k.toNat := by
      rw [UInt32.toNat_toUInt64] at hseconds
      simp only [longestNanos, nanosPerSecond, wordSize] at *
      omega
    rw [scale, scale?, mulWords?_of_le hseconds, Nat.min_eq_right (Nat.le_of_lt hlt),
      Option.bind_none, Option.getD_none, total_longest]

/-! ### The shorter of two -/

/-- Fewer seconds, or as many and fewer nanoseconds beyond them. -/
def isBefore (v w : Words) : Bool :=
  v.seconds < w.seconds || (v.seconds = w.seconds && v.nanos < w.nanos)

/-- The first of two unless the second is before it. -/
def min (v w : Words) : Words := if w.isBefore v then w else v

theorem isBefore_iff : v.isBefore w = true ↔ v.total < w.total := by
  have hv := v.nanos_lt
  have hw := w.nanos_lt
  simp only [isBefore, Bool.or_eq_true, Bool.and_eq_true, decide_eq_true_eq, UInt64.lt_iff_toNat_lt,
    UInt32.lt_iff_toNat_lt, ← UInt64.toNat_inj, total, nanosPerSecond] at *
  omega

theorem total_min (v w : Words) : (v.min w).total = Min.min v.total w.total := by
  unfold min
  split
  next h => exact (Nat.min_eq_right (Nat.le_of_lt (isBefore_iff.mp h))).symm
  next h =>
    have hle : v.total ≤ w.total := Nat.not_lt.mp (mt isBefore_iff.mpr h)
    exact (Nat.min_eq_left hle).symm

end Words

/-! ### Sums -/

/-- A sum on the way: seconds, and nanoseconds that may make whole seconds. -/
structure Tally where
  seconds : UInt64 := 0
  nanos : UInt64 := 0

namespace Tally

/-- The nanoseconds in all. -/
def total (t : Tally) : Nat := t.seconds.toNat * nanosPerSecond + t.nanos.toNat

/-- The sum with one more.  Whole seconds are carried only where the nanoseconds do not fit. -/
def add? (t : Tally) (w : Words) : Option Tally :=
  (addWords? t.seconds w.seconds).bind fun seconds =>
    match addWords? t.nanos w.nanos.toUInt64 with
    | some nanos => some ⟨seconds, nanos⟩
    | none =>
      (Words.carry? seconds t.nanos).map fun c =>
        ⟨c.seconds, c.nanos.toUInt64 + w.nanos.toUInt64⟩

/-- There is room for the nanoseconds once the seconds are carried. -/
theorem total_carried (c w : Words) :
    (⟨c.seconds, c.nanos.toUInt64 + w.nanos.toUInt64⟩ : Tally).total =
      c.total + w.nanos.toNat := by
  have hroom : c.nanos.toNat + w.nanos.toNat < wordSize := by
    have hc := c.nanos_lt
    have hw := w.nanos_lt
    simp only [nanosPerSecond, wordSize] at *
    omega
  have hword : (c.nanos.toUInt64 + w.nanos.toUInt64).toNat = c.nanos.toNat + w.nanos.toNat := by
    rw [UInt64.toNat_add, UInt32.toNat_toUInt64, UInt32.toNat_toUInt64]
    exact Nat.mod_eq_of_lt hroom
  rw [total, hword, Words.total, Nat.add_assoc]

/-- A sum grows by what is added, and fails only where there is no duration. -/
theorem add?_spec (t : Tally) (w : Words) :
    (∃ t', t.add? w = some t' ∧ t'.total = t.total + w.total) ∨
      (t.add? w = none ∧ longestNanos < t.total + w.total) := by
  -- one case for each way through: seconds, then nanoseconds, then the carry
  rcases Nat.lt_or_ge (t.seconds.toNat + w.seconds.toNat) wordSize with hfits | hover
  · obtain ⟨seconds, hseconds, hsum⟩ := addWords?_of_lt hfits
    -- the nanoseconds of the term are all that is missing
    have htotal : t.total + w.total =
        seconds.toNat * nanosPerSecond + t.nanos.toNat + w.nanos.toNat := by
      simp only [total, Words.total, hsum, nanosPerSecond]
      omega
    rw [add?, hseconds, Option.bind_some, htotal]
    rcases Nat.lt_or_ge (t.nanos.toNat + w.nanos.toUInt64.toNat) wordSize with hroom | hfull
    · obtain ⟨nanos, hnanos, hsum'⟩ := addWords?_of_lt hroom
      rw [hnanos]
      left
      refine ⟨⟨seconds, nanos⟩, rfl, ?_⟩
      rw [total, hsum', UInt32.toNat_toUInt64, Nat.add_assoc]
    · rw [addWords?_of_le hfull]
      rcases Nat.lt_or_ge longestNanos (seconds.toNat * nanosPerSecond + t.nanos.toNat) with
        hlong | hle
      · right
        rw [Words.carry?_of_lt hlong]
        exact ⟨rfl, Nat.lt_of_lt_of_le hlong (Nat.le_add_right _ _)⟩
      · obtain ⟨c, hcarry, hsame⟩ := Words.carry?_of_le hle
        left
        rw [hcarry]
        exact ⟨_, rfl, by rw [total_carried, hsame]⟩
  · right
    refine ⟨by rw [add?, addWords?_of_le hover, Option.bind_none], ?_⟩
    simp only [total, Words.total, longestNanos, nanosPerSecond, wordSize] at *
    omega

/-- The same of any number of terms. -/
theorem addAll_spec (t : Tally) (terms : List Words) :
    (∃ t', terms.foldlM add? t = some t' ∧ t'.total = t.total + (terms.map Words.total).sum) ∨
      (terms.foldlM add? t = none ∧ longestNanos < t.total + (terms.map Words.total).sum) := by
  -- on the terms, for a sum that may have come to anything
  induction terms generalizing t with
  | nil => exact .inl ⟨t, rfl, by simp⟩
  | cons w rest ih =>
      rw [List.foldlM_cons, List.map_cons, List.sum_cons]
      rcases t.add?_spec w with ⟨t₁, hfirst, htotal⟩ | ⟨hfirst, hlong⟩
      · rw [hfirst, ← Nat.add_assoc, ← htotal]
        exact ih t₁
      · right
        rw [hfirst]
        refine ⟨rfl, ?_⟩
        omega

end Tally

/-- The sum of durations in words, if it is one.  Whole seconds that have not been carried on the
way are carried at the end. -/
def sumWords? (terms : List Words) : Option Words :=
  (terms.foldlM Tally.add? {}).bind fun t => Words.carry? t.seconds t.nanos

/-! ### Words and nanoseconds -/

/-- Durations are told apart by their nanoseconds. -/
theorem ext_nanos {d e : Duration} (h : d.nanos = e.nanos) : d = e := by
  cases d
  cases e
  cases h
  rfl

/-- A duration is made of its own nanoseconds alone. -/
theorem ofNanos?_eq_some_iff {n : Nat} {d : Duration} : ofNanos? n = some d ↔ d.nanos = n := by
  unfold ofNanos?
  constructor
  · intro h
    split at h
    next =>
      cases h
      rfl
    next => cases h
  · rintro rfl
    exact dif_pos d.nanos_le

theorem seconds_lt (d : Duration) : d.seconds < wordSize := by
  have hle := d.nanos_le
  simp only [seconds, longestNanos, nanosPerSecond, wordSize] at *
  omega

theorem toNat_subsecond (d : Duration) : (UInt32.ofNat d.subsecond).toNat = d.subsecond := by
  have hsmall : d.subsecond < nanosPerSecond := Nat.mod_lt _ (by decide)
  exact UInt32.toNat_ofNat_of_lt' (Nat.lt_trans hsmall (by decide))

/-- A duration in words. -/
def words (d : Duration) : Words where
  seconds := UInt64.ofNat d.seconds
  nanos := UInt32.ofNat d.subsecond
  nanos_lt := by
    rw [toNat_subsecond]
    exact Nat.mod_lt _ (by decide)

@[simp] theorem words_total (d : Duration) : d.words.total = d.nanos := by
  rw [Words.total, words, UInt64.toNat_ofNat_of_lt' d.seconds_lt, toNat_subsecond]
  exact Nat.div_add_mod' d.nanos nanosPerSecond

/-- Every two words are those of one duration. -/
theorem words_bijective : Function.Bijective words := by
  constructor
  · intro d e h
    exact ext_nanos (by rw [← words_total, h, words_total])
  · intro w
    exact ⟨⟨w.total, w.total_le⟩, Words.ext_total (words_total _)⟩

/-- A multiple of a duration may be calculated in words. -/
theorem words_scale (d : Duration) (k : UInt32) : d.words.scale k = (d.scale k.toNat).words := by
  apply Words.ext_total
  rw [Words.total_scale, words_total, words_total, scale_nanos]

/-- The shorter of two durations may be found in words. -/
theorem words_min (d e : Duration) : d.words.min e.words = (d.min e).words := by
  apply Words.ext_total
  rw [Words.total_min, words_total, words_total, words_total, min_nanos]

/-- A sum of durations may be kept in words: it fails if and only if the sum of all nanoseconds is
no duration. -/
theorem sumWords?_eq (durations : List Duration) :
    sumWords? (durations.map words) = (ofNanos? (durations.map nanos).sum).map words := by
  have hterms : (durations.map words).map Words.total = durations.map nanos := by
    rw [List.map_map]
    exact List.map_congr_left fun d _ => words_total d
  have hstart : ({} : Tally).total = 0 := rfl
  rw [sumWords?]
  rcases Tally.addAll_spec {} (durations.map words) with ⟨t, hsum, htotal⟩ | ⟨hnone, hlong⟩
  · rw [hterms, hstart, Nat.zero_add] at htotal
    rw [hsum, Option.bind_some, ← htotal]
    rcases Nat.lt_or_ge longestNanos t.total with hlong | hle
    · rw [Words.carry?_of_lt hlong, ofNanos?_eq_none_iff.mpr hlong]
      rfl
    · obtain ⟨w, hcarry, hw⟩ := Words.carry?_of_le hle
      have hduration : ofNanos? t.total = some ⟨t.total, hle⟩ := ofNanos?_eq_some_iff.mpr rfl
      rw [hcarry, hduration, Option.map_some]
      exact congrArg some (Words.ext_total (by rw [hw, words_total]; rfl))
  · rw [hterms, hstart, Nat.zero_add] at hlong
    rw [hnone, ofNanos?_eq_none_iff.mpr hlong]
    rfl

end Clipboard.Duration
