import Clipboard.Proofs.Helper.Keeping
import Clipboard.Proofs.Helper.Lines
import Clipboard.Proofs.Helper.Unreachable
import Clipboard.Proofs.Session.Picking
import Clipboard.Proofs.Session.Verdicts

/-!
# Text that a tool pastes

Reading text over a helper tool takes two runs of the program that pastes: one lists the names
on offer, and one pastes the content under the most preferred name of text among them.  Either
may not be made at all, or fail, and a tool that fails says nothing if there is nothing to
paste, or that it cannot reach its display.

* `given_failed_iff`, `given_nothing_iff`, `given_octets_iff`: what a single run gives;
* `getText_eq`: the text, by what the two runs give;
* `text_pasted`: when the clipboard is out of reach, when it holds no text, and what the text is
  otherwise.
-/

namespace Clipboard

open Action Backend

variable {σ τ : Type}

/-- A run after which the clipboard counts as out of reach: it could not be made, or it failed
and its errors, in small letters, hold one of the phrases of a tool without a display. -/
def Lost (lower : List Char → List Char) : Outcome SpawnFault Completion → Prop
  | .done c => c.ending.isSuccess = false ∧
      ∃ phrase ∈ unreachablePhrases, phrase.toList <:+: lower (Utf8.decodeLossy c.errors)
  | .failed _ => True
  | .unwound => False

/-- A run that fails. -/
def Fails (run : Outcome SpawnFault Completion) : Prop :=
  ∃ c, run = .done c ∧ c.ending.isSuccess = false

/-- A run that succeeds, and what it writes. -/
def Writes (run : Outcome SpawnFault Completion) (output : Octets) : Prop :=
  ∃ c, run = .done c ∧ c.ending.isSuccess = true ∧ c.output = output

/-- A format whose name is a line of what a run lists, without the white space around it. -/
def Listed (lists : Outcome SpawnFault Completion) (f : Format) : Prop :=
  ∃ output, Writes lists output ∧
    f.id.display.toList ∈ ((Utf8.decodeLossy output).splitOn '\n').map Blank.trimChars

/-- Runs that tell the same: they both succeed and write the same, or both fail with the same
errors, or come to the same altogether. -/
inductive SameTold : Outcome SpawnFault Completion → Outcome SpawnFault Completion → Prop
  | succeeded {c c' : Completion} (h : c.ending.isSuccess = true)
      (h' : c'.ending.isSuccess = true) (houtput : c.output = c'.output) :
      SameTold (.done c) (.done c')
  | failed {c c' : Completion} (h : c.ending.isSuccess = false)
      (h' : c'.ending.isSuccess = false) (herrors : c.errors = c'.errors) :
      SameTold (.done c) (.done c')
  | same (run : Outcome SpawnFault Completion) : SameTold run run

namespace Helper

variable {h : Helper} {run run' : Outcome SpawnFault Completion}

/-! ## A single run -/

theorem pasted_of_success {c : Completion} (hc : c.ending.isSuccess = true) :
    h.pasted c = .ok (some c.output) := if_pos hc

theorem pasted_of_failure {c : Completion} (hc : c.ending.isSuccess = false) :
    h.pasted c = if saysUnreachable c.errors then
      .error (.unavailable (h.paste ++ ": " ++
        String.ofList (Blank.trimChars (Utf8.decodeLossy c.errors))))
    else .ok none := if_neg (by simp [hc])

section Small

variable {lower : List Char → List Char} (hlower : ∀ text, Lowered text (lower text))

include hlower in
/-- A run gives a failure if the clipboard counts as out of reach after it. -/
theorem given_failed_iff : (∃ e, h.given run = .failed e) ↔ Lost lower run := by
  rcases run with c | fault | _
  · rw [Lost, given]
    cases hc : c.ending.isSuccess with
    | true => simp [pasted_of_success hc, Outcome.ofExcept]
    | false =>
        rw [pasted_of_failure hc, ← saysUnreachable_iff (hlower _)]
        cases saysUnreachable c.errors <;> simp [Outcome.ofExcept]
  · simp [given, Lost]
  · simp [given, Lost]

include hlower in
/-- It gives nothing if it fails for any other reason. -/
theorem given_nothing_iff : h.given run = .done none ↔ Fails run ∧ ¬ Lost lower run := by
  rcases run with c | fault | _
  · rw [Lost, given]
    cases hc : c.ending.isSuccess with
    | true => simp [pasted_of_success hc, Outcome.ofExcept, Fails, hc]
    | false =>
        rw [pasted_of_failure hc, ← saysUnreachable_iff (hlower _)]
        cases saysUnreachable c.errors <;> simp [Outcome.ofExcept, Fails, hc]
  · simp [given, Fails]
  · simp [given, Fails]

end Small

/-- It gives what it writes if it succeeds. -/
theorem given_octets_iff {output : Octets} :
    h.given run = .done (some output) ↔ Writes run output := by
  rcases run with c | fault | _
  · rw [given]
    cases hc : c.ending.isSuccess with
    | true => simp [pasted_of_success hc, Outcome.ofExcept, Writes, hc]
    | false =>
        rw [pasted_of_failure hc]
        cases saysUnreachable c.errors <;> simp [Outcome.ofExcept, Writes, hc]
  · simp [given, Writes]
  · simp [given, Writes]

theorem given_unwound_iff : h.given run = .unwound ↔ run = .unwound := by
  rcases run with c | fault | _
  · rw [given]
    cases h.pasted c <;> simp [Outcome.ofExcept]
  · simp [given]
  · simp [given]

/-- Runs that tell the same give the same. -/
theorem given_congr (hsame : SameTold run run') : h.given run = h.given run' := by
  cases hsame with
  | succeeded hc hc' houtput =>
      rw [given, given, pasted_of_success hc, pasted_of_success hc', houtput]
  | failed hc hc' herrors => rw [given, given, pasted_of_failure hc, pasted_of_failure hc', herrors]
  | same => rfl

/-! ## Both runs -/

/-- Whether a format of text is among the names that a listing gives. -/
def isListed (output : Option Octets) (f : Format) : Bool :=
  ((output.map namesIn).getD []).contains f.id.display

/-- The content that is read as text, by what the listing and the pasting under each name come
to. -/
def textOf (h : Helper) (lists : Outcome SpawnFault Completion)
    (pastes : String → Outcome SpawnFault Completion) : Outcome Failure (Option Payload) :=
  match h.given lists with
  | .done output =>
    match h.tool.textFormats.find? (isListed output) with
    | some f => (h.given (pastes f.id.display)).map fun output =>
        output.map fun bytes => ⟨bytes, f.encoding⟩
    | none => .done none
  | .failed e => .failed e
  | .unwound => .unwound

theorem target_textFormats (tool : Tool) :
    ∀ f ∈ tool.textFormats, target f.id = .ok f.id.display ∧ f.id.display ≠ "" := by
  cases tool <;> simp [Tool.textFormats, Format.readOnly, target, Format.Id.display]

/-- A tool picks the most preferred format of text that is listed. -/
theorem pick_text {l : Launcher σ} {s : σ} {output : Option Octets}
    (hgiven : h.given (l.start h.listing s).1 = .done output) :
    (h.backend l).pick h.tool.textFormats s =
      (.done (h.tool.textFormats.find? (isListed output)), (l.start h.listing s).2) := by
  have hlisted : h.listed l s =
      (.done ((output.map namesIn).getD []), (l.start h.listing s).2) := by
    rw [listed_eq, hgiven]
    rfl
  show pickByListing target (h.listed l) h.tool.textFormats s = _
  rw [pickByListing, bind_done hlisted,
    pickListed_eq fun f hf => (target_textFormats h.tool f hf).1]
  rfl

theorem pick_of_stops {l : Launcher σ} {s : σ} {r : Outcome Failure (Option Format)}
    (hgiven : (h.given (l.start h.listing s).1).Stops r) (formats : List Format) :
    (h.backend l).pick formats s = (r, (l.start h.listing s).2) :=
  bind_of_stops (h.listed_eq l s) (hgiven.map _) _

/-- Reading text is reading what the two runs give. -/
theorem getText_eq {l : Launcher σ} {p : Policy} {d : Host σ} (hfound : h.Found l d.world)
    (hknown : h.tool.KnownBy d.registry) :
    ((⟨h.backend l, p⟩ : Board σ).getText d).1 =
      spelling .unix (verdict .text (h.textOf (l.start h.listing d.world).1
        fun name => (l.start (h.pasting name) (l.start h.listing d.world).2).1)) := by
  obtain ⟨d₁, hnamed, hworld, -⟩ := resolve_eq (l := l) hknown .text
  rw [Board.getText, session_of_found hfound, ← hworld, textOf]
  cases hgiven : h.given (l.start h.listing d₁.world).1 with
  | done output =>
      have hpick := pick_text hgiven
      dsimp only
      cases hfind : h.tool.textFormats.find? (isListed output) with
      | none =>
          rw [hfind] at hpick
          rw [readText_of_read (read_of_none hnamed hpick)]
          rfl
      | some f =>
          have hname := (target_textFormats h.tool f (List.mem_of_find?_eq_some hfind)).1
          have hread := readOne_eq (h := h) hname l (l.start h.listing d₁.world).2
          rw [hfind] at hpick
          rw [readText_of_read (read_of_some hnamed hpick hread)]
          rfl
  | failed e =>
      have hpick := pick_of_stops (Outcome.stops_of_failed hgiven) h.tool.textFormats
      rw [readText_of_read (read_of_unpicked hnamed hpick (.failed e))]
      rfl
  | unwound =>
      have hpick := pick_of_stops (Outcome.stops_of_unwound hgiven) h.tool.textFormats
      rw [readText_of_read (read_of_unpicked hnamed hpick .unwound)]
      rfl

/-! ## What the runs decide -/

section Deciding

variable {lists : Outcome SpawnFault Completion} {pastes : String → Outcome SpawnFault Completion}
  {output : Option Octets} {f : Format}

theorem isListed_iff (hgiven : h.given lists = .done output) (hf : f ∈ h.tool.textFormats) :
    isListed output f = true ↔ Listed lists f := by
  have hname := (target_textFormats h.tool f hf).2
  have hwrites {written : Octets} : Writes lists written ↔ output = some written := by
    rw [← given_octets_iff (h := h), hgiven, Outcome.done.injEq]
  unfold isListed Listed
  rw [List.contains_iff_mem]
  constructor
  · intro hmem
    rcases output with _ | written
    · cases hmem
    · exact ⟨written, hwrites.mpr rfl, (mem_namesIn_iff.mp hmem).2⟩
  · rintro ⟨written, hwritten, hmem⟩
    rw [hwrites.mp hwritten]
    exact mem_namesIn_iff.mpr ⟨hname, hmem⟩

/-- If a target is chosen, the run that pastes it decides. -/
theorem textOf_of_chosen (hf : FirstOf h.tool.textFormats (Listed lists) f) :
    h.textOf lists pastes = (h.given (pastes f.id.display)).map fun output =>
      output.map fun bytes => ⟨bytes, f.encoding⟩ := by
  obtain ⟨written, hwritten, -⟩ : Listed lists f := by
    obtain ⟨-, -, -, hlisted, -⟩ := hf
    exact hlisted
  have hgiven : h.given lists = .done (some written) := given_octets_iff.mpr hwritten
  have hfind : h.tool.textFormats.find? (isListed (some written)) = some f :=
    (find?_eq_some_iff_firstOf fun f hf => isListed_iff hgiven hf).mpr hf
  rw [textOf, hgiven]
  dsimp only
  rw [hfind]

/-- If none is listed, there is nothing to paste. -/
theorem textOf_of_unlisted (hgiven : h.given lists = .done output)
    (hnone : ∀ f ∈ h.tool.textFormats, ¬ Listed lists f) :
    h.textOf lists pastes = .done none := by
  have hfind : h.tool.textFormats.find? (isListed output) = none :=
    List.find?_eq_none.mpr fun f hf => mt (isListed_iff hgiven hf).mp (hnone f hf)
  rw [textOf, hgiven]
  dsimp only
  rw [hfind]

theorem textOf_of_stops {r : Outcome Failure (Option Payload)} (h' : (h.given lists).Stops r) :
    h.textOf lists pastes = r := by
  rw [textOf]
  cases hgiven : h.given lists with
  | done output => rw [hgiven] at h'; cases h'
  | failed e => rw [hgiven] at h'; cases h'; rfl
  | unwound => rw [hgiven] at h'; cases h'; rfl

/-- The listing stops the reading, or it lets a target be chosen, or there is none in it. -/
theorem listing_cases (h : Helper) (lists : Outcome SpawnFault Completion) :
    (∃ r : Outcome Failure (Option Payload), (h.given lists).Stops r) ∨
      (∃ f, FirstOf h.tool.textFormats (Listed lists) f) ∨
      ∃ output, h.given lists = .done output ∧ ∀ f ∈ h.tool.textFormats, ¬ Listed lists f := by
  rcases (h.given lists).done_or_stops with ⟨output, hgiven⟩ | hstops
  · cases hfind : h.tool.textFormats.find? (isListed output) with
    | some f =>
        have hf := (find?_eq_some_iff_firstOf fun f hf => isListed_iff hgiven hf).mp hfind
        exact .inr (.inl ⟨f, hf⟩)
    | none =>
        refine .inr (.inr ⟨output, hgiven, fun f hf hlisted => ?_⟩)
        exact List.find?_eq_none.mp hfind f hf ((isListed_iff hgiven hf).mpr hlisted)
  · exact .inl hstops

/-- There is text if a target is chosen and its reading succeeds. -/
theorem textOf_some_iff {payload : Payload} :
    h.textOf lists pastes = .done (some payload) ↔
      ∃ f output, FirstOf h.tool.textFormats (Listed lists) f ∧
        Writes (pastes f.id.display) output ∧ payload = ⟨output, f.encoding⟩ := by
  constructor
  · intro htext
    rcases h.listing_cases lists with ⟨r, hstops⟩ | ⟨f, hf⟩ | ⟨output, hgiven, hnone⟩
    · rw [textOf_of_stops hstops] at htext
      exact absurd htext (hstops.ne_done _)
    · rw [textOf_of_chosen hf] at htext
      obtain ⟨pasted, hpasted, htaken⟩ := Outcome.map_eq_done.mp htext
      obtain ⟨written, rfl, hpayload⟩ := Option.map_eq_some_iff.mp htaken
      exact ⟨f, written, hf, given_octets_iff.mp hpasted, hpayload.symm⟩
    · rw [textOf_of_unlisted hgiven hnone] at htext
      cases htext
  · rintro ⟨f, written, hf, hwrites, rfl⟩
    rw [textOf_of_chosen hf, given_octets_iff.mpr hwrites]
    rfl

/-- Only a run that unwinds unwinds the reading. -/
theorem textOf_ne_unwound (hlists : lists ≠ .unwound)
    (hreads : ∀ f, FirstOf h.tool.textFormats (Listed lists) f →
      pastes f.id.display ≠ .unwound) : h.textOf lists pastes ≠ .unwound := by
  intro htext
  rcases h.listing_cases lists with ⟨r, hstops⟩ | ⟨f, hf⟩ | ⟨output, hgiven, hnone⟩
  · rw [textOf_of_stops hstops] at htext
    exact hlists (given_unwound_iff.mp (htext ▸ hstops).eq_unwound)
  · rw [textOf_of_chosen hf] at htext
    exact hreads f hf (given_unwound_iff.mp (Outcome.map_eq_unwound.mp htext))
  · rw [textOf_of_unlisted hgiven hnone] at htext
    cases htext

section Small

variable {lower : List Char → List Char} (hlower : ∀ text, Lowered text (lower text))

include hlower

/-- The clipboard is out of reach if it is so after one of the runs that are made. -/
theorem textOf_failed_iff :
    (∃ e, h.textOf lists pastes = .failed e) ↔ Lost lower lists ∨
      ∃ f, FirstOf h.tool.textFormats (Listed lists) f ∧ Lost lower (pastes f.id.display) := by
  constructor
  · rintro ⟨e, htext⟩
    rcases h.listing_cases lists with ⟨r, hstops⟩ | ⟨f, hf⟩ | ⟨output, hgiven, hnone⟩
    · rw [textOf_of_stops hstops] at htext
      exact .inl ((given_failed_iff hlower).mp ⟨e, (htext ▸ hstops).eq_failed⟩)
    · rw [textOf_of_chosen hf] at htext
      have hgiven := Outcome.map_eq_failed.mp htext
      exact .inr ⟨f, hf, (given_failed_iff (h := h) hlower).mp ⟨e, hgiven⟩⟩
    · rw [textOf_of_unlisted hgiven hnone] at htext
      cases htext
  · rintro (hlost | ⟨f, hf, hlost⟩)
    · obtain ⟨e, hgiven⟩ := (given_failed_iff (h := h) hlower).mpr hlost
      exact ⟨e, textOf_of_stops (Outcome.stops_of_failed hgiven)⟩
    · obtain ⟨e, hgiven⟩ := (given_failed_iff (h := h) hlower).mpr hlost
      exact ⟨e, by rw [textOf_of_chosen hf, hgiven]; rfl⟩

/-- There is no text if the listing fails, no target of text is listed, or the reading fails. -/
theorem textOf_nothing_iff
    (hreached : ¬ (Lost lower lists ∨
      ∃ f, FirstOf h.tool.textFormats (Listed lists) f ∧ Lost lower (pastes f.id.display))) :
    h.textOf lists pastes = .done none ↔ Fails lists ∨
      ((∃ output, Writes lists output) ∧ ∀ f ∈ h.tool.textFormats, ¬ Listed lists f) ∨
      ∃ f, FirstOf h.tool.textFormats (Listed lists) f ∧ Fails (pastes f.id.display) := by
  obtain ⟨hlists, hreads⟩ := not_or.mp hreached
  constructor
  · intro htext
    rcases h.listing_cases lists with ⟨r, hstops⟩ | ⟨f, hf⟩ | ⟨output, hgiven, hnone⟩
    · rw [textOf_of_stops hstops] at htext
      exact absurd htext (hstops.ne_done none)
    · rw [textOf_of_chosen hf] at htext
      obtain ⟨output, hpasted, houtput⟩ := Outcome.map_eq_done.mp htext
      obtain rfl : output = none := Option.map_eq_none_iff.mp houtput
      exact .inr (.inr ⟨f, hf, ((given_nothing_iff (h := h) hlower).mp hpasted).1⟩)
    · rcases output with _ | written
      · exact .inl ((given_nothing_iff hlower).mp hgiven).1
      · exact .inr (.inl ⟨⟨written, given_octets_iff.mp hgiven⟩, hnone⟩)
  · rintro (hfails | ⟨⟨written, hwritten⟩, hnone⟩ | ⟨f, hf, hfails⟩)
    · -- a listing that fails lists nothing
      have hgiven : h.given lists = .done none := (given_nothing_iff hlower).mpr ⟨hfails, hlists⟩
      refine textOf_of_unlisted hgiven fun f hf hlisted => ?_
      have hnothing := (isListed_iff hgiven hf).mpr hlisted
      cases hnothing
    · exact textOf_of_unlisted (given_octets_iff.mpr hwritten) hnone
    · have hlost : ¬ Lost lower (pastes f.id.display) := fun hlost => hreads ⟨f, hf, hlost⟩
      have hgiven : h.given (pastes f.id.display) = .done none :=
        (given_nothing_iff hlower).mpr ⟨hfails, hlost⟩
      rw [textOf_of_chosen hf, hgiven]
      rfl

end Small

/-- Runs that tell the same have the same text read. -/
theorem textOf_congr {lists' : Outcome SpawnFault Completion}
    {pastes' : String → Outcome SpawnFault Completion} (hlists : SameTold lists lists')
    (hpastes : ∀ f, FirstOf h.tool.textFormats (Listed lists) f →
      SameTold (pastes f.id.display) (pastes' f.id.display)) :
    h.textOf lists pastes = h.textOf lists' pastes' := by
  have hsame : h.given lists = h.given lists' := given_congr hlists
  rw [textOf, textOf, ← hsame]
  cases hgiven : h.given lists with
  | failed e => rfl
  | unwound => rfl
  | done output =>
      dsimp only
      cases hfind : h.tool.textFormats.find? (isListed output) with
      | none => rfl
      | some f =>
          have hf := (find?_eq_some_iff_firstOf fun f hf => isListed_iff hgiven hf).mp hfind
          dsimp only
          rw [given_congr (hpastes f hf)]

end Deciding

end Helper

open Helper in
/-- **What becomes of text that a tool pastes.**  Over a tool that has been found, whatever the
run that lists and the run that reads come to, the clipboard is said not to have been reached
exactly when a run that is made cannot be made or fails with errors that tell of a display out of
reach.  Otherwise it is said to hold no text exactly when the listing fails, or no target of text
is among its trimmed lines, or the reading fails.  Otherwise the text is what the reading writes,
decoded in the encoding of the most preferred target that is listed.  What a run writes that
fails, and the errors of one that succeeds, make no difference. -/
theorem text_pasted {lower : List Char → List Char} (hlower : ∀ text, Lowered text (lower text))
    {h : Helper} {l : Launcher σ} {p : Policy} {d : Host σ} (hfound : h.Found l d.world)
    (hknown : h.tool.KnownBy d.registry) :
    let c : Board σ := ⟨h.backend l, p⟩
    let lists := (l.start h.listing d.world).1
    let reads (f : Format) := (l.start (h.pasting f.id.display) (l.start h.listing d.world).2).1
    let chosen := FirstOf h.tool.textFormats (Listed lists)
    let lost := Lost lower lists ∨ ∃ f, chosen f ∧ Lost lower (reads f)
    ((∃ tries reason, (c.getText d).1 = .failed (.acquireFailed tries reason)) ↔ lost) ∧
    (¬ lost → ((c.getText d).1 = .failed .noText ↔
      Fails lists ∨ ((∃ output, Writes lists output) ∧ ∀ f ∈ h.tool.textFormats, ¬ Listed lists f) ∨
        ∃ f, chosen f ∧ Fails (reads f))) ∧
    (lists ≠ .unwound → (∀ f, chosen f → reads f ≠ .unwound) → ¬ lost →
      (c.getText d).1 ≠ .failed .noText → ∃ f output, chosen f ∧ Writes (reads f) output ∧
        (c.getText d).1 =
          .ofExcept ((Payload.text ⟨output, f.encoding⟩ .unix).mapError .ofText)) ∧
    ∀ (l' : Launcher τ) (d' : Host τ), h.Found l' d'.world → h.tool.KnownBy d'.registry →
      SameTold lists (l'.start h.listing d'.world).1 →
      (∀ f, chosen f → SameTold (reads f)
        (l'.start (h.pasting f.id.display) (l'.start h.listing d'.world).2).1) →
      ((⟨h.backend l', p⟩ : Board τ).getText d').1 = (c.getText d).1 := by
  intro c lists reads chosen lost
  have htext : (c.getText d).1 = _ := getText_eq hfound hknown
  refine ⟨?reached, fun hreached => ?nothing, ?text, ?same⟩
  case reached => rw [htext, spelling_eq_acquireFailed, textOf_failed_iff hlower]
  case nothing => rw [htext, spelling_eq_noText, textOf_nothing_iff hlower hreached]
  case text =>
    intro hlists hreads hreached htold
    rw [htext] at htold ⊢
    cases hof : h.textOf (l.start h.listing d.world).1
        (fun name => (l.start (h.pasting name) (l.start h.listing d.world).2).1) with
    | failed e => exact absurd ((textOf_failed_iff hlower).mp ⟨e, hof⟩) hreached
    | unwound => exact absurd hof (textOf_ne_unwound hlists hreads)
    | done taken =>
        rcases taken with _ | payload
        · exact absurd (spelling_eq_noText.mpr hof) htold
        · obtain ⟨f, output, hf, hwrites, rfl⟩ := textOf_some_iff.mp hof
          exact ⟨f, output, hf, hwrites, rfl⟩
  case same =>
    intro l' d' hfound' hknown' hlists hreads
    have htext' : ((⟨h.backend l', p⟩ : Board τ).getText d').1 = _ := getText_eq hfound' hknown'
    have hsame : h.textOf lists
          (fun name => (l.start (h.pasting name) (l.start h.listing d.world).2).1) =
        h.textOf (l'.start h.listing d'.world).1
          (fun name => (l'.start (h.pasting name) (l'.start h.listing d'.world).2).1) :=
      textOf_congr hlists hreads
    rw [htext, htext', hsame]

/-- A program that lists and pastes in two runs that end as they may. -/
def Launcher.ending (listing pasting : Completion) : Launcher Unit where
  finds _ _ := true
  run i := fun s =>
    (.done (if i.arguments = Tool.xclip.listArguments then listing else pasting), s)

/-- A tool that it is the program of. -/
def Helper.overEnding : Helper := ⟨.xclip, "xclip", "xclip", some [0x3A, 0x30]⟩

open Helper in
/-- A single target of text is listed, and its reading is refused for want of a display, fails
otherwise, or succeeds.  A tool that complains of its display in a run that succeeds has done its
work. -/
theorem text_pasted_latin1 :
    let octets (text : String) : Octets := Utf8.encode text.toList
    let listing : Completion := { ending := .exited 0, output := octets "TARGETS\r\n STRING\n" }
    let refused : Completion := { ending := .exited 1, errors := octets "Can't Open Display: :0" }
    let empty : Completion := { ending := .exited 1, output := [0x61], errors := [0xFF] }
    let taken : Completion := { ending := .exited 0, output := [0xE9] }
    let board (pasting : Completion) : Board Unit :=
      ⟨overEnding.backend (.ending listing pasting), {}⟩
    let text (pasting : Completion) := ((board pasting).getText ⟨(), {}⟩).1
    (∃ tries reason, text refused = .failed (.acquireFailed tries reason)) ∧
      text empty = .failed .noText ∧ text taken = .done "é" ∧
      text { taken with errors := refused.errors } = text taken := by
  intro octets listing refused empty taken board text
  have hfound (pasting : Completion) : overEnding.Found (.ending listing pasting) () :=
    ⟨rfl, rfl, rfl⟩
  have hknown : overEnding.tool.KnownBy {} := fun _ _ hfind => by cases hfind
  have hchosen {f : Format} : FirstOf overEnding.tool.textFormats (Listed (.done listing)) f ↔
      f = .readOnly (.named "STRING") .latin1 := by
    have hgiven : overEnding.given (.done listing) = .done (some listing.output) := rfl
    have hfind : overEnding.tool.textFormats.find? (isListed (some listing.output)) =
        some (.readOnly (.named "STRING") .latin1) := by decide +kernel
    rw [← find?_eq_some_iff_firstOf fun f hf => isListed_iff hgiven hf, hfind, Option.some.injEq]
    exact eq_comm
  have hlists : ¬ Lost smallLetters (.done listing) := fun hlost => nomatch hlost.1
  have hreads (pasting : Completion) (f : Format)
      (hf : FirstOf overEnding.tool.textFormats (Listed (.done listing)) f) :
      ((Launcher.ending listing pasting).start (overEnding.pasting f.id.display) ()).1 =
        .done pasting := by
    obtain rfl := hchosen.mp hf
    rfl
  have told (pasting : Completion) :=
    @text_pasted Unit Unit _ lowered_smallLetters overEnding _ {} ⟨(), {}⟩ (hfound pasting) hknown
  refine ⟨?refused, ?empty, ?taken, ?noisy⟩
  case refused =>
    obtain ⟨hreached, -⟩ := told refused
    refine hreached.mpr (.inr ⟨_, hchosen.mpr rfl, rfl, "can't open display", by decide, ?_⟩)
    exact occurs_iff.mp (by decide +kernel)
  case empty =>
    have hsilent : ¬ Lost smallLetters (.done empty) := by
      rintro ⟨-, phrase, hphrase, hsaid⟩
      have hnone : ∀ phrase ∈ unreachablePhrases,
        occurs phrase.toList (smallLetters (Utf8.decodeLossy empty.errors)) = false := by
        decide +kernel
      exact Bool.false_ne_true ((hnone phrase hphrase).symm.trans (occurs_iff.mpr hsaid))
    obtain ⟨-, hnothing, -⟩ := told empty
    refine (hnothing ?_).mpr (.inr (.inr ⟨_, hchosen.mpr rfl, empty, rfl, rfl⟩))
    rintro (hlost | ⟨f, hf, hlost⟩)
    · exact hlists hlost
    · exact hsilent ((hreads empty f hf).subst hlost)
  case taken =>
    obtain ⟨-, -, htext, -⟩ := told taken
    have hreached (f : Format)
        (hf : FirstOf overEnding.tool.textFormats (Listed (.done listing)) f) :
        ¬ Lost smallLetters ((Launcher.ending listing taken).start
          (overEnding.pasting f.id.display) ()).1 ∧
        ((Launcher.ending listing taken).start (overEnding.pasting f.id.display) ()).1 ≠
          .unwound := by
      rw [hreads taken f hf]
      exact ⟨fun hlost => (nomatch hlost.1), nofun⟩
    obtain ⟨f, output, hf, ⟨c, hc, -, rfl⟩, htold⟩ :=
      htext nofun (fun f hf => (hreached f hf).2)
        (not_or.mpr ⟨hlists, fun ⟨f, hf, hlost⟩ => (hreached f hf).1 hlost⟩) (by decide +kernel)
    obtain rfl := hchosen.mp hf
    cases hc
    exact htold
  case noisy =>
    obtain ⟨-, -, -, hsame⟩ := told taken
    refine hsame _ _ (hfound _) hknown (.same _) fun f hf => ?_
    obtain rfl := hchosen.mp hf
    exact .succeeded rfl rfl rfl

end Clipboard
