import Clipboard.Helper.Tool
import Clipboard.Proofs.Session.Access

/-!
# Runs of a helper tool

A clipboard of a helper tool is a few runs of its programs.  Each is made of words that have
to be passed to a program, which cannot be done if NUL stands in one of them.  Before and
after these runs a session does nothing that counts: it looks whether a display is named and
the programs are there, and has nothing to give up at its end.

* `run_eq_done`, `run_of_done`: a run of a program answers if its words can be passed and the
  program answers;
* `passable_of_copying`, `passable_arguments`: where a run that copies can be made, so can the
  others;
* `session_of_found`, `found_of_session`: a session is its body, where the tool can be found.
-/

namespace Clipboard.Helper

open Action

variable {σ α : Type} {h : Helper} {l : Launcher σ} {p : Policy}

/-! ## Words that can be passed -/

/-- The run that copies content under a name. -/
def copying (h : Helper) (name : String) (bytes : Octets) : Invocation :=
  h.invocation h.copy (h.tool.writeArguments name) bytes

/-- The run that lists the names on offer. -/
def listing (h : Helper) : Invocation := h.invocation h.paste h.tool.listArguments []

/-- The run that pastes the content under a name. -/
def pasting (h : Helper) (name : String) : Invocation :=
  h.invocation h.paste (h.tool.readArguments name) []

/-- The words of a run can be passed if each of them can. -/
theorem holdsNul_eq_false_iff {program : String} {arguments : List String} {input : Octets} :
    (h.invocation program arguments input).holdsNul = false ↔
      '\x00' ∉ program.toList ∧ (∀ word ∈ arguments, '\x00' ∉ word.toList) ∧
        ∀ value ∈ h.display, 0 ∉ value := by
  cases hdisplay : h.display with
  | none => simp [Invocation.holdsNul, invocation, hdisplay]
  | some value => simp [Invocation.holdsNul, invocation, hdisplay, and_assoc]

/-- The options of a tool have no NUL among them. -/
theorem passable_arguments (tool : Tool) {name : String} (hname : '\x00' ∉ name.toList) :
    (∀ word ∈ tool.readArguments name, '\x00' ∉ word.toList) ∧
      ∀ word ∈ tool.listArguments, '\x00' ∉ word.toList := by
  cases tool <;> simp [Tool.readArguments, Tool.listArguments, hname]

/-- The words of a run that copies can be passed only if a name and a display can. -/
theorem passable_of_copying {name : String} {bytes : Octets}
    (hnul : (h.copying name bytes).holdsNul = false) :
    '\x00' ∉ name.toList ∧ ∀ value ∈ h.display, 0 ∉ value := by
  obtain ⟨-, hwords, hdisplay⟩ := holdsNul_eq_false_iff.mp hnul
  refine ⟨hwords name ?_, hdisplay⟩
  cases h.tool <;> simp [Tool.writeArguments]

/-- A run of a program that answers is one whose words can be passed. -/
theorem run_eq_done {program : String} {arguments : List String} {input : Octets} {s s' : σ}
    {c : Completion} (hrun : h.run l program arguments input s = (.done c, s')) :
    (h.invocation program arguments input).holdsNul = false ∧
      l.run (h.invocation program arguments input) s = (.done c, s') := by
  have hstart := mapCause_eq_done hrun
  unfold Launcher.start at hstart
  split at hstart
  · cases hstart
  · next hnul => exact ⟨by simpa using hnul, hstart⟩

theorem run_of_done {program : String} {arguments : List String} {input : Octets} {s s' : σ}
    {c : Completion} (hnul : (h.invocation program arguments input).holdsNul = false)
    (hrun : l.run (h.invocation program arguments input) s = (.done c, s')) :
    h.run l program arguments input s = (.done c, s') := by
  apply mapCause_of_done
  rw [Launcher.start, if_neg (by simp [hnul])]
  exact hrun

/-! ## What a run comes to -/

/-- A program has been fed if it could be run, has taken in all and succeeded. -/
theorem feed_eq_done_iff {arguments : List String} {input : Octets} {s s' : σ} :
    h.feed l arguments input s = (.done (), s') ↔
      ∃ c, h.run l h.copy arguments input s = (.done c, s') ∧ c.broken = false ∧
        c.ending.isSuccess = true := by
  constructor
  · intro hfeed
    obtain ⟨c, s₁, hrun, hend⟩ := bind_eq_done hfeed
    by_cases hbroken : c.broken = true
    · rw [if_pos hbroken] at hend
      cases hend
    · by_cases hsuccess : c.ending.isSuccess = true
      · rw [if_neg hbroken, if_pos hsuccess] at hend
        cases hend
        exact ⟨c, hrun, by simpa using hbroken, hsuccess⟩
      · rw [if_neg hbroken, if_neg hsuccess] at hend
        cases hend
  · rintro ⟨c, hrun, hbroken, hsuccess⟩
    rw [feed, bind_done hrun, if_neg (by simp [hbroken]), if_pos hsuccess]
    rfl

/-- What a paste gives once its run has ended: octets, nothing, or a failure. -/
def given (h : Helper) : Outcome SpawnFault Completion → Outcome Failure (Option Octets)
  | .done c => .ofExcept (h.pasted c)
  | .failed fault => .failed (notSpawned h.paste fault)
  | .unwound => .unwound

theorem run_pasted (arguments : List String) (s : σ) :
    (h.run l h.paste arguments [] >>= fun c => Action.ofExcept (h.pasted c)) s =
      (h.given (l.start (h.invocation h.paste arguments []) s).1,
        (l.start (h.invocation h.paste arguments []) s).2) := by
  rw [bind_apply, run, mapCause_apply]
  rcases l.start (h.invocation h.paste arguments []) s with ⟨c | fault | _, t⟩ <;> rfl

/-- A listing comes to the names in what the run gives that lists. -/
theorem listed_eq (h : Helper) (l : Launcher σ) (s : σ) :
    h.listed l s =
      ((h.given (l.start h.listing s).1).map fun output => (output.map namesIn).getD [],
      (l.start h.listing s).2) := by
  have hmap : h.listed l = (fun output => (output.map namesIn).getD []) <$>
      (h.run l h.paste h.tool.listArguments [] >>= fun c => Action.ofExcept (h.pasted c)) := by
    rw [listed, ← bind_pure_comp, bind_assoc_apply]
    refine congrArg (_ >>= ·) (funext fun c => congrArg (_ >>= ·) (funext fun output => ?_))
    cases output <;> rfl
  rw [hmap, map_apply, run_pasted]
  rfl

/-- Reading a format comes to what the run gives that pastes it. -/
theorem readOne_eq {f : Format} {name : String} (hname : target f.id = .ok name)
    (l : Launcher σ) (s : σ) :
    h.readOne l f s = ((h.given (l.start (h.pasting name) s).1).map fun output =>
      output.map fun bytes => ⟨bytes, f.encoding⟩, (l.start (h.pasting name) s).2) := by
  have hmap : h.readOne l f s = ((fun output => output.map fun bytes => ⟨bytes, f.encoding⟩) <$>
      (h.run l h.paste (h.tool.readArguments name) [] >>= fun c =>
        Action.ofExcept (h.pasted c)) : Action σ Failure (Option Payload)) s := by
    rw [readOne, hname, bind_done (ofExcept_ok name s), ← bind_pure_comp, bind_assoc_apply]
  rw [hmap, map_apply, run_pasted]
  rfl

/-- A listing that succeeds gives the names in its output. -/
theorem listed_of_success {s s' : σ} {c : Completion}
    (hrun : h.run l h.paste h.tool.listArguments [] s = (.done c, s'))
    (hsuccess : c.ending.isSuccess = true) :
    h.listed l s = (.done (namesIn c.output), s') := by
  have hpasted : h.pasted c = .ok (some c.output) := if_pos hsuccess
  rw [listed, bind_done hrun, hpasted]
  rfl

/-- A paste that succeeds gives its output, as what the format has it. -/
theorem readOne_of_success {f : Format} {name : String} {s s' : σ} {c : Completion}
    (hname : target f.id = .ok name)
    (hrun : h.run l h.paste (h.tool.readArguments name) [] s = (.done c, s'))
    (hsuccess : c.ending.isSuccess = true) :
    h.readOne l f s = (.done (some ⟨c.output, f.encoding⟩), s') := by
  have hpasted : h.pasted c = .ok (some c.output) := if_pos hsuccess
  rw [readOne, hname, bind_done (ofExcept_ok name s), bind_done hrun, hpasted]
  rfl

/-! ## Sessions -/

/-- Whether the tool can be found: it is pointed at a display, and its programs are there. -/
def Found (h : Helper) (l : Launcher σ) (s : σ) : Prop :=
  h.display.isSome = true ∧ l.finds h.copy s = true ∧ l.finds h.paste s = true

/-- Access is gained at once if the tool can be found, and otherwise not at all.  Nothing is
changed by it. -/
theorem acquire_cases (h : Helper) (l : Launcher σ) (s : σ) :
    (h.Found l s ∧ h.acquire l s = (.done (), s)) ∨
      (¬ h.Found l s ∧ ∃ reason, h.acquire l s = (.failed (.unavailable reason), s)) := by
  unfold acquire Found
  cases hdisplay : h.display with
  | none => exact .inr ⟨by simp, _, rfl⟩
  | some value =>
      by_cases hcopy : l.finds h.copy s = true
      · have hlocated : locate l h.copy s = (.done (), s) := if_pos hcopy
        rw [Option.isNone_some, if_neg Bool.false_ne_true, bind_done hlocated]
        by_cases hsame : h.paste = h.copy
        · rw [if_pos hsame, hsame]
          exact .inl ⟨⟨rfl, hcopy, hcopy⟩, rfl⟩
        · rw [if_neg hsame]
          by_cases hpaste : l.finds h.paste s = true
          · exact .inl ⟨⟨rfl, hcopy, hpaste⟩, if_pos hpaste⟩
          · exact .inr ⟨fun hfound => hpaste hfound.2.2, _, if_neg hpaste⟩
      · have hlocated : locate l h.copy s = _ := if_neg hcopy
        exact .inr ⟨fun hfound => hcopy hfound.2.1, _, bind_failed hlocated _⟩

/-- Without a display there is no access, and nothing is run. -/
theorem session_undisplayed (hdisplay : h.display = none) (l : Launcher σ) (p : Policy)
    (body : Handle σ → Action (Host σ) AccessError α) (d : Host σ) :
    (⟨h.backend l, p⟩ : Board σ).session body d =
      (.failed (.acquireFailed 1 (Failure.unavailable
        ("$" ++ h.tool.displayVariable ++ " is not set")).message), d) := by
  have hacquire : h.acquire l d.world =
      (.failed (.unavailable ("$" ++ h.tool.displayVariable ++ " is not set")), d.world) := by
    rw [acquire, hdisplay]
    rfl
  exact Board.session_of_failed (Backend.openHandle_of_unavailable (b := h.backend l) hacquire p)

variable {d : Host σ}

/-- A session over a tool that can be found is its body. -/
theorem session_of_found (hfound : h.Found l d.world) (p : Policy)
    (body : Handle σ → Action (Host σ) AccessError α) :
    (⟨h.backend l, p⟩ : Board σ).session body d = body ⟨h.backend l, true⟩ d := by
  rcases acquire_cases h l d.world with ⟨-, hacquire⟩ | ⟨hlost, -⟩
  · have hopen := Backend.openHandle_of_acquire (b := h.backend l) hacquire p
    exact Board.session_of_open (c := ⟨h.backend l, p⟩) hopen (Prod.ext rfl rfl) rfl
  · exact absurd hfound hlost

/-- There is no session over any other. -/
theorem found_of_session {body : Handle σ → Action (Host σ) AccessError α} {a : α}
    (hrun : ((⟨h.backend l, p⟩ : Board σ).session body d).1 = .done a) : h.Found l d.world := by
  rcases acquire_cases h l d.world with ⟨hfound, -⟩ | ⟨-, reason, hacquire⟩
  · exact hfound
  · have hfailed : (⟨h.backend l, p⟩ : Board σ).session body d = _ :=
      Board.session_of_failed (Backend.openHandle_of_unavailable hacquire p)
    rw [hfailed] at hrun
    cases hrun

end Clipboard.Helper
