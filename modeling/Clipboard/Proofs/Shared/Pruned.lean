import Clipboard.Workstation
import Clipboard.Proofs.Shared.Reaching
import Clipboard.Proofs.Shared.Steady

/-!
# Changes of the environment

A program may change its environment between the errands of its shared clipboard.  What the
clipboard is set up by are a few variables, and it is set up once: changes of these that come
after the first errand that reaches it are not noticed, and a run without them is answered
alike.

* `Shared.pruned`: a run without the changes that come too late;
* `Shared.Alike`: two runs whose clipboards have been set up alike, and what may differ;
* `Shared.answers_pruned`: the runs are answered alike, and what is settled at the errand that
  sets the clipboard up.
-/

namespace Clipboard

open Action Desktop

variable {τ : Type} (o : Surroundings τ)

namespace Shared

/-! ## Runs -/

/-- What a program does that has to do with its clipboard. -/
inductive Step where
  | call (e : Errand)
  /-- Setting a variable of its environment, or unsetting it by `none`. -/
  | setVariable (name : String) (value : Option Octets)
  deriving DecidableEq, Repr

/-- The program in another environment. -/
def within (env : Environment) (s : Shared τ) : Shared τ :=
  { s with host := { s.host with world := { s.host.world with environment := env } } }

/-- The environment after a step. -/
def Step.change : Step → Environment → Environment
  | call _, env => env
  | setVariable name value, env => env.set name value

/-- What a step leaves. -/
def Step.leave : Step → Shared τ → Shared τ
  | call e, s => (e.run o s).2
  | step, s => s.within (step.change s.host.world.environment)

/-- What some steps leave. -/
def leftBy (steps : List Step) (s : Shared τ) : Shared τ :=
  steps.foldl (fun s step => step.leave o s) s

/-- The answers to the errands among some steps. -/
def answers : List Step → Shared τ → List Answer
  | [], _ => []
  | .call e :: rest, s => (e.run o s).1 :: answers rest (e.run o s).2
  | step :: rest, s => answers rest (step.leave o s)

/-- Whether a step is anything but a change of a variable that a clipboard is set up by. -/
def Step.stays : Step → Bool
  | call _ => true
  | setVariable name _ => name ∉ variablesRead

/-- The steps without the changes that come after the first errand that reaches the clipboard. -/
def pruned : List Step → List Step
  | [] => []
  | .call e :: rest => .call e :: if e.reaches then rest.filter (·.stays) else pruned rest
  | step :: rest => step :: pruned rest

/-- The answers to the errands among some steps where there is no clipboard, for this cause. -/
def denials (cause : AccessError) (steps : List Step) : List Answer :=
  steps.filterMap fun
    | .call e => some (e.denial cause)
    | .setVariable _ _ => none

/-! ## Two runs -/

/-- Two programs whose clipboard has been set up alike, and goes the same way in both. -/
structure Alike (R : τ → τ → Prop) (s s' : Shared τ) : Prop where
  hosts : Host.Related (Near R) s.host s'.host
  setUp : ∃ r, s.kept = some r ∧ s'.kept = some r ∧ ∀ c, r = .ok c → c.Steady R

variable {o} {R : τ → τ → Prop} {s s' : Shared τ}

theorem Alike.run (h : Alike R s s') (e : Errand) :
    (e.run o s).1 = (e.run o s').1 ∧ Alike R (e.run o s).2 (e.run o s').2 := by
  obtain ⟨hhosts, r, hkept, hkept', hsteady⟩ := h
  cases hdeed : e.deed? with
  | none =>
      rw [Errand.run_of_refused s hdeed .closed, Errand.run_of_refused s' hdeed .closed]
      exact ⟨rfl, hhosts, r, hkept, hkept', hsteady⟩
  | some op =>
      cases r with
      | error cause =>
          rw [e.run_barred o hkept, e.run_barred o hkept']
          exact ⟨rfl, hhosts, _, hkept, hkept', hsteady⟩
      | ok c =>
          have hboard := board_of_kept o hkept
          have hboard' := board_of_kept o hkept'
          obtain ⟨hsame, hrel⟩ := hsteady c rfl op _ _ hhosts
          rw [Errand.run_of_deed s hdeed, Errand.run_of_deed s' hdeed,
            operate_of_done hboard, operate_of_done hboard']
          exact ⟨congrArg e.read hsame, hrel, _, hkept, hkept', hsteady⟩

theorem Alike.setVariable (h : Alike R s s') (name : String) (value : Option Octets) :
    Alike R ((Step.setVariable name value).leave o s)
      ((Step.setVariable name value).leave o s') := by
  refine ⟨⟨⟨fun name' hname' => ?_, h.hosts.1.outside, h.hosts.1.memory⟩, h.hosts.2⟩, h.setUp⟩
  by_cases hsame : name' = name
  · subst hsame
    simp [Step.leave, Step.change, within]
  · simpa [Step.leave, Step.change, within, Environment.get?_set_of_ne hsame] using
      h.hosts.1.environment name' hname'

/-- A change of a variable that the clipboard has been set up by is not noticed. -/
theorem Alike.setVariable_left (h : Alike R s s') {name : String} (hread : name ∈ variablesRead)
    (value : Option Octets) : Alike R ((Step.setVariable name value).leave o s) s' := by
  refine ⟨⟨⟨fun name' hname' => ?_, h.hosts.1.outside, h.hosts.1.memory⟩, h.hosts.2⟩, h.setUp⟩
  have hne : name' ≠ name := fun e => hname' (e ▸ hread)
  simpa [Step.leave, Step.change, within, Environment.get?_set_of_ne hne] using
    h.hosts.1.environment name' hname'

/-- Once the clipboard has been set up, the changes may as well be left out. -/
theorem Alike.answers_filter (h : Alike R s s') (steps : List Step) :
    answers o steps s = answers o (steps.filter (·.stays)) s' := by
  induction steps generalizing s s' with
  | nil => rfl
  | cons step rest ih =>
      cases step with
      | call e =>
          obtain ⟨hsame, hrel⟩ := h.run (o := o) e
          rw [List.filter_cons_of_pos rfl, answers, answers, hsame, ih hrel]
      | setVariable name value =>
          by_cases hread : name ∈ variablesRead
          · rw [List.filter_cons_of_neg (by simp [Step.stays, hread]), answers]
            · exact ih (h.setVariable_left hread value)
            · simp
          · rw [List.filter_cons_of_pos (by simp [Step.stays, hread])]
            exact ih (h.setVariable name value)

/-! ## The errand that sets the clipboard up -/

/-- The first errand that reaches the clipboard has it set up by its environment. -/
theorem kept_of_reaches (hnone : s.kept = none) {e : Errand} (hreaches : e.reaches = true) :
    ∃ r, (openBoard o (settings s.host.world.environment) s.host.world).1 = .ofExcept r ∧
      (e.run o s).2.kept = some r := by
  obtain ⟨r, hr⟩ := openBoard_ofExcept o (settings s.host.world.environment) s.host.world
  refine ⟨r, hr, ?_⟩
  rw [← e.run_board o hreaches]
  exact e.run_kept o (kept_of_openBoard o hnone hr)

/-- From then on it goes the same way, whatever the variables that it was set up by. -/
theorem exists_alike (hblind : o.Blind R) (hnone : s.kept = none) {e : Errand}
    (hreaches : e.reaches = true) :
    ∃ R' : τ → τ → Prop, Alike R' (e.run o s).2 (e.run o s).2 := by
  obtain ⟨r, hr, hkept⟩ := kept_of_reaches (o := o) hnone hreaches
  cases r with
  | error cause =>
      exact ⟨R, ⟨Near.refl hblind.refl _, rfl⟩, _, hkept, hkept, fun c hc => by cases hc⟩
  | ok c =>
      obtain ⟨R', hrefl, hsteady⟩ := openBoard_steady hblind (Prod.ext hr rfl)
      refine ⟨R', ⟨Near.refl hrefl _, rfl⟩, _, hkept, hkept, fun c' hc' => ?_⟩
      cases hc'
      exact hsteady

/-- A run is answered as the one without the changes that come too late. -/
theorem answers_eq_pruned (hblind : o.Blind R) (steps : List Step) (hnone : s.kept = none) :
    answers o steps s = answers o (pruned steps) s := by
  induction steps generalizing s with
  | nil => rfl
  | cons step rest ih =>
      cases step with
      | setVariable name value => exact ih (s := (Step.setVariable name value).leave o s) hnone
      | call e =>
          rw [pruned, answers, answers]
          by_cases hreaches : e.reaches = true
          · obtain ⟨R', halike⟩ := exists_alike hblind hnone hreaches
            rw [if_pos hreaches, halike.answers_filter]
          · have hrefused : e.reaches = false := by simpa using hreaches
            rw [if_neg hreaches, e.run_refused o hrefused, ih hnone]

/-- What has been set up is kept to the end. -/
theorem leftBy_kept {r : Except AccessError (Board (Desktop τ))} (hkept : s.kept = some r)
    (steps : List Step) : (leftBy o steps s).kept = some r := by
  induction steps generalizing s with
  | nil => exact hkept
  | cons step rest ih =>
      cases step with
      | call e => exact ih (e.run_kept o hkept)
      | setVariable name value => exact ih hkept

/-- A clipboard that could not be set up fails to the end. -/
theorem answers_barred {cause : AccessError} (hkept : s.kept = some (.error cause))
    (steps : List Step) : answers o steps s = denials cause steps := by
  induction steps generalizing s with
  | nil => rfl
  | cons step rest ih =>
      cases step with
      | call e =>
          rw [answers, e.run_barred o hkept, ih hkept]
          rfl
      | setVariable name value => exact ih (s := (Step.setVariable name value).leave o s) hkept

/-- Errands that are refused leave nothing but the changes between them. -/
theorem leftBy_refused {env : Environment} {t : τ} {steps : List Step}
    (hrefused : ∀ e, .call e ∈ steps → e.reaches = false) :
    leftBy o steps (start env t) = start (steps.foldl (fun env step => step.change env) env) t := by
  induction steps generalizing env with
  | nil => rfl
  | cons step rest ih =>
      have hrest : ∀ e, .call e ∈ rest → e.reaches = false :=
        fun e he => hrefused e (List.mem_cons_of_mem _ he)
      have hstep : step.leave o (start env t) = start (step.change env) t := by
        cases step with
        | call e => exact e.run_refused o (hrefused e List.mem_cons_self) _
        | setVariable name value => rfl
      rw [leftBy, List.foldl_cons, hstep, ← leftBy, ih hrest]
      rfl

/-- **Late changes are not noticed.**  A program whose helper programs go by their display alone
does errands of its shared clipboard, and between them changes the variables of its environment.
It is answered as if the variables that a clipboard is set up by were not changed any more after
the first errand that reaches it.  The errands before that one are refused, and nothing comes of
them, so that the changes between them count.  If the environment cannot be read then, the
clipboard is the one of the usual settings, and it is kept to the end.  If it cannot be set up,
every errand is denied for that cause to the end, whatever the environment becomes. -/
theorem answers_pruned (hblind : o.Blind R) (env : Environment) (t : τ) :
    (∀ steps, answers o steps (start env t) = answers o (pruned steps) (start env t)) ∧
      ∀ before e after, (∀ e', .call e' ∈ before → e'.reaches = false) → e.reaches = true →
        let env' := before.foldl (fun env step => step.change env) env
        let s := leftBy o before (start env t)
        s = start env' t ∧
          (∀ fault, Settings.ofEnvironment env' = .error fault →
            ∃ r, (openBoard o {} s.host.world).1 = .ofExcept r ∧
              (leftBy o (.call e :: after) s).kept = some r) ∧
          ∀ cause, (openBoard o (settings env') s.host.world).1 = .failed cause →
            answers o (.call e :: after) s = denials cause (.call e :: after) := by
  refine ⟨fun steps => answers_eq_pruned hblind steps rfl, ?_⟩
  intro before e after hrefused hreaches env' s
  have hs : s = start env' t := leftBy_refused hrefused
  clear_value s
  subst hs
  obtain ⟨r, hr, hkept⟩ := kept_of_reaches (o := o) (s := start env' t) rfl hreaches
  refine ⟨rfl, fun fault hfault => ⟨r, ?_, leftBy_kept hkept after⟩, fun cause hcause => ?_⟩
  · have husual : settings env' = {} := by
      rw [settings, hfault]
      rfl
    rwa [← husual]
  · have hbarred : (board o (start env' t)).2.kept = some (.error cause) :=
      kept_of_openBoard o rfl hcause
    rw [← answers_barred hbarred, answers, answers, e.run_board o hreaches]

end Shared

/-! ## Workstations -/

/-- Boxes that differ in nothing but what they have written down. -/
theorem Toolbox.eq_of_unlogged {box box' : Toolbox}
    (h : { box with log := [] } = { box' with log := [] }) :
    box' = { box with log := box'.log } := by
  cases box
  cases box'
  cases h
  rfl

/-- A run of a program is the same in any environment, but for what is written down of it. -/
theorem Toolbox.run_unlogged (env env' : Environment) (i : Invocation) (box : Toolbox)
    (log : List LogEntry) :
    (run env i box).1 = (run env' i { box with log := log }).1 ∧
      { (run env i box).2 with log := [] } =
        { (run env' i { box with log := log }).2 with log := [] } := by
  have hpresence : presence { box with log := log } i.program = box.presence i.program := rfl
  unfold run
  rw [hpresence]
  cases box.presence i.program with
  | working =>
      by_cases hlong : isOverlong i = true
      · simp [hlong]
      · simp only [hlong, complete]
        cases box.responses.head?.join <;> exact ⟨rfl, rfl⟩
  | _ => exact ⟨rfl, rfl⟩

namespace Workstation

/-- Workstations that differ in nothing but what their programs have written down. -/
def Unlogged (w w' : Workstation) : Prop :=
  w.display = w'.display ∧ w.server = w'.server ∧
    { w.toolbox with log := [] } = { w'.toolbox with log := [] }

/-- The programs of a workstation go by no variable at all, though they write down what they
find in their environment. -/
theorem surroundings_blind : surroundings.Blind Unlogged where
  refl _ := ⟨rfl, rfl, rfl⟩
  finds h program := by
    show Toolbox.finds _ program = Toolbox.finds _ program
    rw [Toolbox.eq_of_unlogged h.2.2]
    rfl
  run _ _ i _ _ env env' _ w w' h := by
    have hlog := Toolbox.eq_of_unlogged h.2.2
    obtain ⟨hsame, hbox⟩ := Toolbox.run_unlogged env env' i w.toolbox w'.toolbox.log
    rw [← hlog] at hsame hbox
    exact ⟨hsame, h.1, h.2.1, hbox⟩

end Workstation

/-- A program first asks in vain, with a number that cannot be read, and then with a tool.
When its display is gone and the tool is no longer called for, it does not notice.  A program
that asks for text at once has the usual clipboard instead, and one that calls for a backend of
another platform is denied even when it does not call for it any more. -/
theorem Shared.answers_pruned_tool :
    let o := Workstation.surroundings
    let w : Workstation := { toolbox := { programs := [("xclip", .working)] } }
    let unreadable := Environment.empty.set "CLIPD_ATTEMPTS" (some [0x78])
    let steps : List Step :=
      [.call (.passOctets none 1), .setVariable "CLIPD_ATTEMPTS" none,
        .setVariable "CLIPD_BACKEND" (some (Utf8.encode "xclip".toList)),
        .setVariable "DISPLAY" (some [0x3A, 0x30]), .call (.operate (.setText "a")),
        .setVariable "DISPLAY" none,
        .setVariable "CLIPD_BACKEND" (some (Utf8.encode "memory".toList)),
        .call (.takeText (some [])), .call .askText]
    let foreign := Environment.empty.set "CLIPD_BACKEND" (some (Utf8.encode "windows".toList))
    let late : List Step := [.setVariable "CLIPD_BACKEND" none, .call .askText]
    let cause : AccessError :=
      .acquireFailed 1 "clipboard unavailable: windows backend is not supported on this platform"
    o.Blind Workstation.Unlogged ∧
      answers o steps (start unreadable w) = answers o (pruned steps) (start unreadable w) ∧
      (∃ r, (openBoard o {} (start unreadable w).host.world).1 = .ofExcept r ∧
        (leftBy o (.call .askText :: late) (start unreadable w)).kept = some r) ∧
      answers o (.call (.operate .getText) :: late) (start foreign w) =
        denials cause (.call (.operate .getText) :: late) ∧
      (pruned steps).length = 7 ∧
      answers o steps (start unreadable w) =
        [.flag false, .reply (.done .done), .text true (some [0x61, 0]), .flag true] := by
  intro o w unreadable steps foreign late cause
  have hblind : o.Blind Workstation.Unlogged := Workstation.surroundings_blind
  have hunread : (Settings.ofEnvironment unreadable).toOption = none := by decide +kernel
  obtain ⟨fault, hfault⟩ : ∃ fault, Settings.ofEnvironment unreadable = .error fault := by
    cases hread : Settings.ofEnvironment unreadable with
    | error fault => exact ⟨fault, rfl⟩
    | ok settings =>
        rw [hread] at hunread
        cases hunread
  have hchoice : (settings foreign).backend.resolve foreign = .windows := by decide +kernel
  have hcause : (openBoard o (settings foreign) (start foreign w).host.world).1 =
      .failed cause := by
    simp only [openBoard, openBackend, Action.bind_apply, Action.mapCause_apply, start, hchoice]
    have hreason : AccessError.ofReading (.unavailable
        (Choice.windows.name ++ " backend is not supported on this platform")) = cause := by
      decide +kernel
    exact congrArg Outcome.failed hreason
  exact ⟨hblind, (answers_pruned hblind unreadable w).1 steps,
    ((answers_pruned hblind unreadable w).2 [] .askText late (by simp) rfl).2.1 fault hfault,
    ((answers_pruned hblind foreign w).2 [] (.operate .getText) late (by simp) rfl).2.2 cause
      hcause, by decide +kernel⟩

end Clipboard
