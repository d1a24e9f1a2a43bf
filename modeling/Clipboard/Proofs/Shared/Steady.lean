import Clipboard.Desktop
import Clipboard.Proofs.Helper.Runs
import Clipboard.Proofs.InStep
import Clipboard.Proofs.Session.Items

/-!
# Clipboards that have been set up

A clipboard is set up by its environment, and holds on to what it has found there: a backend
in memory or of the display server is not told of the environment again.  The backend of a
helper tool runs programs, which see the environment of the day, but it points them at the
display that it was set up with.  As long as its programs go by no other variable of those that
a clipboard is set up by, the clipboard does not notice when these change.

* `Surroundings.Blind`: helper programs that go by their display alone;
* `Desktop.Near`: what may differ between two runs of a program;
* `Desktop.openBoard_steady`: a clipboard that has been set up goes the same way in both.
-/

namespace Clipboard

open Action

variable {σ τ ε α β : Type}

/-! ## Calls on a part of the state -/

section Zoom

variable {Q : τ → τ → Prop} {view : τ → σ} {put : σ → τ → τ}
  (hview : ∀ t t', Q t t' → view t = view t') (hput : ∀ s t t', Q t t' → Q (put s t) (put s t'))

include hview hput

/-- A call on a part that is the same in both states goes in step. -/
theorem inStep_zoom (x : Action σ ε α) :
    Action.InStep Q (x.zoom view put) (x.zoom view put) := by
  intro t t' ht
  rw [zoom, zoom, hview t t' ht]
  exact ⟨rfl, hput _ t t' ht⟩

theorem Backend.zoom_shadows (b : Backend σ) :
    (b.zoom view put).Shadows (Host.Related Q) (b.zoom view put) where
  name := rfl
  follows _ := Backend.InStep.follows
    { name := rfl
      convention := rfl
      acquire := inStep_zoom hview hput _
      release := inStep_zoom hview hput _
      formatsFor := inStep_zoom hview hput _
      pick := fun _ => inStep_zoom hview hput _
      read := fun _ => inStep_zoom hview hput _ }
  write _ := Host.inStep_on (inStep_zoom hview hput _)
  clear := Host.inStep_on (inStep_zoom hview hput _)

end Zoom

/-! ## Two runs of a program -/

namespace Desktop

/-- Desktops that differ in no more than the variables that a clipboard is set up by, and
outside of the program in what `R` allows. -/
structure Near (R : τ → τ → Prop) (d d' : Desktop τ) : Prop where
  environment : ∀ name, name ∉ variablesRead → d.environment.get? name = d'.environment.get? name
  outside : R d.outside d'.outside
  memory : d.memory = d'.memory

theorem Near.refl {R : τ → τ → Prop} (hR : ∀ t, R t t) (d : Desktop τ) : Near R d d :=
  ⟨fun _ _ => rfl, hR _, rfl⟩

end Desktop

open Desktop

/-- A clipboard that goes the same way in two runs of a program. -/
def Board.Steady (R : τ → τ → Prop) (c : Board (Desktop τ)) : Prop :=
  ∀ op : Operation, Action.InStep (Host.Related (Near R)) (op.perform c) (op.perform c)

theorem steady_inMemory (R : τ → τ → Prop) (p : Policy) :
    (⟨Desktop.inMemory, p⟩ : Board (Desktop τ)).Steady R :=
  (Backend.zoom_shadows (fun _ _ h => h.memory)
    (fun _ _ _ h => ⟨h.environment, h.outside, rfl⟩) _).perform p

theorem steady_overOutside (b : Backend τ) (p : Policy) :
    (⟨Desktop.overOutside b, p⟩ : Board (Desktop τ)).Steady Eq :=
  (Backend.zoom_shadows (fun _ _ h => h.outside)
    (fun _ _ _ h => ⟨h.environment, rfl, h.memory⟩) b).perform p

/-! ## Helper tools -/

/-- Surroundings whose helper programs go by no variable that a clipboard is set up by, but
for the display that they are pointed at.  Outside of the program they may leave behind what
`R` makes no difference of. -/
structure Surroundings.Blind (o : Surroundings τ) (R : τ → τ → Prop) : Prop where
  refl : ∀ t, R t t
  finds : ∀ {t t'}, R t t' → ∀ program, o.finds program t = o.finds program t'
  run : ∀ (tool : Tool) (value : Octets) (i : Invocation),
    i.program = tool.copyProgram ∨ i.program = tool.pasteProgram →
    i.overrides = [(tool.displayVariable, value)] →
    ∀ {env env' : Environment},
      (∀ name, name ∉ Desktop.variablesRead → env.get? name = env'.get? name) →
      Action.InStep R (o.run env i) (o.run env' i)

namespace Helper

variable {o : Surroundings τ} {R : τ → τ → Prop} {h : Helper}

/-- A tool that is pointed at a display, with the programs that it is known by. -/
structure Pointed (h : Helper) : Prop where
  copy : h.copy = h.tool.copyProgram
  paste : h.paste = h.tool.pasteProgram
  display : h.display.isSome = true

section Runs

variable (hblind : o.Blind R) (hpointed : h.Pointed)

include hblind hpointed

theorem run_inStep {program : String} (hprogram : program = h.copy ∨ program = h.paste)
    (arguments : List String) (input : Octets) :
    Action.InStep (Near R) (h.run (launcher o) program arguments input)
      (h.run (launcher o) program arguments input) := by
  refine InStep.mapCause ?_ _
  unfold Launcher.start
  by_cases hnul : (h.invocation program arguments input).holdsNul = true
  · rw [if_pos hnul]
    exact inStep_fail _
  · rw [if_neg hnul]
    intro d d' hd
    obtain ⟨value, hvalue⟩ := Option.isSome_iff_exists.mp hpointed.display
    have hoverrides : (h.invocation program arguments input).overrides =
        [(h.tool.displayVariable, value)] := by
      rw [invocation, hvalue]
      rfl
    have hknown : program = h.tool.copyProgram ∨ program = h.tool.pasteProgram := by
      rwa [hpointed.copy, hpointed.paste] at hprogram
    obtain ⟨hsame, hrel⟩ :=
      hblind.run h.tool value _ hknown hoverrides hd.environment _ _ hd.outside
    exact ⟨hsame, hd.environment, hrel, hd.memory⟩

theorem listed_inStep :
    Action.InStep (Near R) (h.listed (launcher o)) (h.listed (launcher o)) := by
  refine (run_inStep hblind hpointed (.inr rfl) _ _).bind fun c =>
    (inStep_ofExcept _).bind fun output => ?_
  cases output <;> exact inStep_pure _

theorem readOne_inStep (f : Format) :
    Action.InStep (Near R) (h.readOne (launcher o) f) (h.readOne (launcher o) f) :=
  (inStep_ofExcept _).bind fun _ => (run_inStep hblind hpointed (.inr rfl) _ _).bind fun _ =>
    (inStep_ofExcept _).bind fun _ => inStep_pure _

theorem feed_inStep (arguments : List String) (input : Octets) :
    Action.InStep (Near R) (h.feed (launcher o) arguments input)
      (h.feed (launcher o) arguments input) := by
  refine (run_inStep hblind hpointed (.inl rfl) _ _).bind fun c => ?_
  by_cases hbroken : c.broken = true
  · rw [if_pos hbroken]
    exact inStep_fail _
  · rw [if_neg hbroken]
    by_cases hsuccess : c.ending.isSuccess = true
    · rw [if_pos hsuccess]
      exact inStep_pure _
    · rw [if_neg hsuccess]
      exact inStep_fail _

theorem write_inStep (items : List (Format × Payload)) :
    Action.InStep (Near R) (h.write (launcher o) items) (h.write (launcher o) items) := by
  cases items with
  | nil => exact inStep_fail _
  | cons item rest =>
      exact (inStep_ofExcept _).bind fun _ => feed_inStep hblind hpointed _ _

theorem clear_inStep :
    Action.InStep (Near R) (h.clear (launcher o)) (h.clear (launcher o)) := by
  unfold clear
  cases h.tool with
  | wlClipboard => exact feed_inStep hblind hpointed _ _
  | xclip => exact inStep_fail _

omit hpointed in
theorem locate_inStep (program : String) :
    Action.InStep (Near R) (locate (launcher o) program) (locate (launcher o) program) := by
  intro d d' hd
  have hfinds : (launcher o).finds program d = (launcher o).finds program d' :=
    hblind.finds hd.outside program
  unfold locate
  rw [hfinds]
  split <;> exact ⟨rfl, hd⟩

theorem acquire_inStep :
    Action.InStep (Near R) (h.acquire (launcher o)) (h.acquire (launcher o)) := by
  unfold acquire
  rw [if_neg (by simpa using Option.isSome_iff_ne_none.mp hpointed.display)]
  refine (locate_inStep hblind h.copy).bind fun _ => ?_
  by_cases hsame : h.paste = h.copy
  · rw [if_pos hsame]
    exact inStep_pure _
  · rw [if_neg hsame]
    exact locate_inStep hblind h.paste

/-- The backend of a tool that is pointed at a display goes the same way. -/
theorem steady_withHelper (p : Policy) :
    (⟨Desktop.withHelper o h, p⟩ : Board (Desktop τ)).Steady R := by
  have hshadows : (Desktop.withHelper o h).Shadows (Host.Related (Near R))
      (Desktop.withHelper o h) :=
    { name := rfl
      follows := fun kind => Backend.InStep.follows
        { name := rfl
          convention := rfl
          acquire := acquire_inStep hblind hpointed
          release := inStep_pure ()
          formatsFor := inStep_pure _
          pick := fun formats => (listed_inStep hblind hpointed).bind fun _ => inStep_ofExcept _
          read := readOne_inStep hblind hpointed }
      write := fun items => Host.inStep_on (write_inStep hblind hpointed items)
      clear := Host.inStep_on (clear_inStep hblind hpointed) }
  exact hshadows.perform p

end Runs

/-- Without a display every operation comes to the same, whoever runs it. -/
theorem steady_undisplayed (hdisplay : h.display = none) (R : τ → τ → Prop) (p : Policy) :
    (⟨Desktop.withHelper o h, p⟩ : Board (Desktop τ)).Steady R := by
  intro op d d' hd
  cases op <;>
    simp [Operation.perform, Board.setText, Board.getText, Board.hasText, Board.setContents,
      Board.getContents, Board.clear, Desktop.withHelper, session_undisplayed hdisplay, recover, hd]

/-- The tool that an environment calls for goes the same way. -/
theorem steady_ofEnvironment (hblind : o.Blind R) (tool : Tool) (env : Environment) (p : Policy) :
    (⟨Desktop.withHelper o (.ofEnvironment tool env), p⟩ : Board (Desktop τ)).Steady R := by
  cases hdisplay : (ofEnvironment tool env).display with
  | none => exact steady_undisplayed hdisplay R p
  | some value =>
      exact steady_withHelper hblind ⟨rfl, rfl, by rw [hdisplay]; rfl⟩ p

end Helper

/-- A clipboard that has been set up goes the same way in two runs, whatever has been set up. -/
theorem Desktop.openBoard_steady {o : Surroundings τ} {R : τ → τ → Prop} (hblind : o.Blind R)
    {settings : Settings} {d d' : Desktop τ} {c : Board (Desktop τ)}
    (h : openBoard o settings d = (.done c, d')) :
    ∃ R' : τ → τ → Prop, (∀ t, R' t t) ∧ c.Steady R' := by
  obtain ⟨b, d₁, hmapped, hpure⟩ := bind_eq_done h
  obtain rfl : (⟨b, settings.policy⟩ : Board (Desktop τ)) = c := by
    cases hpure
    rfl
  have hopen := mapCause_eq_done hmapped
  unfold openBackend at hopen
  cases hchoice : settings.backend.resolve d.environment <;> rw [hchoice] at hopen
  case x11 =>
    unfold connect at hopen
    rcases hconnect : o.connect d.environment settings.readTimeout d.outside with ⟨_ | conn, t⟩ <;>
      rw [hconnect] at hopen <;> cases hopen
    exact ⟨Eq, fun _ => rfl, steady_overOutside _ _⟩
  case xclip =>
    cases hopen
    exact ⟨R, hblind.refl, Helper.steady_ofEnvironment hblind _ _ _⟩
  case wlClipboard =>
    cases hopen
    exact ⟨R, hblind.refl, Helper.steady_ofEnvironment hblind _ _ _⟩
  case memory =>
    cases hopen
    exact ⟨R, hblind.refl, steady_inMemory R _⟩
  case auto => cases hopen
  case windows => cases hopen

end Clipboard
