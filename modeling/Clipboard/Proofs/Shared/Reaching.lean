import Clipboard.Proofs.Shared.Errands

/-!
# Errands that reach the clipboard

A shared clipboard is set up by the first errand that reaches it.  An errand that is refused
before leaves the program as it is, down to the clipboard that is not set up yet.  Any other
finds the clipboard set up, or sets it up, and it is never set up again.

* `Errand.run_board`: an errand that reaches the clipboard might as well have found it set up;
* `Errand.run_kept`: what has been set up is kept;
* `Errand.run_barred`: a clipboard that could not be set up fails, whatever the errand.
-/

namespace Clipboard

variable {τ α : Type}

/-- Whether an errand gets as far as the clipboard. -/
def Errand.reaches (e : Errand) : Bool := e.deed?.isSome

/-- The answer to an errand where there is no clipboard, for this cause. -/
def Errand.denial (cause : AccessError) : Errand → Answer
  | operate .hasText => .reply (.done (.flag false))
  | operate _ => .reply (.failed cause)
  | passText _ | passOctets _ _ | askText => .flag false
  | takeText place => .text false place
  | takeOctets textPlace lengthPlace => .octets false textPlace lengthPlace

theorem Errand.read_failed (e : Errand) (cause : AccessError) :
    e.read (.failed cause) = e.denial cause := by
  cases e with
  | operate op => cases op <;> rfl
  | _ => rfl

variable (o : Surroundings τ) {s : Shared τ}

/-! ## Setting up -/

namespace Desktop

/-- Looking for a backend answers or fails. -/
theorem openBackend_ofExcept (settings : Settings) (d : Desktop τ) :
    ∃ r, (openBackend o settings d).1 = .ofExcept r := by
  unfold openBackend
  cases settings.backend.resolve d.environment with
  | x11 => exact ⟨_, rfl⟩
  | auto => exact ⟨.error _, rfl⟩
  | windows => exact ⟨.error _, rfl⟩
  | _ => exact ⟨.ok _, rfl⟩

theorem openBoard_ofExcept (settings : Settings) (d : Desktop τ) :
    ∃ r, (openBoard o settings d).1 = .ofExcept r := by
  obtain ⟨r, hr⟩ := openBackend_ofExcept o settings d
  have hrun : openBackend o settings d = (.ofExcept r, (openBackend o settings d).2) :=
    Prod.ext hr rfl
  cases r with
  | error e => exact ⟨.error (.ofReading e), congrArg Prod.fst (Action.bind_failed (by
      rw [Action.mapCause_apply, hrun]; rfl) _)⟩
  | ok b => exact ⟨.ok ⟨b, settings.policy⟩, congrArg Prod.fst (Action.bind_done (by
      rw [Action.mapCause_apply, hrun]; rfl) _)⟩

end Desktop

namespace Shared

/-- A clipboard that is asked for is set up from then on, or known not to be there. -/
theorem exists_kept (s : Shared τ) :
    ∃ r, (board o s).1 = .ofExcept r ∧ (board o s).2.kept = some r := by
  cases hkept : s.kept with
  | some r => exact ⟨r, by rw [board_of_kept o hkept], by rw [board_of_kept o hkept, hkept]⟩
  | none =>
      obtain ⟨r, hr⟩ :=
        Desktop.openBoard_ofExcept o (settings s.host.world.environment) s.host.world
      refine ⟨r, ?_⟩
      unfold board
      rw [hkept]
      dsimp only
      rw [Host.on_apply, hr]
      cases r <;> exact ⟨rfl, rfl⟩

/-- It is set up by the settings of the environment. -/
theorem kept_of_openBoard {r : Except AccessError (Board (Desktop τ))} (hnone : s.kept = none)
    (hr : (Desktop.openBoard o (settings s.host.world.environment) s.host.world).1 =
      .ofExcept r) : (board o s).2.kept = some r := by
  unfold board
  rw [hnone]
  dsimp only
  rw [Host.on_apply, hr]
  cases r <;> rfl

/-- Asking for it once more changes nothing. -/
theorem board_board (s : Shared τ) : board o (board o s).2 = board o s := by
  obtain ⟨r, hr, hkept⟩ := exists_kept o s
  rw [board_of_kept o hkept]
  exact Prod.ext hr.symm rfl

variable (body : Board (Desktop τ) → Action (Host (Desktop τ)) AccessError α)

theorem operate_board (s : Shared τ) : operate o body (board o s).2 = operate o body s := by
  unfold operate
  rw [Action.bind_apply, Action.bind_apply, board_board]

theorem operate_kept {r : Except AccessError (Board (Desktop τ))} (h : s.kept = some r) :
    (operate o body s).2.kept = some r := by
  have hboard := board_of_kept o h
  cases r with
  | error cause => rw [operate, Action.bind_failed hboard, h]
  | ok c => rw [operate_of_done hboard body, h]

theorem operate_barred {cause : AccessError} (h : s.kept = some (.error cause)) :
    operate o body s = (.failed cause, s) :=
  Action.bind_failed (board_of_kept o h) _

end Shared

/-! ## Errands -/

namespace Errand

variable (e : Errand)

/-- An errand that reaches the clipboard might as well have found it set up. -/
theorem run_board (h : e.reaches = true) (s : Shared τ) :
    e.run o (Shared.board o s).2 = e.run o s := by
  obtain ⟨op, hdeed⟩ := Option.isSome_iff_exists.mp h
  rw [run_of_deed _ hdeed, run_of_deed _ hdeed, Shared.operate_board]

/-- What has been set up is kept. -/
theorem run_kept {r : Except AccessError (Board (Desktop τ))} (h : s.kept = some r) :
    (e.run o s).2.kept = some r := by
  cases hdeed : e.deed? with
  | none => rw [run_of_refused s hdeed .closed, h]
  | some op => rw [run_of_deed s hdeed, Shared.operate_kept o _ h]

/-- A clipboard that could not be set up fails, whatever the errand. -/
theorem run_barred {cause : AccessError} (h : s.kept = some (.error cause)) :
    e.run o s = (e.denial cause, s) := by
  rw [← read_failed]
  cases hdeed : e.deed? with
  | none => exact run_of_refused s hdeed cause
  | some op => rw [run_of_deed s hdeed, Shared.operate_barred o _ h]

/-- An errand that is refused leaves all as it is. -/
theorem run_refused (h : e.reaches = false) (s : Shared τ) : (e.run o s).2 = s := by
  rw [run_of_refused s (Option.isSome_eq_false_iff.mp h |> Option.isNone_iff_eq_none.mp) .closed]

end Errand

end Clipboard
