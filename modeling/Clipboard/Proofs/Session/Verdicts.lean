import Clipboard.Proofs.Session.Halves

/-!
# What a reading comes to

A reading names the formats of the kind, picks one of them that is on offer and takes the
content in it; for text, the content is then spelt out.  The first step that does not lead on to
the next decides what the program is told: that the clipboard was not reached, that it holds
nothing of the kind, or that what it holds could not be decoded.

* `verdict`, `spelling`: what the last step of a reading comes to for the program;
* `read_of_unnamed`, `read_of_unpicked`, `read_of_none`, `read_of_some`: a reading, by its last
  step;
* `spelling_eq_failed`: why the reading of text failed.
-/

namespace Clipboard

open Action

variable {σ ε δ α β γ : Type}

/-- A step after which nothing more is done, and what it leaves of a chain of steps. -/
inductive Outcome.Stops : Outcome ε α → Outcome ε β → Prop
  | failed (e : ε) : Stops (.failed e) (.failed e)
  | unwound : Stops .unwound .unwound

theorem Outcome.done_or_stops (o : Outcome ε α) :
    (∃ a, o = .done a) ∨ ∃ r : Outcome ε β, o.Stops r := by
  cases o with
  | done a => exact .inl ⟨a, rfl⟩
  | failed e => exact .inr ⟨_, .failed e⟩
  | unwound => exact .inr ⟨_, .unwound⟩

theorem Outcome.Stops.mapCause {o : Outcome ε α} {r : Outcome ε β} (h : o.Stops r) (g : ε → δ) :
    (o.mapCause g).Stops (r.mapCause g) := by
  cases h with
  | failed e => exact .failed (g e)
  | unwound => exact .unwound

theorem Outcome.stops_of_failed {o : Outcome ε α} {e : ε} (h : o = .failed e) :
    o.Stops (.failed e : Outcome ε β) := by
  rw [h]
  exact .failed e

theorem Outcome.stops_of_unwound {o : Outcome ε α} (h : o = .unwound) :
    o.Stops (.unwound : Outcome ε β) := by
  rw [h]
  exact .unwound

theorem Outcome.Stops.map {o : Outcome ε α} {r : Outcome ε β} (h : o.Stops r) (f : α → γ) :
    (o.map f).Stops r := by
  cases h with
  | failed e => exact .failed e
  | unwound => exact .unwound

/-- A step that stops a chain stops it at every later step. -/
theorem Outcome.Stops.through {o : Outcome ε α} {r : Outcome ε β} (h : o.Stops r) :
    ∃ r' : Outcome ε γ, o.Stops r' ∧ r'.Stops r := by
  cases h with
  | failed e => exact ⟨_, .failed e, .failed e⟩
  | unwound => exact ⟨_, .unwound, .unwound⟩

theorem Outcome.Stops.ne_done {o : Outcome ε α} {r : Outcome ε β} (h : o.Stops r) (b : β) :
    r ≠ .done b := by
  cases h <;> exact nofun

theorem Outcome.map_eq_failed {o : Outcome ε α} {f : α → β} {e : ε} :
    o.map f = .failed e ↔ o = .failed e := by
  cases o <;> simp

theorem Outcome.map_eq_unwound {o : Outcome ε α} {f : α → β} :
    o.map f = .unwound ↔ o = .unwound := by
  cases o <;> simp

theorem Outcome.map_eq_done {o : Outcome ε α} {f : α → β} {b : β} :
    o.map f = .done b ↔ ∃ a, o = .done a ∧ f a = b := by
  cases o <;> simp

theorem Outcome.Stops.eq_failed {o : Outcome ε α} {e : ε}
    (h : o.Stops (.failed e : Outcome ε β)) : o = .failed e := by
  cases h
  rfl

theorem Outcome.Stops.eq_unwound {o : Outcome ε α} (h : o.Stops (.unwound : Outcome ε β)) :
    o = .unwound := by
  cases h
  rfl

/-- The steps after one that stops are not made. -/
theorem Action.bind_of_stops {x : Action σ ε α} {s s' : σ} {o : Outcome ε α} {r : Outcome ε β}
    (hx : x s = (o, s')) (h : o.Stops r) (f : α → Action σ ε β) : (x >>= f) s = (r, s') := by
  cases h with
  | failed e => exact bind_failed hx f
  | unwound => exact bind_unwound hx f

namespace Backend

/-- What the last step of a reading comes to for the program. -/
def verdict (kind : Kind) : Outcome Failure (Option Payload) → Outcome AccessError Payload
  | .done (some payload) => .done payload
  | .done none =>
    match kind with
    | .text => .failed .noText
    | .custom name => .failed (.formatUnavailable name)
  | .failed f => .failed (.acquireFailed 1 f.message)
  | .unwound => .unwound

theorem verdict_none (kind : Kind) : verdict kind (.done none) = .failed (.absent kind) := by
  cases kind <;> rfl

/-- What is left of content when it is spelt out as text. -/
def spelling (convention : Convention) : Outcome AccessError Payload → Outcome AccessError String
  | .done payload => .ofExcept ((payload.text convention).mapError .ofText)
  | .failed e => .failed e
  | .unwound => .unwound

variable {b : Backend σ} {kind : Kind} {d d₁ : Host σ} {o : Outcome Failure (Option Payload)}

/-- For the program, a step that stops a reading is a clipboard that was not reached. -/
theorem stops_verdict {o : Outcome Failure α} {r : Outcome Failure (Option Payload)}
    (h : o.Stops r) (kind : Kind) : (o.mapCause AccessError.ofReading).Stops (verdict kind r) := by
  cases h with
  | failed e => exact .failed (AccessError.ofReading e)
  | unwound => exact .unwound

theorem search_of_stops {o : Outcome Failure (List Format)} {r : Outcome Failure (Option Format)}
    (named : b.resolve kind d = (o, d₁)) (stops : o.Stops r) :
    (⟨b, true⟩ : Handle σ).search kind d = (r.mapCause .ofReading, d₁) := by
  have hnamed : (⟨b, true⟩ : Handle σ).formatsToRead kind d = (o.mapCause .ofReading, d₁) := by
    rw [Handle.formatsToRead, mapCause_apply, named]
  exact bind_of_stops hnamed (stops.mapCause _) _

/-- A search looks for the formats that were named. -/
theorem search_of_pick {formats : List Format} {r : Outcome Failure (Option Format)} {w : σ}
    (named : b.resolve kind d = (.done formats, d₁)) (picked : b.pick formats d₁.world = (r, w)) :
    (⟨b, true⟩ : Handle σ).search kind d = (r.mapCause .ofReading, { d₁ with world := w }) := by
  have hpick : (⟨b, true⟩ : Handle σ).pick formats d₁ =
      (r.mapCause .ofReading, { d₁ with world := w }) := by
    rw [Handle.pick, mapCause_apply, Host.on_apply, picked]
  exact (bind_done (mapCause_of_done named) _).trans hpick

/-- The content in a format comes to what the backend answers for it. -/
theorem fetch_some {f : Format} {w : σ} (kind : Kind) (read : b.read f d.world = (o, w)) :
    (⟨b, true⟩ : Handle σ).fetch kind (some f) d = (verdict kind o, { d with world := w }) := by
  have hread : (Host.on (b.read f)).mapCause AccessError.ofReading d =
      (o.mapCause .ofReading, { d with world := w }) := by
    rw [mapCause_apply, Host.on_apply, read]
  rw [Handle.fetch, bind_apply, hread]
  rcases o with (_ | payload) | e | _
  · rw [verdict_none]
    rfl
  all_goals rfl

/-! ## The steps of a reading -/

theorem read_of_unnamed {o : Outcome Failure (List Format)} {r : Outcome Failure (Option Payload)}
    (named : b.resolve kind d = (o, d₁)) (stops : o.Stops r) :
    (⟨b, true⟩ : Handle σ).read kind d = (verdict kind r, d₁) := by
  obtain ⟨r', hr', hstops⟩ := stops.through
  rw [Handle.read_eq]
  exact bind_of_stops (search_of_stops named hr') (stops_verdict hstops kind) _

section Named

variable {formats : List Format} {w : σ} (named : b.resolve kind d = (.done formats, d₁))

include named

theorem read_of_unpicked {o : Outcome Failure (Option Format)}
    {r : Outcome Failure (Option Payload)} (picked : b.pick formats d₁.world = (o, w))
    (stops : o.Stops r) :
    (⟨b, true⟩ : Handle σ).read kind d = (verdict kind r, { d₁ with world := w }) := by
  rw [Handle.read_eq]
  exact bind_of_stops (search_of_pick named picked) (stops_verdict stops kind) _

theorem read_of_none (picked : b.pick formats d₁.world = (.done none, w)) :
    (⟨b, true⟩ : Handle σ).read kind d =
      (verdict kind (.done none), { d₁ with world := w }) := by
  rw [Handle.read_eq, verdict_none]
  exact bind_done (search_of_pick named picked) _

theorem read_of_some {f : Format} {w' : σ} (picked : b.pick formats d₁.world = (.done (some f), w))
    (read : b.read f w = (o, w')) :
    (⟨b, true⟩ : Handle σ).read kind d = (verdict kind o, { d₁ with world := w' }) := by
  rw [Handle.read_eq]
  exact (bind_done (search_of_pick named picked) _).trans (fetch_some kind read)

end Named

/-- Text is content that is then spelt out. -/
theorem readText_of_read
    (h : (⟨b, true⟩ : Handle σ).read .text d = (verdict .text o, d₁)) :
    (⟨b, true⟩ : Handle σ).readText d = (spelling b.convention (verdict .text o), d₁) := by
  rw [Handle.readText, bind_apply, h]
  rcases verdict .text o with payload | e | _ <;> rfl

/-! ## The errors that readings end with -/

variable {convention : Convention}

/-- Octets that were taken are spelt out, or the fault that stands in the way is told. -/
theorem spelling_some (payload : Payload) :
    spelling convention (verdict .text (.done (some payload))) =
      match payload.text convention with
      | .ok text => .done text
      | .error fault => .failed (.badEncoding fault.message) := by
  show Outcome.ofExcept _ = _
  cases payload.text convention <;> rfl

/-- The reading of text fails if there was none to take, if a step failed, or if octets were
taken that spell no text. -/
theorem spelling_eq_failed {e : AccessError} :
    spelling convention (verdict .text o) = .failed e ↔
      (o = .done none ∧ e = .noText) ∨ (∃ f, o = .failed f ∧ e = .acquireFailed 1 f.message) ∨
        ∃ payload fault, o = .done (some payload) ∧ payload.text convention = .error fault ∧
          e = .badEncoding fault.message := by
  rcases o with (_ | payload) | f | _
  · simp [verdict, spelling, eq_comm]
  · rw [spelling_some]
    cases htext : payload.text convention with
    | ok text => simp [htext]
    | error fault => simp [htext, eq_comm]
  · simp [verdict, spelling, eq_comm]
  · simp [verdict, spelling]

/-- The clipboard is said not to have been reached because a step failed. -/
theorem spelling_eq_acquireFailed :
    (∃ tries reason, spelling convention (verdict .text o) =
      .failed (.acquireFailed tries reason)) ↔ ∃ f, o = .failed f := by
  constructor
  · rintro ⟨tries, reason, htold⟩
    rcases spelling_eq_failed.mp htold with ⟨-, he⟩ | ⟨f, hf, -⟩ | ⟨_, _, _, _, he⟩
    · cases he
    · exact ⟨f, hf⟩
    · cases he
  · rintro ⟨f, hf⟩
    exact ⟨1, f.message, spelling_eq_failed.mpr (.inr (.inl ⟨f, hf, rfl⟩))⟩

/-- It is said to hold no text because there was none to take. -/
theorem spelling_eq_noText :
    spelling convention (verdict .text o) = .failed .noText ↔ o = .done none := by
  simp [spelling_eq_failed]

/-- Text is not decoded because octets were taken that spell none. -/
theorem spelling_eq_badEncoding {reason : String} :
    spelling convention (verdict .text o) = .failed (.badEncoding reason) ↔
      ∃ payload fault, o = .done (some payload) ∧ payload.text convention = .error fault ∧
        fault.message = reason := by
  simp [spelling_eq_failed, eq_comm]

end Backend

end Clipboard
