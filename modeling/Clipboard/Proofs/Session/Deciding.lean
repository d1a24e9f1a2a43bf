import Clipboard.Proofs.Session.Calls
import Clipboard.Proofs.Session.Failing
import Clipboard.Proofs.Session.Resolving
import Clipboard.Proofs.Session.Verdicts

/-!
# What decides a reading

A reading is a chain of steps, each of which may be the last.  The formats of the kind are
named; they are asked about one after the other; the content is taken in the first that is on
offer; and for text it is spelt out.  How far a reading gets is its `Course`, which tells the
calls that are made and what the last of them comes to.

* `probe_append`: formats that are not on offer are passed over, in their order;
* `exists_course`: every reading takes a course, whatever the backend answers;
* `Course.read`: the course decides what the reading comes to;
* `Course.logged`: and it tells the calls on the backend, each of them made once;
* `reading_decided`: all of this for a clipboard that is opened for every reading, and which
  errors a reading can end with.
-/

namespace Clipboard

open Action

variable {σ ε δ α β γ : Type}

section Probing

variable {offers : Format.Id → Action σ Failure Bool} {before rest : List Format} {f : Format}
  {s s₁ s₂ : σ}

/-- Questions about formats, one after the other, to which the answer is always no. -/
inductive Misses (offers : Format.Id → Action σ Failure Bool) : List Format → σ → σ → Prop
  | nil (s : σ) : Misses offers [] s s
  | cons {f : Format} {rest : List Format} {s s₁ s₂ : σ}
      (first : offers f.id s = (.done false, s₁)) (others : Misses offers rest s₁ s₂) :
      Misses offers (f :: rest) s s₂

/-- Formats that are not on offer are passed over. -/
theorem probe_append (h : Misses offers before s s₁) (rest : List Format) :
    probe offers (before ++ rest) s = probe offers rest s₁ := by
  induction h with
  | nil s => rfl
  | cons first others ih =>
      rw [List.cons_append, probe_cons, first]
      exact ih

theorem probe_of_misses {formats : List Format} (h : Misses offers formats s s₁) :
    probe offers formats s = (.done none, s₁) := by
  have hall := probe_append h []
  rwa [List.append_nil] at hall

/-- Probing stops at the first format that is on offer. -/
theorem probe_of_hit (h : Misses offers before s s₁) (hit : offers f.id s₁ = (.done true, s₂))
    (rest : List Format) : probe offers (before ++ f :: rest) s = (.done (some f), s₂) := by
  rw [probe_append h, probe_cons, hit]

/-- It stops as well at the first question that is not answered. -/
theorem probe_of_stops {o : Outcome Failure Bool} {r : Outcome Failure (Option Format)}
    (h : Misses offers before s s₁) (asked : offers f.id s₁ = (o, s₂)) (stops : o.Stops r)
    (rest : List Format) : probe offers (before ++ f :: rest) s = (r, s₂) := by
  rw [probe_append h, probe_cons, asked]
  cases stops <;> rfl

/-- The answer is no to every question, or there is a first one to which it is not. -/
theorem misses_or (offers : Format.Id → Action σ Failure Bool) (formats : List Format) (s : σ) :
    (∃ s₁, Misses offers formats s s₁) ∨
      ∃ before f rest s₁, formats = before ++ f :: rest ∧ Misses offers before s s₁ ∧
        (offers f.id s₁).1 ≠ .done false := by
  induction formats generalizing s with
  | nil => exact .inl ⟨s, .nil s⟩
  | cons f rest ih =>
      by_cases hmiss : (offers f.id s).1 = .done false
      · have hfirst : offers f.id s = (.done false, (offers f.id s).2) := Prod.ext hmiss rfl
        rcases ih (offers f.id s).2 with ⟨s₁, hrest⟩ | ⟨before, g, after, s₁, rfl, hbefore, hg⟩
        · exact .inl ⟨s₁, .cons hfirst hrest⟩
        · exact .inr ⟨f :: before, g, after, s₁, rfl, .cons hfirst hbefore, hg⟩
      · exact .inr ⟨[], f, rest, s, rfl, .nil s, hmiss⟩

end Probing

/-- The questions about some formats, as calls. -/
def questions (formats : List Format) : List Call := formats.map fun f => .offers f.id

namespace Backend

/-- The call that names the formats of a kind, unless they are remembered. -/
def naming (b : Backend σ) (kind : Kind) (d : Host σ) : List Call :=
  match d.registry.find? b.name kind with
  | some _ => []
  | none => [.formatsFor kind]

/-- How far a reading gets: the calls that are made, what the first step that does not lead on
to another comes to, and the state that it leaves. -/
inductive Course (b : Backend σ) (kind : Kind) (d : Host σ) :
    List Call → Outcome Failure (Option Payload) → Host σ → Prop
  /-- No formats are named. -/
  | unnamed {o : Outcome Failure (List Format)} {r : Outcome Failure (Option Payload)}
      {d₁ : Host σ} (named : b.resolve kind d = (o, d₁)) (stops : o.Stops r) :
      Course b kind d (b.naming kind d) r d₁
  /-- None of them is on offer. -/
  | nowhere {formats : List Format} {d₁ : Host σ} {w : σ}
      (named : b.resolve kind d = (.done formats, d₁))
      (misses : Misses b.offers formats d₁.world w) :
      Course b kind d (b.naming kind d ++ questions formats) (.done none) { d₁ with world := w }
  /-- A question is not answered, and all before it were answered with no. -/
  | unanswered {before after : List Format} {f : Format} {o : Outcome Failure Bool}
      {r : Outcome Failure (Option Payload)} {d₁ : Host σ} {w w' : σ}
      (named : b.resolve kind d = (.done (before ++ f :: after), d₁))
      (misses : Misses b.offers before d₁.world w) (asked : b.offers f.id w = (o, w'))
      (stops : o.Stops r) :
      Course b kind d (b.naming kind d ++ questions (before ++ [f])) r { d₁ with world := w' }
  /-- The content is taken in the first format that is on offer. -/
  | taken {before after : List Format} {f : Format} {o : Outcome Failure (Option Payload)}
      {d₁ : Host σ} {w w' w'' : σ}
      (named : b.resolve kind d = (.done (before ++ f :: after), d₁))
      (misses : Misses b.offers before d₁.world w) (hit : b.offers f.id w = (.done true, w'))
      (read : b.read f w' = (o, w'')) :
      Course b kind d (b.naming kind d ++ questions (before ++ [f]) ++ [.read f]) o
        { d₁ with world := w'' }

/-- Every reading takes a course. -/
theorem exists_course (b : Backend σ) (kind : Kind) (d : Host σ) :
    ∃ calls o d₁, b.Course kind d calls o d₁ := by
  rcases hnamed : b.resolve kind d with ⟨o, d₁⟩
  rcases o.done_or_stops with ⟨formats, rfl⟩ | ⟨r, hstops⟩
  · rcases misses_or b.offers formats d₁.world with
      ⟨w, hmisses⟩ | ⟨before, f, after, w, rfl, hmisses, hf⟩
    · exact ⟨_, _, _, .nowhere hnamed hmisses⟩
    · rcases hasked : b.offers f.id w with ⟨o, w'⟩
      rw [hasked] at hf
      rcases o.done_or_stops with ⟨_ | _, rfl⟩ | ⟨r, hstops⟩
      · exact absurd rfl hf
      · exact ⟨_, _, _, .taken hnamed hmisses hasked rfl⟩
      · exact ⟨_, _, _, .unanswered hnamed hmisses hasked hstops⟩
  · exact ⟨_, _, _, .unnamed hnamed hstops⟩

/-- What a session comes to whose body comes to this: the backend is released, and only its
unwinding changes anything. -/
def released (b : Backend σ) (o : Outcome AccessError α) (d : Host σ) :
    Outcome AccessError α × Host σ :=
  match b.release d.world with
  | (.done (), w) => (o, { d with world := w })
  | (_, w) => (.unwound, { d with world := w })

variable {b : Backend σ} {kind : Kind} {d d₁ : Host σ} {calls : List Call}
  {o : Outcome Failure (Option Payload)}

/-- The course of a reading decides what it comes to. -/
theorem Course.read (hprobes : b.pick = probe b.offers) (h : b.Course kind d calls o d₁) :
    (⟨b, true⟩ : Handle σ).read kind d = (verdict kind o, d₁) := by
  have hpick {formats : List Format} {s s' : σ} {r : Outcome Failure (Option Format)}
      (h : probe b.offers formats s = (r, s')) : b.pick formats s = (r, s') := by
    rw [hprobes, h]
  cases h with
  | unnamed named stops => exact read_of_unnamed named stops
  | nowhere named misses => exact read_of_none named (hpick (probe_of_misses misses))
  | unanswered named misses asked stops =>
      obtain ⟨r, hr, hstops⟩ := stops.through
      exact read_of_unpicked named (hpick (probe_of_stops misses asked hr _)) hstops
  | taken named misses hit read =>
      exact read_of_some named (hpick (probe_of_hit misses hit _)) read

/-- Only content that was taken is there to be spelt out. -/
theorem Course.exists_read {payload : Payload}
    (h : b.Course kind d calls (.done (some payload)) d₁) :
    ∃ before f, calls = before ++ [.read f] := by
  -- no other course ends with content
  generalize hr : Outcome.done (some payload) = r at h
  cases h with
  | unnamed named stops => exact absurd hr.symm (stops.ne_done _)
  | nowhere named misses => cases hr
  | unanswered named misses asked stops => exact absurd hr.symm (stops.ne_done _)
  | taken named misses hit read => exact ⟨_, _, rfl⟩

section Logging

variable {log : σ → List Call}

theorem resolve_logged (hlog : b.Logs log) (kind : Kind) (d : Host σ) :
    log (b.resolve kind d).2.world = log d.world ++ b.naming kind d := by
  cases hkept : d.registry.find? b.name kind with
  | some formats => simp [resolve_of_find? hkept, naming, hkept]
  | none =>
      have hasked := hlog.formatsFor kind d.world
      rcases hrun : b.formatsFor kind d.world with ⟨formats | e | _, w⟩ <;> rw [hrun] at hasked
      · by_cases hempty : formats = []
        · subst hempty
          simpa [resolve_of_empty hkept hrun, naming, hkept] using hasked
        · simpa [resolve_of_formats hkept hrun hempty, naming, hkept] using hasked
      · simpa [resolve_of_failed hkept hrun, naming, hkept] using hasked
      · simpa [resolve_of_unwound hkept hrun, naming, hkept] using hasked

theorem misses_logged {offers : Format.Id → Action σ Failure Bool}
    (hoffers : ∀ id s, log (offers id s).2 = log s ++ [.offers id]) {formats : List Format}
    {s s₁ : σ} (h : Misses offers formats s s₁) : log s₁ = log s ++ questions formats := by
  induction h with
  | nil s => exact (List.append_nil _).symm
  | @cons f rest s s₁ s₂ first others ih =>
      have hone := hoffers f.id s
      rw [first] at hone
      rw [ih, hone, List.append_assoc]
      rfl

/-- The calls of a course are the ones that are made, in this order. -/
theorem Course.logged (hlog : b.Logs log)
    (hoffers : ∀ id s, log (b.offers id s).2 = log s ++ [.offers id])
    (h : b.Course kind d calls o d₁) : log d₁.world = log d.world ++ calls := by
  have hnaming := resolve_logged hlog kind d
  cases h with
  | unnamed named stops =>
      rw [named] at hnaming
      exact hnaming
  | nowhere named misses =>
      rw [named] at hnaming
      rw [misses_logged hoffers misses, hnaming, List.append_assoc]
  | @unanswered before after f o r d₁ w w' named misses asked stops =>
      have hlast := hoffers f.id w
      rw [named] at hnaming
      rw [asked] at hlast
      simp [hlast, misses_logged hoffers misses, hnaming, questions]
  | @taken before after f o d₁ w w' w'' named misses hit read =>
      have hquestion := hoffers f.id w
      have htake := hlog.read f w'
      rw [named] at hnaming
      rw [hit] at hquestion
      rw [read] at htake
      simp [htake, hquestion, misses_logged hoffers misses, hnaming, questions]

end Logging

end Backend

/-- A memory of formats in which there is a format under every name. -/
def Registry.Filled (r : Registry) : Prop := ∀ e ∈ r.entries, e.2 ≠ []

theorem Registry.Filled.find? {r : Registry} (hr : r.Filled) {name : String} {kind : Kind}
    {formats : List Format} (h : r.find? name kind = some formats) : formats ≠ [] := by
  obtain ⟨e, he, rfl⟩ := Option.map_eq_some_iff.mp h
  exact hr e (List.mem_of_find?_eq_some he)

/-- No answer without a format is given or remembered. -/
theorem Backend.resolve_filled {b : Backend σ} {kind : Kind} {d d₁ : Host σ}
    {o : Outcome Failure (List Format)} (hd : d.registry.Filled)
    (h : b.resolve kind d = (o, d₁)) :
    d₁.registry.Filled ∧ ∀ formats, o = .done formats → formats ≠ [] := by
  cases hkept : d.registry.find? b.name kind with
  | some kept =>
      rw [resolve_of_find? hkept] at h
      cases h
      exact ⟨hd, fun formats hf => Outcome.done.inj hf ▸ hd.find? hkept⟩
  | none =>
      rcases hrun : b.formatsFor kind d.world with ⟨formats | e | _, w⟩
      · by_cases hempty : formats = []
        · rw [resolve_of_empty hkept (hempty ▸ hrun)] at h
          cases h
          exact ⟨hd, nofun⟩
        · rw [resolve_of_formats hkept hrun hempty] at h
          cases h
          refine ⟨?_, fun _ hf => Outcome.done.inj hf ▸ hempty⟩
          intro e he
          rcases List.mem_append.mp he with hold | hnew
          · exact hd e hold
          · rw [List.mem_singleton.mp hnew]
            exact hempty
      · rw [resolve_of_failed hkept hrun] at h
        cases h
        exact ⟨hd, nofun⟩
      · rw [resolve_of_unwound hkept hrun] at h
        cases h
        exact ⟨hd, nofun⟩

namespace Board

/-- A session that is given access comes to what its body comes to and what the releasing makes
of that. -/
theorem session_eq_released {c : Board σ} {body : Handle σ → Action (Host σ) AccessError α}
    {d d₀ d₁ : Host σ} {o : Outcome AccessError α}
    (hopen : c.backend.openHandle c.policy d = (.done ⟨c.backend, true⟩, d₀))
    (hbody : body ⟨c.backend, true⟩ d₀ = (o, d₁)) :
    c.session body d = c.backend.released o d₁ := by
  rw [session, bind_done hopen, thenAlways, hbody, Handle.dispose_open]
  dsimp only
  rw [Host.on_apply, Backend.released]
  rcases c.backend.release d₁.world with ⟨_ | e | _, w⟩
  · rfl
  · exact e.elim
  · rfl

end Board

namespace Backend

/-- A result that ends in an error is the body's, and the backend was released. -/
theorem released_eq_failed {b : Backend σ} {o : Outcome AccessError α} {d : Host σ}
    {e : AccessError} :
    (b.released o d).1 = .failed e ↔ o = .failed e ∧ (b.release d.world).1 = .done () := by
  unfold released
  rcases b.release d.world with ⟨_ | e | _, w⟩
  · simp
  · exact e.elim
  · simp

end Backend

open Backend in
/-- **The first step that does not lead on decides a reading.**  Once a clipboard has been opened
that looks for formats by asking about one after the other, reading content of a kind takes one
course, whatever its backend answers, and that course tells the calls that are made and the
result.  A kind without formats is a clipboard that was not reached.  No reading fails as writing
does, content is never said to be undecodable, text never to be a missing format, and text is
undecodable exactly when octets were taken that spell no text. -/
theorem reading_decided {c : Board σ} (hprobes : c.backend.pick = probe c.backend.offers)
    {d d₀ : Host σ}
    (hopen : c.backend.openHandle c.policy d = (.done ⟨c.backend, true⟩, d₀)) :
    (∀ kind, ∃ calls o d₁, c.backend.Course kind d₀ calls o d₁) ∧
    (∀ kind calls o d₁, c.backend.Course kind d₀ calls o d₁ →
      c.getContents kind d = c.backend.released ((verdict kind o).map (·.bytes)) d₁) ∧
    (∀ calls o d₁, c.backend.Course .text d₀ calls o d₁ →
      c.getText d = c.backend.released (spelling c.backend.convention (verdict .text o)) d₁) ∧
    (∀ kind calls o d₁ log, c.backend.Course kind d₀ calls o d₁ → c.backend.Logs log →
      (∀ id s, log (c.backend.offers id s).2 = log s ++ [.offers id]) →
      log d₁.world = log d₀.world ++ calls) ∧
    (∀ kind w, d₀.registry.find? c.backend.name kind = none →
      c.backend.formatsFor kind d₀.world = (.done [], w) →
      c.backend.Course kind d₀ [.formatsFor kind] (.failed (c.backend.noFormat kind))
        { d₀ with world := w }) ∧
    (d₀.registry.Filled → ∀ kind d₁, c.backend.resolve kind d₀ ≠ (.done [], d₁)) ∧
    (∀ d' kind reason, (c.getContents kind d').1 ≠ .failed (.writeFailed reason) ∧
      (c.getText d').1 ≠ .failed (.writeFailed reason) ∧
      (c.hasText d').1 ≠ .failed (.writeFailed reason) ∧
      ∀ h : Handle σ, (h.offers kind d').1 ≠ .failed (.writeFailed reason) ∧
        (h.read kind d').1 ≠ .failed (.writeFailed reason) ∧
        (h.readText d').1 ≠ .failed (.writeFailed reason) ∧
        (h.hasText d').1 ≠ .failed (.writeFailed reason)) ∧
    (∀ d' kind reason, (c.getContents kind d').1 ≠ .failed (.badEncoding reason)) ∧
    (∀ d' name, (c.getText d').1 ≠ .failed (.formatUnavailable name)) ∧
    ∀ reason, (c.getText d).1 = .failed (.badEncoding reason) ↔
      ∃ calls f payload fault d₁,
        c.backend.Course .text d₀ (calls ++ [.read f]) (.done (some payload)) d₁ ∧
        payload.text c.backend.convention = .error fault ∧ fault.message = reason ∧
        (c.backend.release d₁.world).1 = .done () := by
  have htext : ∀ calls o d₁, c.backend.Course .text d₀ calls o d₁ →
      c.getText d = c.backend.released (spelling c.backend.convention (verdict .text o)) d₁ :=
    fun calls o d₁ hcourse =>
      Board.session_eq_released hopen (readText_of_read (hcourse.read hprobes))
  refine ⟨fun kind => c.backend.exists_course kind d₀, ?contents, htext, ?calls, ?empty, ?filled,
    ?writing, ?undecoded, ?missing, ?faults⟩
  case contents =>
    intro kind calls o d₁ hcourse
    refine Board.session_eq_released hopen ?_
    show ((·.bytes) <$> (⟨c.backend, true⟩ : Handle σ).read kind) d₀ = _
    rw [map_apply, hcourse.read hprobes]
  case calls => exact fun kind calls o d₁ log hcourse hlog hoffers => hcourse.logged hlog hoffers
  case empty =>
    intro kind w hnew hasked
    have hnaming : c.backend.naming kind d₀ = [.formatsFor kind] := by rw [naming, hnew]
    exact hnaming ▸ .unnamed (resolve_of_empty hnew hasked) (.failed _)
  case filled => exact fun hd kind d₁ hnamed => (resolve_filled hd hnamed).2 [] rfl rfl
  case writing =>
    intro d' kind reason
    refine ⟨?_, ?_, recover_ne_failed _ _ d' _, fun h => ⟨?_, ?_, ?_, recover_ne_failed _ _ d' _⟩⟩
    · exact fun hf => (c.getContents_failsWith kind d' _ hf).ne_writeFailed reason rfl
    · exact fun hf => (c.getText_failsWith d' _ hf).ne_writeFailed reason rfl
    · exact fun hf => (h.offers_failsWith kind d' _ hf).ne_writeFailed reason rfl
    · exact fun hf => (h.read_failsWith kind d' _ hf).ne_writeFailed reason rfl
    · exact fun hf => (h.readText_failsWith d' _ hf).ne_writeFailed reason rfl
  case undecoded =>
    exact fun d' kind reason hf => (c.getContents_failsWith kind d' _ hf).ne_badEncoding reason rfl
  case missing =>
    exact fun d' name hf => (c.getText_failsWith d' _ hf).ne_formatUnavailable name rfl
  case faults =>
    intro reason
    constructor
    · intro hf
      obtain ⟨calls, o, d₁, hcourse⟩ := c.backend.exists_course .text d₀
      rw [htext calls o d₁ hcourse, released_eq_failed, spelling_eq_badEncoding] at hf
      obtain ⟨⟨payload, fault, rfl, hfault, hreason⟩, hrel⟩ := hf
      obtain ⟨before, f, rfl⟩ := hcourse.exists_read
      exact ⟨before, f, payload, fault, d₁, hcourse, hfault, hreason, hrel⟩
    · rintro ⟨calls, f, payload, fault, d₁, hcourse, hfault, hreason, hrel⟩
      rw [htext _ _ d₁ hcourse, released_eq_failed, spelling_eq_badEncoding]
      exact ⟨⟨payload, fault, rfl, hfault, hreason⟩, hrel⟩

/-- A part with three formats of text. -/
def Rehearsal.manyFormats : Part where
  name := "many"
  textFormats :=
    [⟨.named "first", .utf8, true⟩, ⟨.named "second", .utf8, true⟩, ⟨.named "third", .utf8, true⟩]

/-- An octet that begins no text, on offer in the second and the third of them. -/
def Rehearsal.garbled : Rehearsal where
  entries := [(.named "second", [0xFF]), (.named "third", [0x61])]

theorem reading_decided_garbled :
    let c : Board Rehearsal := { backend := Rehearsal.backend Rehearsal.manyFormats }
    let d : Host Rehearsal := { world := Rehearsal.garbled }
    (∃ fault : TextFault, (c.getText d).1 = .failed (.badEncoding fault.message)) ∧
      (c.getContents .text d).1 = .done [0xFF] ∧
      ∃ calls o d₁, c.backend.Course .text (c.backend.openHandle c.policy d).2 calls o d₁ ∧
        d₁.world.calls = [.acquire, .formatsFor .text, .offers (.named "first"),
          .offers (.named "second"), .read ⟨.named "second", .utf8, true⟩] := by
  intro c d
  have hopen : c.backend.openHandle c.policy d =
      (.done ⟨c.backend, true⟩, (c.backend.openHandle c.policy d).2) := rfl
  have hnamed : c.backend.resolve .text (c.backend.openHandle c.policy d).2 =
      (.done ([⟨.named "first", .utf8, true⟩] ++ ⟨.named "second", .utf8, true⟩ ::
        [⟨.named "third", .utf8, true⟩]), _) := rfl
  have hcourse : c.backend.Course .text (c.backend.openHandle c.policy d).2 _ _ _ :=
    .taken hnamed (.cons rfl (.nil _)) rfl rfl
  obtain ⟨-, hcontents, -, hcalls, -, -, -, -, -, hfaults⟩ := reading_decided rfl hopen
  refine ⟨⟨_, (hfaults _).mpr ⟨_, _, _, _, _, hcourse, rfl, rfl, rfl⟩⟩, ?_, _, _, _, hcourse, ?_⟩
  · rw [hcontents _ _ _ _ hcourse]
    rfl
  · exact hcalls _ _ _ _ _ hcourse (Rehearsal.backend_logs _) fun id =>
      Rehearsal.play_calls fun _ => rfl

end Clipboard
