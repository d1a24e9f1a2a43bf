import Mathlib.Data.List.Forall2
import Clipboard.Proofs.Session.Access
import Clipboard.Proofs.Session.Calls
import Clipboard.Proofs.Session.Operations

/-!
# Visits to a clipboard

A visit is a session as its backend sees it.  A program gains access, makes any
moves it likes on the handle, which it may also close by hand and close again, and
lets go of the handle at the end, be it that it is done, that a move has failed or
that it unwinds.  Whatever the moves come to, they are a list in the end, so that
what holds for all lists of moves holds for every program.

* `Turn.Fits`: what a move asks of the backend, on an open handle and on a closed one;
* `make_fits`, `turns_fit`: one move and any moves on a handle;
* `opening_logs`: the tries of an opening;
* `visits_orderly`: every visit acquires the backend, works on it and releases it
  once, and asks nothing of it after that;
* `perform_visits`: every operation of a clipboard is a visit.
-/

namespace Clipboard

variable {σ α : Type}

/-- A use of a handle. -/
inductive Use where
  | offers (kind : Kind)
  | read (kind : Kind)
  | write (kind : Kind) (bytes : Octets)
  | readText
  | writeText (text : String)
  | clear
  deriving DecidableEq, Repr

namespace Use

/-- The call that it is, whose answer does not matter here. -/
def run (h : Handle σ) : Use → Action (Host σ) AccessError Unit
  | offers kind => (fun _ => ()) <$> h.offers kind
  | read kind => (fun _ => ()) <$> h.read kind
  | write kind bytes => h.write kind bytes
  | readText => (fun _ => ()) <$> h.readText
  | writeText text => h.writeText text
  | clear => h.clear

/-- How often it may change the content. -/
def changes : Use → Nat
  | write _ _ => 1
  | writeText _ => 1
  | clear => 1
  | _ => 0

end Use

/-- A move on a handle. -/
inductive Move where
  | use (u : Use)
  | close
  deriving DecidableEq, Repr

/-- A move that was made, what it came to, and what was asked of the backend. -/
structure Turn where
  move : Move
  outcome : Outcome AccessError Unit
  calls : List Call

/-- What was asked between two states. -/
def callsSince (log : σ → List Call) (d d' : Host σ) : List Call :=
  (log d'.world).drop (log d.world).length

/-- A move, with the handle and the state after it. -/
def Move.make (log : σ → List Call) (h : Handle σ) (d : Host σ) :
    Move → Turn × Handle σ × Host σ
  | .use u => (⟨.use u, (u.run h d).1, callsSince log d (u.run h d).2⟩, h, (u.run h d).2)
  | .close =>
    match h.close d with
    | (.done h', d') => (⟨.close, .done (), callsSince log d d'⟩, h', d')
    | (_, d') => (⟨.close, .unwound, callsSince log d d'⟩, h, d')

/-- Moves one after the other, whatever each comes to. -/
def Handle.turns (log : σ → List Call) : List Move → Handle σ → Host σ →
    List Turn × Handle σ × Host σ
  | [], h, d => ([], h, d)
  | m :: rest, h, d =>
    let first := m.make log h d
    let others := turns log rest first.2.1 first.2.2
    (first.1 :: others.1, others.2)

/-- What was asked of a backend in a session. -/
structure Visit where
  /-- While access was sought. -/
  opening : List Call
  /-- What the last try came to. -/
  last : Outcome Failure Unit
  turns : List Turn
  /-- While the handle was let go of. -/
  parting : List Call

/-- All that was asked, in order. -/
def Visit.calls (v : Visit) : List Call := v.opening ++ v.turns.flatMap (·.calls) ++ v.parting

namespace Backend

/-- A session with some moves, and the state after it.  Without access there is no
handle to make them on or to let go of. -/
def visit (b : Backend σ) (log : σ → List Call) (p : Policy) (moves : List Move) (d : Host σ) :
    Visit × Host σ :=
  let last := (b.opening p d.world).1.last
  match b.openHandle p d with
  | (.done h, d₁) =>
    let (turns, h', d₂) := h.turns log moves d₁
    let d₃ := (h'.dispose d₂).2
    (⟨callsSince log d d₁, last, turns, callsSince log d₂ d₃⟩, d₃)
  | (_, d₁) => (⟨callsSince log d d₁, last, [], []⟩, d₁)

/-- Sessions one after the other, each under a policy of its own. -/
def visits (b : Backend σ) (log : σ → List Call) : List (Policy × List Move) → Host σ →
    List Visit × Host σ
  | [], d => ([], d)
  | (p, moves) :: rest, d =>
    let first := b.visit log p moves d
    let others := b.visits log rest first.2
    (first.1 :: others.1, others.2)

end Backend

/-- What a visit with some moves under a policy asks of the backend. -/
structure Visit.Orderly (v : Visit) (p : Policy) (moves : List Move) : Prop where
  /-- Access is tried for once at least, and as often as the policy allows at most. -/
  opening : ∃ n, 1 ≤ n ∧ n ≤ max 1 p.attempts ∧ v.opening = List.replicate n .acquire
  /-- With access, all moves are made, and a single release ends all work. -/
  granted : v.last = .done () → v.turns.map (·.move) = moves ∧
    ∃ work, (∀ c ∈ work, c.isWork = true) ∧
      v.turns.flatMap (·.calls) ++ v.parting = work ++ [.release]
  /-- Without access, nothing follows. -/
  refused : v.last ≠ .done () → v.turns = [] ∧ v.parting = []
  /-- Once closed, a handle refuses every use and asks nothing any more. -/
  closed : ∀ before after, v.turns = before ++ after → .close ∈ before.map (·.move) →
    v.parting = [] ∧
      ∀ t ∈ after, t.calls = [] ∧ (t.move ≠ .close → t.outcome = .failed .closed)
  /-- No use changes the content more often than it may. -/
  changes : ∀ t ∈ v.turns, ∀ u, t.move = .use u → t.calls.countP (·.changes) ≤ u.changes

/-- What a move asks on a handle that is open or not, and whether it is open after. -/
inductive Turn.Fits : Bool → Turn → Bool → Prop
  | work {t : Turn} {u : Use} (hmove : t.move = .use u) (hwork : ∀ c ∈ t.calls, c.isWork = true)
      (hchanges : t.calls.countP (·.changes) ≤ u.changes) : Fits true t true
  | close {t : Turn} (hmove : t.move = .close) (hcalls : t.calls = [.release]) : Fits true t false
  | refused {t : Turn} {u : Use} (hmove : t.move = .use u) (hcalls : t.calls = [])
      (houtcome : t.outcome = .failed .closed) : Fits false t false
  | idle {t : Turn} (hmove : t.move = .close) (hcalls : t.calls = []) : Fits false t false

/-- Moves that fit one after the other. -/
inductive Fit : Bool → List Turn → Bool → Prop
  | nil {o : Bool} : Fit o [] o
  | cons {o o₁ o₂ : Bool} {t : Turn} {rest : List Turn} (first : t.Fits o o₁)
      (others : Fit o₁ rest o₂) : Fit o (t :: rest) o₂

namespace Fit

variable {o o' : Bool} {ts : List Turn}

theorem changes (h : Fit o ts o') :
    ∀ t ∈ ts, ∀ u, t.move = .use u → t.calls.countP (·.changes) ≤ u.changes := by
  induction h with
  | nil => simp
  | cons first others ih =>
      refine List.forall_mem_cons.mpr ⟨?_, ih⟩
      intro u hu
      cases first with
      | work hmove hwork hchanges =>
          rw [hmove] at hu
          cases hu
          exact hchanges
      | close hmove hcalls => simp [hmove] at hu
      | refused hmove hcalls houtcome => simp [hcalls]
      | idle hmove hcalls => simp [hmove] at hu

/-- A closed handle stays closed and refuses every use. -/
theorem closed (h : Fit false ts o') :
    o' = false ∧ ts.flatMap (·.calls) = [] ∧
      ∀ t ∈ ts, t.calls = [] ∧ (t.move ≠ .close → t.outcome = .failed .closed) := by
  induction ts with
  | nil =>
      cases h
      exact ⟨rfl, rfl, by simp⟩
  | cons t rest ih =>
      cases h with
      | cons first others =>
          cases first with
          | refused hmove hcalls houtcome =>
              obtain ⟨hclosed, hnone, hrest⟩ := ih others
              refine ⟨hclosed, by simp [hcalls, hnone], List.forall_mem_cons.mpr ⟨?_, hrest⟩⟩
              exact ⟨hcalls, fun _ => houtcome⟩
          | idle hmove hcalls =>
              obtain ⟨hclosed, hnone, hrest⟩ := ih others
              refine ⟨hclosed, by simp [hcalls, hnone], List.forall_mem_cons.mpr ⟨?_, hrest⟩⟩
              exact ⟨hcalls, fun hne => absurd hmove hne⟩

/-- Work is done, and a release ends it if the handle is closed at the end. -/
theorem work (h : Fit true ts o') :
    ∃ work, (∀ c ∈ work, c.isWork = true) ∧
      ts.flatMap (·.calls) = work ++ if o' then [] else [.release] := by
  induction ts with
  | nil =>
      cases h
      exact ⟨[], by simp, rfl⟩
  | cons t rest ih =>
      cases h with
      | cons first others =>
          cases first with
          | work hmove hwork hchanges =>
              obtain ⟨work, hall, hcalls⟩ := ih others
              refine ⟨t.calls ++ work, ?_, ?_⟩
              · intro c hc
                rcases List.mem_append.mp hc with hc | hc
                · exact hwork c hc
                · exact hall c hc
              · rw [List.flatMap_cons, hcalls, List.append_assoc]
          | close hmove hcalls =>
              obtain ⟨rfl, hnone, -⟩ := others.closed
              exact ⟨[], by simp, by rw [List.flatMap_cons, hcalls, hnone]; rfl⟩

/-- Once it has been closed, a handle stays closed and refuses every use. -/
theorem after_close {before after : List Turn} (h : Fit o (before ++ after) o')
    (hclose : .close ∈ before.map (·.move)) :
    o' = false ∧ ∀ t ∈ after, t.calls = [] ∧ (t.move ≠ .close → t.outcome = .failed .closed) := by
  induction before generalizing o with
  | nil => simp at hclose
  | cons t before ih =>
      cases h with
      | cons first others =>
          rcases List.mem_cons.mp hclose with hfirst | hlater
          · have hshut : Fit false (before ++ after) o' := by
              cases first with
              | work hmove _ _ => exact absurd (hfirst.trans hmove) (by simp)
              | close _ _ => exact others
              | refused hmove _ _ => exact others
              | idle _ _ => exact others
            obtain ⟨hclosed, -, hall⟩ := hshut.closed
            exact ⟨hclosed, fun t ht => hall t (List.mem_append_right _ ht)⟩
          · exact ih others hlater

/-- Moves that fit on an open handle make a visit orderly, with a release at the end
if none of them has closed it. -/
theorem orderly {p : Policy} {k : Nat} (hpos : 1 ≤ k) (hle : k ≤ p.tries) (h : Fit true ts o) :
    (⟨List.replicate k .acquire, .done (), ts, if o then [.release] else []⟩ : Visit).Orderly p
      (ts.map (·.move)) := by
  obtain ⟨work, hwork, hcalls⟩ := h.work
  refine ⟨⟨k, hpos, hle, rfl⟩, fun _ => ⟨rfl, work, hwork, ?_⟩, fun hnot => absurd rfl hnot, ?_,
    h.changes⟩
  · dsimp only
    rw [hcalls]
    cases o <;> simp
  · intro before after hsplit hclose
    dsimp only at hsplit
    rw [hsplit] at h
    obtain ⟨rfl, hall⟩ := h.after_close hclose
    exact ⟨rfl, hall⟩

end Fit

/-- A visit that comes to no access is orderly if it was tried for often enough. -/
theorem orderly_of_shut {p : Policy} {moves : List Move} {k : Nat} {last : Outcome Failure Unit}
    (hpos : 1 ≤ k) (hle : k ≤ p.tries) (hlast : last ≠ .done ()) :
    (⟨List.replicate k .acquire, last, [], []⟩ : Visit).Orderly p moves := by
  refine ⟨⟨k, hpos, hle, rfl⟩, fun hdone => absurd hdone hlast, fun _ => ⟨rfl, rfl⟩, ?_, ?_⟩
  · intro before after hsplit hclose
    obtain ⟨rfl, -⟩ := List.append_eq_nil_iff.mp hsplit.symm
    simp at hclose
  · intro t ht
    simp at ht

section Visits

variable {b : Backend σ} {log : σ → List Call} (hlog : b.Logs log)

theorem callsSince_of_append {d d' : Host σ} {calls : List Call}
    (h : log d'.world = log d.world ++ calls) : callsSince log d d' = calls := by
  rw [callsSince, h, List.drop_left]

theorem Use.run_of_closed (u : Use) (d : Host σ) :
    u.run ⟨b, false⟩ d = (.failed .closed, d) := by
  cases u <;> rfl

include hlog

theorem asks_run (u : Use) (o : Bool) : Asks log u.changes (u.run (⟨b, o⟩ : Handle σ)) := by
  cases u with
  | offers kind => exact (asks_offers hlog o kind).map _
  | read kind => exact (asks_read hlog o kind).map _
  | write kind bytes => exact asks_write hlog o kind bytes
  | readText => exact (asks_readText hlog o).map _
  | writeText text => exact asks_writeText hlog o text
  | clear => exact asks_clear hlog o

/-- Every try of an opening acquires the backend once. -/
theorem openingFrom_logs (p : Policy) (n left : Nat) (s : σ) :
    ∃ k, 1 ≤ k ∧ k ≤ left + 1 ∧
      log (b.openingFrom p n left s).2 = log s ++ List.replicate k .acquire := by
  induction left generalizing n s with
  | zero => exact ⟨1, Nat.le_refl 1, Nat.le_refl 1, hlog.acquire s⟩
  | succ left ih =>
      have hfirst := hlog.acquire s
      rw [Backend.openingFrom]
      rcases hacq : b.acquire s with ⟨a | e | _, s'⟩ <;> rw [hacq] at hfirst
      · exact ⟨1, Nat.le_refl 1, by omega, hfirst⟩
      · cases e with
        | busy reason =>
            obtain ⟨k, hpos, hle, hrest⟩ := ih (n + 1) s'
            refine ⟨k + 1, by omega, by omega, ?_⟩
            dsimp only
            rw [hrest, hfirst, List.append_assoc, List.replicate_succ]
            rfl
        | _ => exact ⟨1, Nat.le_refl 1, by omega, hfirst⟩
      · exact ⟨1, Nat.le_refl 1, by omega, hfirst⟩

variable (hrel : ∀ s, (b.release s).1 = .done ())

include hrel

/-- One move on a handle. -/
theorem make_fits (m : Move) (o : Bool) (d : Host σ) :
    ∃ t o' d', m.make log ⟨b, o⟩ d = (t, ⟨b, o'⟩, d') ∧ t.Fits o o' ∧ t.move = m ∧
      log d'.world = log d.world ++ t.calls := by
  cases m with
  | use u =>
      cases o with
      | true =>
          obtain ⟨calls, hcalls, hwork, hchanges⟩ := asks_run hlog u true d
          have hsince := callsSince_of_append hcalls
          refine ⟨_, true, _, rfl, .work rfl ?_ ?_, rfl, ?_⟩
          · rw [hsince]
            exact hwork
          · rw [hsince]
            exact hchanges
          · rw [hsince]
            exact hcalls
      | false =>
          have hrun : u.run ⟨b, false⟩ d = (.failed .closed, d) := u.run_of_closed d
          have hnone : callsSince log d d = [] := callsSince_of_append (List.append_nil _).symm
          refine ⟨⟨.use u, .failed .closed, []⟩, false, d, ?_, .refused rfl rfl rfl, rfl,
            (List.append_nil _).symm⟩
          rw [Move.make, hrun, hnone]
  | close =>
      cases o with
      | true =>
          have hclose := Handle.close_of_release (h := ⟨b, true⟩) (d := d)
            (w := (b.release d.world).2) rfl (Prod.ext (hrel d.world) rfl)
          have hcalls := hlog.release d.world
          refine ⟨⟨.close, .done (), [.release]⟩, false, { d with world := (b.release d.world).2 },
            ?_, .close rfl rfl, rfl, hcalls⟩
          rw [Move.make, hclose]
          dsimp only
          rw [callsSince_of_append hcalls]
      | false =>
          have hnone : callsSince log d d = [] := callsSince_of_append (List.append_nil _).symm
          refine ⟨⟨.close, .done (), []⟩, false, d, ?_, .idle rfl rfl, rfl,
            (List.append_nil _).symm⟩
          rw [Move.make, Handle.close_of_closed rfl]
          dsimp only
          rw [hnone]

/-- Any moves on a handle.  `Fit` carries whether the handle is open, and the list of
calls grows by what each turn asks. -/
theorem turns_fit (moves : List Move) (o : Bool) (d : Host σ) :
    ∃ ts o' d', Handle.turns log moves ⟨b, o⟩ d = (ts, ⟨b, o'⟩, d') ∧ Fit o ts o' ∧
      ts.map (·.move) = moves ∧ log d'.world = log d.world ++ ts.flatMap (·.calls) := by
  induction moves generalizing o d with
  | nil => exact ⟨[], o, d, rfl, .nil, rfl, (List.append_nil _).symm⟩
  | cons m rest ih =>
      obtain ⟨t, o₁, d₁, hmake, hfits, hmove, hlogged⟩ := make_fits hlog hrel m o d
      obtain ⟨ts, o₂, d₂, hturns, hfit, hmoves, hlogged'⟩ := ih o₁ d₁
      refine ⟨t :: ts, o₂, d₂, ?_, .cons hfits hfit, ?_, ?_⟩
      · rw [Handle.turns, hmake]
        dsimp only
        rw [hturns]
      · rw [List.map_cons, hmove, hmoves]
      · rw [hlogged', hlogged, List.flatMap_cons, List.append_assoc]

theorem dispose_logs (o : Bool) (d : Host σ) :
    log ((⟨b, o⟩ : Handle σ).dispose d).2.world =
      log d.world ++ if o then [.release] else [] := by
  cases o with
  | true =>
      rw [Handle.dispose_of_release rfl (Prod.ext (hrel d.world) rfl)]
      exact hlog.release d.world
  | false =>
      rw [Handle.dispose_of_closed rfl]
      exact (List.append_nil _).symm

omit hrel in
theorem opening_logs (p : Policy) (d : Host σ) :
    ∃ k, 1 ≤ k ∧ k ≤ p.tries ∧
      log (b.opening p d.world).2 = log d.world ++ List.replicate k .acquire := by
  obtain ⟨k, hpos, hle, hopening⟩ := openingFrom_logs hlog p 1 (p.tries - 1) d.world
  have htries : 1 ≤ p.tries := Nat.le_max_left 1 p.attempts
  exact ⟨k, hpos, by omega, hopening⟩

/-- A visit that is given access: its moves are made on an open handle. -/
theorem visit_of_open {p : Policy} {moves : List Move} {d : Host σ}
    (hlast : (b.opening p d.world).1.last = .done ()) :
    log (b.visit log p moves d).2.world = log d.world ++ (b.visit log p moves d).1.calls ∧
      (b.visit log p moves d).1.Orderly p moves := by
  obtain ⟨k, hpos, hle, hopening⟩ := opening_logs hlog p d
  rcases hrun : b.opening p d.world with ⟨⟨n, pauses, last⟩, w⟩
  rw [hrun] at hlast hopening
  dsimp only at hlast hopening
  subst hlast
  have hopen := Backend.openHandle_of_granted hrun
  obtain ⟨ts, o, d₂, hturns, hfit, hmoves, hlogged⟩ :=
    turns_fit hlog hrel moves true { d with world := w }
  have hparting := dispose_logs hlog hrel o d₂
  have hsince : callsSince log d { d with world := w } = List.replicate k .acquire :=
    callsSince_of_append hopening
  have hvisit : b.visit log p moves d =
      (⟨List.replicate k .acquire, .done (), ts, if o then [.release] else []⟩,
        ((⟨b, o⟩ : Handle σ).dispose d₂).2) := by
    rw [Backend.visit, hrun, hopen]
    dsimp only
    rw [hturns]
    dsimp only
    rw [callsSince_of_append hparting, hsince]
  rw [hvisit, ← hmoves]
  refine ⟨?_, hfit.orderly hpos hle⟩
  dsimp only [Visit.calls]
  rw [hparting, hlogged, hopening, List.append_assoc, List.append_assoc, List.append_assoc]

omit hrel in
/-- A visit that is not: nothing follows the tries. -/
theorem visit_of_shut {p : Policy} {moves : List Move} {d : Host σ}
    (hlast : (b.opening p d.world).1.last ≠ .done ()) :
    log (b.visit log p moves d).2.world = log d.world ++ (b.visit log p moves d).1.calls ∧
      (b.visit log p moves d).1.Orderly p moves := by
  obtain ⟨k, hpos, hle, hopening⟩ := opening_logs hlog p d
  rcases hrun : b.opening p d.world with ⟨⟨n, pauses, last⟩, w⟩
  rw [hrun] at hlast hopening
  dsimp only at hlast hopening
  have hvisit : b.visit log p moves d =
      (⟨List.replicate k .acquire, last, [], []⟩, { d with world := w }) := by
    have hsince : callsSince log d { d with world := w } = List.replicate k .acquire :=
      callsSince_of_append hopening
    cases last with
    | done u => exact absurd rfl hlast
    | failed e => simp [Backend.visit, Backend.openHandle, hrun, hsince]
    | unwound => simp [Backend.visit, Backend.openHandle, hrun, hsince]
  rw [hvisit]
  refine ⟨?_, orderly_of_shut hpos hle hlast⟩
  simpa [Visit.calls] using hopening

theorem visit_orderly (p : Policy) (moves : List Move) (d : Host σ) :
    log (b.visit log p moves d).2.world = log d.world ++ (b.visit log p moves d).1.calls ∧
      (b.visit log p moves d).1.Orderly p moves := by
  by_cases hlast : (b.opening p d.world).1.last = .done ()
  · exact visit_of_open hlog hrel hlast
  · exact visit_of_shut hlog hlast

/-- **Every session is orderly.**  Take a backend that notes down its calls, as every
one can be made to, and whose releasing never unwinds, whatever else fails or
unwinds.  Any sessions with any moves ask it for nothing outside their visits, and
each visit is orderly. -/
theorem visits_orderly (sessions : List (Policy × List Move)) (d : Host σ) :
    log (b.visits log sessions d).2.world =
        log d.world ++ (b.visits log sessions d).1.flatMap (·.calls) ∧
      List.Forall₂ (fun s v => v.Orderly s.1 s.2) sessions (b.visits log sessions d).1 := by
  induction sessions generalizing d with
  | nil => exact ⟨(List.append_nil _).symm, .nil⟩
  | cons s rest ih =>
      obtain ⟨p, moves⟩ := s
      obtain ⟨hcalls, horderly⟩ := visit_orderly hlog hrel p moves d
      obtain ⟨hcalls', horderly'⟩ := ih (b.visit log p moves d).2
      refine ⟨?_, .cons horderly horderly'⟩
      rw [Backend.visits, List.flatMap_cons, ← List.append_assoc, ← hcalls]
      exact hcalls'

end Visits

/-- A rehearsed backend that cannot be told to unwind when it is released. -/
def steadfast : Backend Rehearsal :=
  { Rehearsal.backend ⟨"steadfast", .service, .unix, [⟨.named "t", .utf8, true⟩], none⟩ with
    release := Action.update fun s => { s with calls := s.calls ++ [.release] } }

/-- One that is busy at first and unwinds when it is read, in a session that is closed
by hand and gone on with, and in one after it. -/
theorem visits_orderly_steadfast :
    let sessions : List (Policy × List Move) :=
      [({ attempts := 2 }, [.use .readText, .close, .use .clear, .close]),
        ({}, [.use (.writeText "a")])]
    let start : Host Rehearsal :=
      { world := {
          entries := [(.named "t", [0x61])]
          reactions := fun c => if c = .acquire then [.fail (.busy "x")]
            else if c = .read then [.unwind] else [] } }
    (∀ s, (steadfast.release s).1 = .done ()) ∧ steadfast.Logs (·.calls) ∧
      (steadfast.visits (·.calls) sessions start).2.world.calls =
        [.acquire, .acquire, .formatsFor .text, .offers (.named "t"),
          .read ⟨.named "t", .utf8, true⟩, .release,
          .acquire, .write [(⟨.named "t", .utf8, true⟩, ⟨[0x61], .utf8⟩)], .release] ∧
      List.Forall₂ (fun s v => v.Orderly s.1 s.2) sessions
        (steadfast.visits (·.calls) sessions start).1 := by
  intro sessions start
  have hrel : ∀ s, (steadfast.release s).1 = .done () := fun _ => rfl
  have hlog : steadfast.Logs (·.calls) :=
    { Rehearsal.backend_logs ⟨"steadfast", .service, .unix, [⟨.named "t", .utf8, true⟩], none⟩ with
      release := fun _ => rfl }
  refine ⟨hrel, hlog, ?_, (visits_orderly hlog hrel sessions start).2⟩
  decide +kernel

section Operations

variable {b : Backend σ} {log : σ → List Call} (hrel : ∀ s, (b.release s).1 = .done ())

include hrel

/-- A session whose body leaves what some moves leave is a visit with these. -/
theorem session_visits (p : Policy) (body : Handle σ → Action (Host σ) AccessError α)
    (hbody : ∀ d₁, ∃ moves, (Handle.turns log moves ⟨b, true⟩ d₁).2 =
      (⟨b, true⟩, (body ⟨b, true⟩ d₁).2)) (d : Host σ) :
    ∃ moves, ((⟨b, p⟩ : Board σ).session body d).2 = (b.visit log p moves d).2 := by
  rcases hrun : b.opening p d.world with ⟨⟨n, pauses, last⟩, w⟩
  cases last with
  | done u =>
      have hopen := Backend.openHandle_of_granted hrun
      obtain ⟨moves, hturns⟩ := hbody { d with world := w }
      rcases hmade : Handle.turns log moves ⟨b, true⟩ { d with world := w } with ⟨ts, h', d₂⟩
      rw [hmade] at hturns
      obtain ⟨rfl, rfl⟩ := Prod.mk.inj hturns
      refine ⟨moves, ?_⟩
      have hlast : (⟨b, true⟩ : Handle σ).dispose (body ⟨b, true⟩ { d with world := w }).2 = _ :=
        Handle.dispose_of_release rfl (Prod.ext (hrel _) rfl)
      rw [Board.session, Action.bind_done hopen, Action.thenAlways_done hlast, Backend.visit, hopen]
      dsimp only
      rw [hmade]
      dsimp only
      rw [hlast]
  | failed e =>
      refine ⟨[], ?_⟩
      have hopen : b.openHandle p d =
          (.failed (.acquireFailed n e.message), { d with world := w }) := by
        rw [Backend.openHandle, hrun]
      rw [Board.session_of_failed hopen, Backend.visit, hopen]
  | unwound =>
      refine ⟨[], ?_⟩
      have hopen : b.openHandle p d = (.unwound, { d with world := w }) := by
        rw [Backend.openHandle, hrun]
      rw [Board.session, Action.bind_unwound hopen, Backend.visit, hopen]

theorem session_visits_use (p : Policy) (body : Handle σ → Action (Host σ) AccessError α) (u : Use)
    (hbody : ∀ d₁, (body ⟨b, true⟩ d₁).2 = (u.run ⟨b, true⟩ d₁).2) (d : Host σ) :
    ∃ moves, ((⟨b, p⟩ : Board σ).session body d).2 = (b.visit log p moves d).2 := by
  refine session_visits hrel p body (fun d₁ => ⟨[.use u], ?_⟩) d
  rw [hbody d₁]
  rfl

/-- Asking whether there is text is a use that asks for text, and one that reads it
if there is some. -/
theorem hasText_visits (p : Policy) (d : Host σ) :
    ∃ moves, ((⟨b, p⟩ : Board σ).hasText d).2 = (b.visit log p moves d).2 := by
  rw [Board.hasText, Action.recover_snd]
  refine session_visits hrel p _ (fun d₁ => ?_) d
  rw [Handle.hasText, Action.recover_snd, Action.bind_apply]
  have hasked : ((Use.offers .text).run ⟨b, true⟩ d₁).2 =
      ((⟨b, true⟩ : Handle σ).offers .text d₁).2 := Action.map_snd _ _ d₁
  rcases hoffers : (⟨b, true⟩ : Handle σ).offers .text d₁ with ⟨⟨_ | _⟩ | e | _, d₂⟩ <;>
    rw [hoffers] at hasked
  · exact ⟨[.use (.offers .text)], congrArg (Prod.mk _) hasked⟩
  · refine ⟨[.use (.offers .text), .use .readText], congrArg (Prod.mk _) ?_⟩
    show ((Use.readText).run ⟨b, true⟩ ((Use.offers .text).run ⟨b, true⟩ d₁).2).2 = _
    rw [hasked, Use.run, Action.map_snd]
    dsimp only
    rw [if_pos rfl, Action.bind_apply]
    rcases (⟨b, true⟩ : Handle σ).readText d₂ with ⟨text | e | _, d₃⟩ <;> rfl
  · exact ⟨[.use (.offers .text)], congrArg (Prod.mk _) hasked⟩
  · exact ⟨[.use (.offers .text)], congrArg (Prod.mk _) hasked⟩

/-- Every operation of a clipboard is a visit. -/
theorem perform_visits (p : Policy) (op : Operation) (d : Host σ) :
    ∃ moves, (op.perform ⟨b, p⟩ d).2 = (b.visit log p moves d).2 := by
  cases op with
  | setText text =>
      rw [Operation.perform, Action.map_snd]
      exact session_visits_use hrel p _ (.writeText text) (fun _ => rfl) d
  | getText =>
      rw [Operation.perform, Action.map_snd]
      exact session_visits_use hrel p _ .readText (fun d₁ => (Action.map_snd _ _ d₁).symm) d
  | hasText =>
      rw [Operation.perform, Action.map_snd]
      exact hasText_visits hrel p d
  | setContents kind bytes =>
      rw [Operation.perform, Action.map_snd]
      exact session_visits_use hrel p _ (.write kind bytes) (fun _ => rfl) d
  | getContents kind =>
      rw [Operation.perform, Action.map_snd]
      refine session_visits_use hrel p _ (.read kind) (fun d₁ => ?_) d
      rw [bind_pure_comp, Use.run, Action.map_snd, Action.map_snd]
  | clear =>
      rw [Operation.perform, Action.map_snd]
      exact session_visits_use hrel p _ .clear (fun _ => rfl) d

end Operations

end Clipboard
