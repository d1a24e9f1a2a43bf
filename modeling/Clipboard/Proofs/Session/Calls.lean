import Clipboard.Rehearsal
import Clipboard.Session
import Clipboard.Proofs.Actions

/-!
# What is asked of a backend

A backend that keeps a list of its calls shows what is asked of it.  Within a
session that is work alone: it is never acquired or released, and a use of the
handle that writes or clears does so once at most, while one that looks or reads
never does.

* `Backend.traced_logs`: every backend can be made to keep such a list;
* `Asks.bind`: what a sequence of calls asks for;
* `asks_offers`, `asks_read`, `asks_write` and others: what each use of a handle
  asks for.
-/

namespace Clipboard

variable {σ ε δ α β : Type}

namespace Call

/-- What is asked between an acquiring and the releasing after it. -/
def isWork : Call → Bool
  | acquire => false
  | release => false
  | _ => true

/-- What changes the content. -/
def changes : Call → Bool
  | write _ => true
  | clear => true
  | _ => false

/-- What looks for a format. -/
def isSearch : Call → Bool
  | offers _ => true
  | pick _ => true
  | _ => false

theorem isWork_of_isSearch {c : Call} (h : c.isSearch = true) : c.isWork = true := by
  cases c <;> first | rfl | exact absurd h Bool.false_ne_true

theorem changes_of_isSearch {c : Call} (h : c.isSearch = true) : c.changes = false := by
  cases c <;> first | rfl | exact absurd h Bool.false_ne_true

end Call

/-- A backend that notes down every call in a list.  Where it picks a format by
asking about one after the other, it may note down these questions. -/
structure Backend.Logs (b : Backend σ) (log : σ → List Call) : Prop where
  acquire : ∀ s, log (b.acquire s).2 = log s ++ [.acquire]
  release : ∀ s, log (b.release s).2 = log s ++ [.release]
  formatsFor : ∀ kind s, log (b.formatsFor kind s).2 = log s ++ [.formatsFor kind]
  pick : ∀ formats s, ∃ calls, log (b.pick formats s).2 = log s ++ calls ∧
    ∀ c ∈ calls, c.isSearch = true
  read : ∀ f s, log (b.read f s).2 = log s ++ [.read f]
  write : ∀ items s, log (b.write items s).2 = log s ++ [.write items]
  clear : ∀ s, log (b.clear s).2 = log s ++ [.clear]

/-- Every backend can be made to note down its calls. -/
theorem Backend.traced_logs (b : Backend σ) : b.traced.Logs (·.2) where
  acquire _ := rfl
  release _ := rfl
  formatsFor _ _ := rfl
  pick formats _ := ⟨[.pick formats], rfl, by simp [Call.isSearch]⟩
  read _ _ := rfl
  write _ _ := rfl
  clear _ := rfl

/-- Probing notes down the questions that it asks. -/
theorem probe_logs {log : σ → List Call} {offers : Format.Id → Action σ Failure Bool}
    (hoffers : ∀ id s, log (offers id s).2 = log s ++ [.offers id]) (formats : List Format)
    (s : σ) :
    ∃ calls, log (probe offers formats s).2 = log s ++ calls ∧ ∀ c ∈ calls, c.isSearch = true := by
  induction formats generalizing s with
  | nil => exact ⟨[], (List.append_nil _).symm, by simp⟩
  | cons f rest ih =>
      have hfirst := hoffers f.id s
      have hone : ∀ c ∈ [Call.offers f.id], c.isSearch = true := by simp [Call.isSearch]
      rw [probe_cons]
      rcases hrun : offers f.id s with ⟨⟨_ | _⟩ | e | _, s'⟩ <;> rw [hrun] at hfirst
      · obtain ⟨calls, hlog, hsearch⟩ := ih s'
        refine ⟨.offers f.id :: calls, ?_, List.forall_mem_cons.mpr ⟨rfl, hsearch⟩⟩
        dsimp only
        rw [hlog, hfirst, List.append_assoc]
        rfl
      · exact ⟨_, hfirst, hone⟩
      · exact ⟨_, hfirst, hone⟩
      · exact ⟨_, hfirst, hone⟩

theorem Rehearsal.play_calls {cue : Cue} {call : Call} {blank : α}
    {usual : Rehearsal → α × Rehearsal} (husual : ∀ s, (usual s).2.calls = s.calls)
    (s : Rehearsal) : (play cue call blank usual s).2.calls = s.calls ++ [call] := by
  unfold play take
  dsimp only
  cases (s.reactions cue).headD .usual <;> simp [husual]

/-- Rehearsed backends keep such a list by themselves. -/
theorem Rehearsal.backend_logs (part : Part) : (Rehearsal.backend part).Logs (·.calls) where
  acquire := play_calls fun _ => rfl
  release s := by
    unfold backend dismiss take
    dsimp only
    cases (s.reactions .release).headD .usual <;> rfl
  formatsFor _ := play_calls fun _ => rfl
  pick := probe_logs fun _ => play_calls fun _ => rfl
  read _ := play_calls fun _ => rfl
  write _ := play_calls fun _ => rfl
  clear := play_calls fun _ => rfl

/-- A call that asks the backend for work alone, with so many changes at most. -/
def Asks (log : σ → List Call) (changes : Nat) (x : Action (Host σ) ε α) : Prop :=
  ∀ d, ∃ calls, log (x d).2.world = log d.world ++ calls ∧ (∀ c ∈ calls, c.isWork = true) ∧
    calls.countP (·.changes) ≤ changes

section Asks

variable {log : σ → List Call} {n : Nat} {x : Action (Host σ) ε α} {f : α → Action (Host σ) ε β}

theorem asks_nothing (hx : ∀ d, (x d).2.world = d.world) : Asks log n x := by
  intro d
  exact ⟨[], by rw [hx d, List.append_nil], by simp, by simp⟩

theorem asks_pure (a : α) : Asks log n (pure a : Action (Host σ) ε α) := asks_nothing fun _ => rfl

theorem asks_fail (e : ε) : Asks log n (.fail e : Action (Host σ) ε α) := asks_nothing fun _ => rfl

theorem asks_ofExcept (r : Except ε α) : Asks log n (.ofExcept r) := asks_nothing fun _ => rfl

theorem Asks.mapCause (g : ε → δ) (hx : Asks log n x) : Asks log n (x.mapCause g) := hx

theorem Asks.map (g : α → β) (hx : Asks log n x) : Asks log n (g <$> x) := by
  intro d
  rw [Action.map_apply]
  exact hx d

/-- Questions may be asked before anything. -/
theorem Asks.bind (hx : Asks log 0 x) (hf : ∀ a, Asks log n (f a)) : Asks log n (x >>= f) := by
  intro d
  obtain ⟨calls, hlog, hwork, hchanges⟩ := hx d
  rw [Action.bind_apply]
  rcases hrun : x d with ⟨a | e | _, d'⟩ <;> rw [hrun] at hlog
  · obtain ⟨more, hlog', hwork', hchanges'⟩ := hf a d'
    refine ⟨calls ++ more, ?_, ?_, ?_⟩
    · dsimp only
      rw [hlog', hlog, List.append_assoc]
    · intro c hc
      rcases List.mem_append.mp hc with hc | hc
      · exact hwork c hc
      · exact hwork' c hc
    · rw [List.countP_append]
      omega
  · exact ⟨calls, hlog, hwork, Nat.le_trans hchanges (Nat.zero_le n)⟩
  · exact ⟨calls, hlog, hwork, Nat.le_trans hchanges (Nat.zero_le n)⟩

/-- A single call asks for itself. -/
theorem asks_on {y : Action σ ε α} {c : Call} (hy : ∀ s, log (y s).2 = log s ++ [c])
    (hwork : c.isWork = true) (hchanges : [c].countP (·.changes) ≤ n) :
    Asks log n (Host.on y) :=
  fun d => ⟨[c], hy d.world, by simpa using hwork, hchanges⟩

end Asks

section Handle

variable {b : Backend σ} {log : σ → List Call} (hlog : b.Logs log)

include hlog

theorem asks_resolve (kind : Kind) : Asks log 0 (b.resolve kind) := by
  refine Asks.bind (asks_nothing fun _ => rfl) fun kept => ?_
  cases kept with
  | some formats => exact asks_pure formats
  | none =>
      refine Asks.bind (asks_on (hlog.formatsFor kind) rfl (Nat.le_refl 0)) fun formats => ?_
      by_cases hempty : formats.isEmpty = true
      · rw [if_pos hempty]
        exact asks_fail _
      · rw [if_neg hempty]
        exact Asks.bind (asks_nothing fun _ => rfl) fun _ => asks_pure formats

variable (isOpen : Bool)

omit hlog in
theorem asks_ensureOpen : Asks log 0 (⟨b, isOpen⟩ : Handle σ).ensureOpen := by
  cases isOpen with
  | true => exact asks_pure ()
  | false => exact asks_fail _

theorem asks_pick (formats : List Format) :
    Asks log 0 ((⟨b, isOpen⟩ : Handle σ).pick formats) := by
  refine Asks.mapCause _ fun d => ?_
  obtain ⟨calls, hcalls, hsearch⟩ := hlog.pick formats d.world
  refine ⟨calls, hcalls, fun c hc => Call.isWork_of_isSearch (hsearch c hc), ?_⟩
  have hnone : ∀ c ∈ calls, ¬ c.changes = true := by
    intro c hc
    rw [Call.changes_of_isSearch (hsearch c hc)]
    exact Bool.false_ne_true
  exact Nat.le_of_eq (List.countP_eq_zero.mpr hnone)

theorem asks_offers (kind : Kind) : Asks log 0 ((⟨b, isOpen⟩ : Handle σ).offers kind) :=
  (asks_ensureOpen isOpen).bind fun _ => ((asks_resolve hlog kind).mapCause _).bind fun formats =>
    (asks_pick hlog isOpen formats).bind fun _ => asks_pure _

theorem asks_read (kind : Kind) : Asks log 0 ((⟨b, isOpen⟩ : Handle σ).read kind) := by
  refine (asks_ensureOpen isOpen).bind fun _ => ((asks_resolve hlog kind).mapCause _).bind
    fun formats => (asks_pick hlog isOpen formats).bind fun found => ?_
  cases found with
  | none => exact asks_fail _
  | some f =>
      have htake := asks_on (n := 0) (hlog.read f) rfl (Nat.le_refl 0)
      refine (htake.mapCause _).bind fun given => ?_
      cases given with
      | none => exact asks_fail _
      | some payload => exact asks_pure payload

theorem asks_readText : Asks log 0 (⟨b, isOpen⟩ : Handle σ).readText :=
  (asks_read hlog isOpen .text).bind fun _ => asks_ofExcept _

/-- Items are written once, or not at all. -/
theorem asks_store (items : List (Format × Payload)) :
    Asks log 1 ((⟨b, isOpen⟩ : Handle σ).store items) := by
  unfold Handle.store
  by_cases hempty : items.isEmpty = true
  · rw [if_pos hempty]
    exact asks_fail _
  · rw [if_neg hempty]
    exact (asks_on (hlog.write items) rfl (Nat.le_refl 1)).mapCause _

theorem asks_write (kind : Kind) (bytes : Octets) :
    Asks log 1 ((⟨b, isOpen⟩ : Handle σ).write kind bytes) :=
  (asks_ensureOpen isOpen).bind fun _ => ((asks_resolve hlog kind).mapCause _).bind
    fun _ => asks_store hlog isOpen _

theorem asks_writeText (text : String) :
    Asks log 1 ((⟨b, isOpen⟩ : Handle σ).writeText text) :=
  (asks_ensureOpen isOpen).bind fun _ => ((asks_resolve hlog .text).mapCause _).bind
    fun _ => (asks_ofExcept _).bind fun _ => asks_store hlog isOpen _

theorem asks_clear : Asks log 1 (⟨b, isOpen⟩ : Handle σ).clear :=
  (asks_ensureOpen isOpen).bind fun _ => (asks_on hlog.clear rfl (Nat.le_refl 1)).mapCause _

end Handle

end Clipboard
