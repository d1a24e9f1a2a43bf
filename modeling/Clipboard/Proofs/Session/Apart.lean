import Clipboard.Rehearsal
import Clipboard.Proofs.InStep
import Clipboard.Proofs.Memory.Machine
import Clipboard.Proofs.Session.Looking
import Clipboard.Proofs.Session.Resolving

/-!
# Clipboards apart

Clipboards whose backends have no state in common still share the formats that are
remembered, and what is remembered decides which calls a backend gets.  But all is remembered
under the name of a backend.  A clipboard adds nothing under another name, and it finds what
it would have found if nothing had been added under any other.

* `Backend.shadows_alike`: a backend goes as it would with less remembered of others;
* `Operation.perform_elsewhere`: an operation adds nothing under another name;
* `answers_apart`: so clipboards of different names do not notice each other.
-/

namespace Clipboard

open Action

variable {σ ε α : Type}

/-! ## What is remembered under one name -/

/-- Programs whose backends are in the same state and which remember the same formats under
one name. -/
def Host.AlikeUnder (name : String) (d d' : Host σ) : Prop :=
  d.world = d'.world ∧ ∀ kind, d.registry.find? name kind = d'.registry.find? name kind

theorem Host.inStep_alike (name : String) (x : Action σ ε α) :
    Action.InStep (AlikeUnder name) (on x) (on x) := by
  intro d d' hd
  rw [on_apply, on_apply, hd.1]
  exact ⟨rfl, rfl, hd.2⟩

namespace Backend

variable (b : Backend σ)

/-- A backend is asked for formats as it would be if less were remembered of others. -/
theorem resolve_alike (kind : Kind) :
    Action.InStep (Host.AlikeUnder b.name) (b.resolve kind) (b.resolve kind) := by
  refine InStep.bind (inStep_ask fun hd => hd.2 kind) fun kept => ?_
  cases kept with
  | some formats => exact inStep_pure formats
  | none =>
      refine (Host.inStep_alike b.name (b.formatsFor kind)).bind fun formats => ?_
      by_cases hempty : formats.isEmpty = true
      · rw [if_pos hempty]
        exact inStep_fail _
      · rw [if_neg hempty]
        refine InStep.bind (inStep_update fun hd => ⟨hd.1, fun kind' => ?_⟩) fun _ =>
          inStep_pure formats
        rw [Registry.find?_keep, Registry.find?_keep, hd.2 kind']

/-- So it is in every other respect. -/
theorem shadows_alike : b.Shadows (Host.AlikeUnder b.name) b where
  name := rfl
  follows kind :=
    { convention := rfl
      acquire := Host.inStep_alike _ _
      release := Host.inStep_alike _ _
      resolve := b.resolve_alike kind
      pick := fun _ => Host.inStep_alike _ _
      read := fun _ => Host.inStep_alike _ _ }
  write _ := Host.inStep_alike _ _
  clear := Host.inStep_alike _ _

/-- Asking for formats adds nothing under another name. -/
theorem resolve_elsewhere {name : String} (hname : b.name ≠ name) (kind : Kind) :
    Action.Confined
      (fun d d' : Host σ => ∀ kind, d'.registry.find? name kind = d.registry.find? name kind)
      (b.resolve kind) := by
  intro d kind'
  cases hkept : d.registry.find? b.name kind with
  | some kept => rw [resolve_of_find? hkept]
  | none =>
      rcases hasked : b.formatsFor kind d.world with ⟨answer | e | _, w⟩
      · by_cases hempty : answer = []
        · rw [resolve_of_empty hkept (hempty ▸ hasked)]
        · rw [resolve_of_formats hkept hasked hempty]
          exact Registry.find?_keep_of_ne (fun h => hname (congrArg Prod.fst h)) answer
      · rw [resolve_of_failed hkept hasked]
      · rw [resolve_of_unwound hkept hasked]

end Backend

/-! ## What an operation adds -/

/-- An operation adds nothing under another name. -/
theorem Operation.perform_elsewhere (c : Board σ) {name : String} (hname : c.backend.name ≠ name)
    (op : Operation) (d : Host σ) (kind : Kind) :
    (op.perform c d).2.registry.find? name kind = d.registry.find? name kind := by
  have hbounds : Bounds fun d d' : Host σ =>
      ∀ kind, d'.registry.find? name kind = d.registry.find? name kind :=
    ⟨fun _ _ => rfl, fun h h' kind => (h' kind).trans (h kind)⟩
  have hon {ε α : Type} (x : Action σ ε α) : Confined (fun d d' : Host σ =>
      ∀ kind, d'.registry.find? name kind = d.registry.find? name kind) (Host.on x) :=
    fun _ _ => rfl
  have hlooks : Looks c.backend _ :=
    ⟨hbounds, hon _, hon _, c.backend.resolve_elsewhere hname, fun _ => hon _, fun _ => hon _⟩
  exact hlooks.perform (fun _ => hon _) (hon _) c.policy op d kind

/-! ## Clipboards next to each other -/

/-- What is left after some calls made one after the other, whatever each comes to. -/
def Action.leftBy : List (Action σ ε α) → σ → σ
  | [], s => s
  | x :: rest, s => leftBy rest (x s).2

section Among

variable {ι : Type} [DecidableEq ι] {σ : ι → Type} (c : ∀ i, Board (σ i))

/-- One of several clipboards, each over a part of the state of its own. -/
def Board.among (i : ι) : Board (∀ i, σ i) :=
  (c i).zoom (fun w => w i) fun s w => Function.update w i s

/-- The operations on several clipboards, each on one of them. -/
def Board.interleaved (steps : List (ι × Operation)) :
    List (Action (Host (∀ i, σ i)) AccessError Reply) :=
  steps.map fun step => step.2.perform (Board.among c step.1)

/-- Those of them that are on one clipboard, as it would do them alone. -/
def Board.alone (j : ι) (steps : List (ι × Operation)) :
    List (Action (Host (σ j)) AccessError Reply) :=
  (steps.filter (·.1 = j)).map fun step => step.2.perform (c j)

/-- What some calls came to that were on one clipboard. -/
def answersOf (j : ι) (steps : List (ι × Operation)) (outcomes : List (Outcome AccessError Reply)) :
    List (Outcome AccessError Reply) :=
  ((steps.zip outcomes).filter (·.1.1 = j)).map (·.2)

section Lists

variable {i j : ι} {op : Operation} {o : Outcome AccessError Reply} {rest : List (ι × Operation)}
  {outcomes : List (Outcome AccessError Reply)}

theorem answersOf_own :
    answersOf j ((j, op) :: rest) (o :: outcomes) = o :: answersOf j rest outcomes := by
  simp [answersOf]

theorem answersOf_other (hi : i ≠ j) :
    answersOf j ((i, op) :: rest) (o :: outcomes) = answersOf j rest outcomes := by
  simp [answersOf, hi]

theorem Board.alone_own :
    Board.alone c j ((j, op) :: rest) = op.perform (c j) :: Board.alone c j rest := by
  simp [alone]

theorem Board.alone_other (hi : i ≠ j) :
    Board.alone c j ((i, op) :: rest) = Board.alone c j rest := by
  simp [alone, hi]

end Lists

variable {c} {d : Host (∀ i, σ i)} {j : ι} {d' : Host (σ j)}

/-- What several clipboards are to one of them: its own state, and the formats that are
remembered under its name. -/
abbrev Beside (c : ∀ i, Board (σ i)) (j : ι) (d : Host (∀ i, σ i)) (d' : Host (σ j)) : Prop :=
  Host.AlikeUnder (c j).backend.name (Host.viewing (fun w => w j) d) d'

/-- An operation on the clipboard itself comes to what it comes to alone. -/
theorem among_own (hd : Beside c j d d') (op : Operation) :
    (op.perform (Board.among c j) d).1 = (op.perform (c j) d').1 ∧
      Beside c j (op.perform (Board.among c j) d).2 (op.perform (c j) d').2 := by
  have hown := (c j).backend.shadows_alike.perform (c j).policy op _ _ hd
  have L := component_update σ j
  rw [Beside, Board.among, op.perform_zoom L, Action.zoom, L.host.view_put]
  exact hown

/-- An operation on a clipboard of another name is not noticed. -/
theorem among_other {i : ι} (hi : i ≠ j) (hname : (c i).backend.name ≠ (c j).backend.name)
    (hd : Beside c j d d') (op : Operation) :
    Beside c j (op.perform (Board.among c i) d).2 d' := by
  rw [Board.among, op.perform_zoom (component_update σ i), Action.zoom]
  refine ⟨?_, fun kind => ?_⟩
  · exact (Function.update_of_ne hi.symm _ _).trans hd.1
  · exact (op.perform_elsewhere (c i) hname _ kind).trans (hd.2 kind)

/-- Any run of operations keeps a clipboard as it would be alone. -/
theorem interleaved_beside (hnames : Function.Injective fun i => (c i).backend.name)
    (steps : List (ι × Operation)) (hd : Beside c j d d') :
    answersOf j steps (Action.outcomes (Board.interleaved c steps) d) =
        Action.outcomes (Board.alone c j steps) d' ∧
      Beside c j (Action.leftBy (Board.interleaved c steps) d)
        (Action.leftBy (Board.alone c j steps) d') := by
  induction steps generalizing d d' with
  | nil => exact ⟨rfl, hd⟩
  | cons step rest ih =>
      obtain ⟨i, op⟩ := step
      rw [Board.interleaved, List.map_cons, Action.outcomes, Action.leftBy, ← Board.interleaved]
      by_cases hi : i = j
      · subst hi
        obtain ⟨hsame, hd₁⟩ := among_own hd op
        obtain ⟨hanswers, hleft⟩ := ih hd₁
        rw [answersOf_own, Board.alone_own, Action.outcomes, Action.leftBy, hanswers]
        exact ⟨congrArg (· :: _) hsame, hleft⟩
      · have hname : (c i).backend.name ≠ (c j).backend.name := fun h => hi (hnames h)
        rw [answersOf_other hi, Board.alone_other c hi]
        exact ih (among_other hi hname hd op)

/-- **Clipboards of different names do not notice each other.**  Any number of clipboards are
used in one program that starts with nothing remembered.  Their backends, however they answer,
fail or unwind, have no state in common and no two of them have one name.  Whatever operations
are made on them, and in whatever order, each of them answers as it would if its own
operations had been made alone, in the same order, in a program of its own; it leaves its
backend in the same state, and has asked it for the same calls. -/
theorem answers_apart (b : ∀ i, Backend (σ i)) (p : ι → Policy)
    (hnames : Function.Injective fun i => (b i).name) (w : ∀ i, σ i)
    (steps : List (ι × Operation)) (j : ι) :
    let c : ∀ i, Board (σ i × List Call) := fun i => ⟨(b i).traced, p i⟩
    let together := Board.interleaved c steps
    let alone := Board.alone c j steps
    let start : Host (∀ i, σ i × List Call) := ⟨fun i => (w i, []), {}⟩
    let startAlone : Host (σ j × List Call) := ⟨(w j, []), {}⟩
    answersOf j steps (Action.outcomes together start) = Action.outcomes alone startAlone ∧
      ((Action.leftBy together start).world j).1 = (Action.leftBy alone startAlone).world.1 ∧
      ((Action.leftBy together start).world j).2 = (Action.leftBy alone startAlone).world.2 := by
  intro c together alone start startAlone
  have hnames' : Function.Injective fun i => (c i).backend.name := hnames
  have hstart : Beside c j start startAlone := ⟨rfl, fun _ => rfl⟩
  obtain ⟨hanswers, hworld, -⟩ := interleaved_beside hnames' steps hstart
  exact ⟨hanswers, congrArg Prod.fst hworld, congrArg Prod.snd hworld⟩

/-- Two backends, of which one names no formats when it is first asked, and unwinds when it is
first read. -/
theorem answers_apart_faulty :
    let b : Bool → Backend Rehearsal := fun i => Rehearsal.backend
      { name := if i then "first" else "second", textFormats := [⟨.number 1, .utf8, true⟩] }
    let w : Bool → Rehearsal := fun i =>
      { reactions := fun cue => if i ∧ cue = .formatsFor then [.nothing]
          else if i ∧ cue = .read then [.unwind] else [] }
    let steps : List (Bool × Operation) :=
      [(true, .setText "a"), (false, .setText "b"), (true, .setText "c"), (true, .getText),
        (false, .clear), (true, .getText)]
    let c : Bool → Board (Rehearsal × List Call) := fun i => ⟨(b i).traced, {}⟩
    let together := Board.interleaved c steps
    let alone := Board.alone c true steps
    let start : Host (Bool → Rehearsal × List Call) := ⟨fun i => (w i, []), {}⟩
    let startAlone : Host (Rehearsal × List Call) := ⟨(w true, []), {}⟩
    ((Function.Injective fun i => (b i).name) ∧
      answersOf true steps (Action.outcomes together start) = Action.outcomes alone startAlone ∧
      ((Action.leftBy together start).world true).1 = (Action.leftBy alone startAlone).world.1 ∧
      ((Action.leftBy together start).world true).2 =
        (Action.leftBy alone startAlone).world.2) ∧
      Action.outcomes alone startAlone =
        [.failed (.writeFailed "rejected: first backend has no native format for text"),
          .done .done, .unwound, .done (.text "c")] := by
  intro b w steps c together alone start startAlone
  have hnames : Function.Injective fun i => (b i).name := by
    intro i j h
    cases i <;> cases j <;> first | rfl | exact absurd h (by decide)
  refine ⟨⟨hnames, ?_⟩, by decide +kernel⟩
  -- The steps are not to be run when the two statements are compared.
  clear_value steps
  exact answers_apart b (fun _ => {}) hnames w steps true

end Among

end Clipboard
