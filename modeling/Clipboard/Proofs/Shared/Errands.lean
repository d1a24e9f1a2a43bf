import Clipboard.Boundary
import Clipboard.Proofs.Actions
import Clipboard.Proofs.Session.Operations

/-!
# Errands

Whatever a program asks of its shared clipboard, as data: an operation of its own, or a call
that comes across the boundary.  A run of a program, as far as its clipboard is concerned, is
then a list.

A call across the boundary may be refused before it reaches the clipboard: where there is no
place for an answer, nothing that is passed, or no text.  Any other errand is an operation on
the clipboard, and a way to read what it comes to.

* `Errand.run`: what an errand comes to;
* `Errand.leftBy`: what is left after a list of them;
* `Errand.run_of_refused`, `Errand.run_of_deed`: an errand that is refused, and any other.
-/

namespace Clipboard

variable {τ : Type} (o : Surroundings τ)

/-- Whether an operation only looks at what is on the clipboard. -/
def Operation.looks : Operation → Bool
  | .setText _ | .setContents _ _ | .clear => false
  | _ => true

/-- The call on the shared clipboard that an operation is. -/
def Shared.perform : Operation → Action (Shared τ) AccessError Reply
  | .setText text => (fun _ => .done) <$> setText o text
  | .getText => .text <$> getText o
  | .hasText => .flag <$> hasText o
  | .setContents kind bytes => (fun _ => .done) <$> setContents o kind bytes
  | .getContents kind => .octets <$> getContents o kind
  | .clear => (fun _ => .done) <$> clear o

/-- What is asked of the shared clipboard. -/
inductive Errand where
  /-- An operation of the program itself. -/
  | operate (op : Operation)
  /-- Passing a terminated text across the boundary. -/
  | passText (bytes : Option Octets)
  /-- Passing so many octets of text. -/
  | passOctets (bytes : Option Octets) (length : Nat)
  /-- Taking a terminated text, for which there may be a place, and what it holds. -/
  | takeText (place : Option Octets)
  /-- Taking a text with its length. -/
  | takeOctets (textPlace : Option Octets) (lengthPlace : Option Nat)
  /-- Asking across the boundary whether there is text. -/
  | askText
  deriving DecidableEq, Repr

/-- What it is answered with, and what the places of the caller hold then. -/
inductive Answer where
  | reply (outcome : Outcome AccessError Reply)
  | flag (value : Bool)
  | text (taken : Bool) (place : Option Octets)
  | octets (taken : Bool) (textPlace : Option Octets) (lengthPlace : Option Nat)
  deriving DecidableEq, Repr

/-- The text in an answer. -/
def Outcome.text? : Outcome AccessError Reply → Option String
  | done (.text text) => some text
  | _ => none

namespace Errand

/-- The answer to an errand, and what it leaves. -/
def run : Errand → Shared τ → Answer × Shared τ
  | operate op, s => (.reply (Shared.perform o op s).1, (Shared.perform o op s).2)
  | passText bytes, s => (.flag (Boundary.setText o bytes s).1, (Boundary.setText o bytes s).2)
  | passOctets bytes length, s =>
    (.flag (Boundary.setTextOfLength o bytes length s).1,
      (Boundary.setTextOfLength o bytes length s).2)
  | takeText place, s =>
    let (taken, place') := (Boundary.getText o place s).1
    (.text taken place', (Boundary.getText o place s).2)
  | takeOctets textPlace lengthPlace, s =>
    let (taken, textPlace', lengthPlace') := (Boundary.getTextAndLength o textPlace lengthPlace s).1
    (.octets taken textPlace' lengthPlace',
      (Boundary.getTextAndLength o textPlace lengthPlace s).2)
  | askText, s => (.flag (Boundary.hasText o s).1, (Boundary.hasText o s).2)

/-- What is left after some errands. -/
def leftBy : List Errand → Shared τ → Shared τ
  | [], s => s
  | e :: rest, s => leftBy rest (e.run o s).2

end Errand

/-- A program that has not used its clipboard. -/
def Shared.start (env : Environment) (t : τ) : Shared τ where
  host := { world := { environment := env, outside := t } }

/-- What the clipboard within the program holds. -/
def Shared.contents (s : Shared τ) : List (Format.Id × Octets) := s.host.world.memory.entries

/-! ## Calls on the shared clipboard -/

namespace Shared

variable {o} {α β : Type} {s : Shared τ}

theorem operate_of_done {c : Board (Desktop τ)} {s' : Shared τ}
    (h : board o s = (.done c, s'))
    (body : Board (Desktop τ) → Action (Host (Desktop τ)) AccessError α) :
    operate o body s = ((body c s'.host).1, { s' with host := (body c s'.host).2 }) :=
  Action.bind_done h _

theorem operate_map (f : α → β)
    (body : Board (Desktop τ) → Action (Host (Desktop τ)) AccessError α) :
    f <$> operate o body = operate o fun c => f <$> body c := by
  unfold operate
  rw [map_bind]
  refine congrArg (bind _) (funext fun c => funext fun s => ?_)
  simp [Action.zoom]

theorem setText_map (text : String) :
    (fun _ => .done) <$> setText o text = operate o (Operation.setText text).perform :=
  operate_map _ _

theorem getText_map : .text <$> getText o = operate o Operation.getText.perform :=
  operate_map _ _

/-- To ask for text is an operation that is answered in any case. -/
theorem hasText_map :
    .flag <$> hasText o =
      Action.recover (fun _ => .flag false) (operate o Operation.hasText.perform) := by
  rw [hasText, Action.map_recover, operate_map]
  rfl

/-- Any other operation is made on the shared clipboard as on any. -/
theorem perform_eq {op : Operation} (h : op ≠ .hasText) :
    perform o op = operate o op.perform := by
  cases op with
  | hasText => exact absurd rfl h
  | _ => exact operate_map _ _

end Shared

/-! ## Across the boundary -/

namespace Boundary

variable {o}

/-- The octets that a caller passes of whom so many are to be taken. -/
def passed (bytes : Option Octets) (length : Nat) : Option Octets :=
  if length = 0 then some [] else bytes.map (·.take length)

theorem setTextOfLength_eq (bytes : Option Octets) (length : Nat) (s : Shared τ) :
    setTextOfLength o bytes length s =
      match passed bytes length with
      | none => (false, s)
      | some bytes => setOctets o bytes s := by
  unfold setTextOfLength passed
  by_cases hlength : length = 0
  · rw [if_pos hlength, if_pos hlength]
  · rw [if_neg hlength, if_neg hlength]
    cases bytes <;> rfl

/-- What is passed is put on the clipboard if it is a text. -/
theorem setOctets_eq (bytes : Octets) (s : Shared τ) :
    setOctets o bytes s =
      match (Utf8.decode bytes).toOption with
      | none => (false, s)
      | some text =>
        let put := Shared.operate o (Operation.setText (String.ofList text)).perform s
        (put.1.isDone, put.2) := by
  unfold setOctets
  cases Utf8.decode bytes with
  | error fault => rfl
  | ok text =>
      dsimp only [Except.toOption]
      rw [← Shared.setText_map, Action.map_apply, attempt]
      rcases Shared.setText o (String.ofList text) s with ⟨_ | _ | _, s'⟩ <;> rfl

/-- What is taken of the clipboard is what it has of text. -/
theorem attempt_getText (s : Shared τ) :
    attempt (Shared.getText o) s =
      ((Shared.operate o Operation.getText.perform s).1.text?,
        (Shared.operate o Operation.getText.perform s).2) := by
  rw [← Shared.getText_map, Action.map_apply, attempt]
  rcases Shared.getText o s with ⟨_ | _ | _, s'⟩ <;> rfl

/-- What is put in a place for a terminated text, if anything is. -/
def placed (place : Option Octets) (text : Option String) : Bool × Option Octets :=
  match text.filter (! ·.toList.contains '\x00') with
  | some text => (true, some (Utf8.encode text.toList ++ [0]))
  | none => (false, place)

/-- What is put in places for a text and its length, if anything is. -/
def placedWithLength (textPlace : Option Octets) (lengthPlace : Option Nat)
    (text : Option String) : Bool × Option Octets × Option Nat :=
  match text with
  | some text =>
    (true, some (Utf8.encode text.toList ++ [0]), some (Utf8.encode text.toList).length)
  | none => (false, textPlace, lengthPlace)

theorem getText_eq (before : Octets) (s : Shared τ) :
    getText o (some before) s =
      (placed (some before) (Shared.operate o Operation.getText.perform s).1.text?,
        (Shared.operate o Operation.getText.perform s).2) := by
  simp only [getText, attempt_getText, placed]
  cases (Shared.operate o Operation.getText.perform s).1.text? with
  | none => rfl
  | some text =>
      rw [Option.filter_some]
      dsimp only
      cases text.toList.contains '\x00' <;> rfl

theorem getTextAndLength_eq (text : Octets) (length : Nat) (s : Shared τ) :
    getTextAndLength o (some text) (some length) s =
      (placedWithLength (some text) (some length)
        (Shared.operate o Operation.getText.perform s).1.text?,
        (Shared.operate o Operation.getText.perform s).2) := by
  simp only [getTextAndLength, attempt_getText, placedWithLength]
  cases (Shared.operate o Operation.getText.perform s).1.text? <;> rfl

theorem hasText_eq (s : Shared τ) :
    hasText o s = (decide ((Shared.operate o Operation.hasText.perform s).1 = .done (.flag true)),
      (Shared.operate o Operation.hasText.perform s).2) := by
  have hask : Shared.operate o Operation.hasText.perform =
      .flag <$> Shared.operate o (·.hasText) := (Shared.operate_map _ _).symm
  rw [hask, Action.map_apply]
  unfold hasText attempt Shared.hasText Action.recover
  rcases Shared.operate o (·.hasText) s with ⟨⟨_ | _⟩ | _ | _, s'⟩ <;> rfl

end Boundary

/-! ## Errands as operations -/

namespace Errand

/-- The operation that an errand comes to, unless it is refused. -/
def deed? : Errand → Option Operation
  | operate op => some op
  | passText bytes =>
    (bytes.bind fun bytes => (Utf8.decode bytes.untilZero).toOption).map fun text =>
      .setText (String.ofList text)
  | passOctets bytes length =>
    ((Boundary.passed bytes length).bind fun bytes => (Utf8.decode bytes).toOption).map fun text =>
      .setText (String.ofList text)
  | takeText place => place.map fun _ => .getText
  | takeOctets textPlace lengthPlace => textPlace.bind fun _ => lengthPlace.map fun _ => .getText
  | askText => some .hasText

/-- What is answered when the operation comes to this. -/
def read : Errand → Outcome AccessError Reply → Answer
  | operate .hasText, .failed _ => .reply (.done (.flag false))
  | operate _, r => .reply r
  | passText _, r | passOctets _ _, r => .flag r.isDone
  | takeText place, r =>
    let (taken, place') := Boundary.placed place r.text?
    .text taken place'
  | takeOctets textPlace lengthPlace, r =>
    let (taken, textPlace', lengthPlace') :=
      Boundary.placedWithLength textPlace lengthPlace r.text?
    .octets taken textPlace' lengthPlace'
  | askText, r => .flag (r = .done (.flag true))

variable {o} (s : Shared τ)

/-- Any errand but one that is refused is an operation on the clipboard. -/
theorem run_of_deed {e : Errand} {op : Operation} (h : e.deed? = some op) :
    e.run o s = (e.read (Shared.operate o op.perform s).1, (Shared.operate o op.perform s).2) := by
  cases e with
  | operate op' =>
      obtain rfl : op' = op := Option.some.inj h
      by_cases hop : op' = .hasText
      · subst hop
        rw [run, Shared.perform, Shared.hasText_map, Action.recover]
        rcases Shared.operate o Operation.hasText.perform s with ⟨_ | _ | _, s'⟩ <;> rfl
      · rw [run, Shared.perform_eq hop]
        cases op' <;> first | rfl | exact absurd rfl hop
  | passText bytes =>
      obtain ⟨text, hread, rfl⟩ := Option.map_eq_some_iff.mp h
      obtain ⟨bytes, rfl, hdecode⟩ := Option.bind_eq_some_iff.mp hread
      rw [run, Boundary.setText, Boundary.setOctets_eq, hdecode]
      rfl
  | passOctets bytes length =>
      obtain ⟨text, hread, rfl⟩ := Option.map_eq_some_iff.mp h
      obtain ⟨bytes', hpassed, hdecode⟩ := Option.bind_eq_some_iff.mp hread
      rw [run, Boundary.setTextOfLength_eq, hpassed]
      dsimp only
      rw [Boundary.setOctets_eq, hdecode]
      rfl
  | takeText place =>
      obtain ⟨before, rfl, rfl⟩ := Option.map_eq_some_iff.mp h
      rw [run, Boundary.getText_eq, read]
  | takeOctets textPlace lengthPlace =>
      obtain ⟨text, rfl, hlength⟩ := Option.bind_eq_some_iff.mp h
      obtain ⟨length, rfl, rfl⟩ := Option.map_eq_some_iff.mp hlength
      rw [run, Boundary.getTextAndLength_eq, read]
  | askText =>
      obtain rfl : Operation.hasText = op := Option.some.inj h
      rw [run, Boundary.hasText_eq, read]

/-- An errand that is refused leaves all as it is. -/
theorem run_of_refused {e : Errand} (h : e.deed? = none) (cause : AccessError) :
    e.run o s = (e.read (.failed cause), s) := by
  cases e with
  | operate op => cases h
  | passText bytes =>
      cases bytes with
      | none => rfl
      | some bytes =>
          have hdecode : (Utf8.decode bytes.untilZero).toOption = none :=
            Option.map_eq_none_iff.mp h
          rw [run, Boundary.setText, Boundary.setOctets_eq, hdecode]
          rfl
  | passOctets bytes length =>
      have hread := Option.map_eq_none_iff.mp h
      rw [run, Boundary.setTextOfLength_eq]
      cases hpassed : Boundary.passed bytes length with
      | none => rfl
      | some bytes =>
          rw [hpassed] at hread
          dsimp only
          rw [Boundary.setOctets_eq, show (Utf8.decode bytes).toOption = none from hread]
          rfl
  | takeText place =>
      obtain rfl := Option.map_eq_none_iff.mp h
      rfl
  | takeOctets textPlace lengthPlace =>
      cases textPlace with
      | none => rfl
      | some text =>
          obtain rfl : lengthPlace = none := Option.map_eq_none_iff.mp h
          rfl
  | askText => cases h

end Errand

end Clipboard
