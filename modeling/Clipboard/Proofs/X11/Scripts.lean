import Clipboard.Proofs.X11.Tidings

/-!
# Scripts

A connection on which all that happens has been laid down beforehand: which notices come in, in
which order and how late, and what has been stored by then.  An inquiry adds to it, after all that
is still to happen, what happens upon an inquiry for its target.  So answers may come at once, or
long after the client has given up waiting for them.

* `Script.connection`: the connection of a client that all this happens to;
* `Script.connection_foresees`: there is an end to what comes in;
* `Script.brings_of_telling`: what an owner brings that answers at once.
-/

namespace Clipboard.X11

/-- Something that happens to a client. -/
inductive Happening where
  /-- A notice comes in.  Before it, a value may have been stored. -/
  | news (stored : Option Property) (notice : Notice)
  /-- Nothing comes in for as long as the client waits. -/
  | pause
  /-- What follows comes in no sooner than the client waits for it. -/
  | later

/-- What is to happen to a client, and what has happened. -/
structure Script where
  selection : Selection := {}
  /-- The window that owns the selection. -/
  owner : Window := 0
  /-- What is to happen, next first, each in answer to an inquiry for a target. -/
  coming : List (Atom × Happening) := []
  /-- What happens upon an inquiry for a target. -/
  answers : Atom → List Happening
  /-- All that has been stored in the transfer property, with the targets that it answers. -/
  stored : List (Atom × Property) := []
  /-- Whether the last of this still lies there. -/
  lying : Bool := false

namespace Script

/-- A value is stored in answer to an inquiry, if there is one. -/
def store (s : Script) (target : Atom) (value : Option Property) : Script :=
  { s with
    stored := s.stored ++ (value.map (target, ·)).toList
    lying := value.isSome || s.lying }

/-- What lies in the transfer property. -/
def found (s : Script) : Option (Atom × Property) := if s.lying then s.stored.getLast? else none

/-- What a client hears when this is to happen. -/
def hear (s : Script) : List (Atom × Happening) → Heard × Script
  | [] => (.silence, { s with coming := [] })
  | (target, .news stored notice) :: rest =>
    (.notice notice, { s.store target stored with coming := rest })
  | (_, .pause) :: rest => (.silence, { s with coming := rest })
  | (_, .later) :: rest => s.hear rest

/-- What is left when a client passes over all that has come in. -/
def passOver (s : Script) : List (Atom × Happening) → Script
  | (target, .news stored _) :: rest => { s.store target stored with coming := rest }.passOver rest
  | coming => { s with coming := coming }

/-- What a message of the client does. -/
def post (s : Script) : Post → Script
  | .remove _ _ => { s with lying := false }
  | .inquire q => { s with coming := s.coming ++ (s.answers q.target).map (q.target, ·) }
  | _ => s

/-- The window of the client. -/
def window : Window := 1

/-- The connection of the client. -/
def connection (atoms : Atoms) : Connection Script where
  window := window
  atoms := atoms
  longest := 65536
  patience := .ofMillis 50
  selection s := s.selection
  setSelection selection s := { s with selection := selection }
  send posts := fun s => (.done (), posts.foldl post s)
  intern _ := Action.fail (.unanswered "no names")
  owner := Action.ask (·.owner)
  collect := fun s => (.done ((s.found.map (·.2)).getD .absent), { s with lying := false })
  listen s := s.hear s.coming
  discard s := s.passOver s.coming
  horizon s := s.coming.length + 1

variable {atoms : Atoms} {s t : Script} {m : Notice}

/-- What is heard does not happen again. -/
theorem length_hear {coming : List (Atom × Happening)} (h : s.hear coming = (.notice m, t)) :
    t.coming.length < coming.length := by
  induction coming with
  | nil => cases h
  | cons x rest ih =>
      obtain ⟨target, happening⟩ := x
      cases happening with
      | news stored notice =>
          cases h
          exact Nat.lt_succ_self _
      | pause => cases h
      | later => exact Nat.lt_succ_of_lt (ih h)

theorem comes_le (k : Nat) : ∀ s, (connection atoms).Comes k s → k ≤ s.coming.length := by
  induction k with
  | zero => exact fun s _ => Nat.zero_le _
  | succ k ih =>
      rintro s ⟨m, t, hheard, hcomes⟩
      exact Nat.lt_of_le_of_lt (ih t hcomes) (length_hear hheard)

theorem transfers_le {parts : List Property} (h : (connection atoms).Transfers s parts t) :
    parts.length ≤ s.coming.length := by
  induction h with
  | nil s => exact Nat.zero_le _
  | other hheard _ _ ih => exact Nat.le_trans ih (Nat.le_of_lt (length_hear hheard))
  | @cons time part s t u v parts hheard htaken _ ih =>
      have hfewer : t.coming.length < s.coming.length := length_hear hheard
      cases htaken
      exact Nat.lt_of_le_of_lt ih hfewer

/-- Each thing happens once, and so there is an end to it. -/
theorem connection_foresees (atoms : Atoms) : (connection atoms).Foresees := fun s =>
  ⟨fun k hcomes => Nat.lt_succ_of_le (comes_le k s hcomes),
    fun _ _ htransfers => Nat.le_succ_of_le (transfers_le htransfers)⟩

/-! ## Owners that answer at once -/

/-- The client is told that an inquiry of it has been answered. -/
def answered (atoms : Atoms) (target place : Atom) : Notice :=
  .replied ⟨0, window, atoms.clipboard, target, place⟩

/-- A value is stored, and the client is told that there is a new one. -/
def stores (atoms : Atoms) (value : Property) : Happening :=
  .news (some value) ((connection atoms).announcement 1)

/-- What happens when an owner answers at once.  Parts are announced, and an empty one is the
last. -/
def telling (atoms : Atoms) (target : Atom) : Tidings → List Happening
  | .refusal => [.news none (answered atoms target 0)]
  | .whole value => [stores atoms value, .news none (answered atoms target atoms.transfer)]
  | .parts list =>
    stores atoms ⟨atoms.incremental, .octets []⟩ ::
      .news none (answered atoms target atoms.transfer) ::
      (list ++ [(⟨target, .octets []⟩ : Property)]).map (stores atoms)

/-- A client that has asked for nothing yet, of an owner that tells it this. -/
def teller (atoms : Atoms) (tell : Atom → Tidings) : Script where
  owner := 5
  answers target := telling atoms target (tell target)

/-- The same happens when the client asks. -/
structure Keeps (s t : Script) : Prop where
  answers : t.answers = s.answers
  owner : t.owner = s.owner
  selection : t.selection = s.selection

/-- Nothing is to happen until the client asks, and then the same as before. -/
structure Rests (s t : Script) : Prop extends Keeps s t where
  coming : t.coming = []

theorem Keeps.trans {u : Script} (h : s.Keeps t) (h' : t.Keeps u) : s.Keeps u :=
  ⟨h'.answers.trans h.answers, h'.owner.trans h.owner, h'.selection.trans h.selection⟩

theorem Rests.trans {u : Script} (h : s.Rests t) (h' : t.Rests u) : s.Rests u :=
  ⟨h.toKeeps.trans h'.toKeeps, h'.coming⟩

section

variable {target : Atom} {value : Property} {rest : List (Atom × Happening)}

/-- What happens next is that a value is stored. -/
theorem listen_of_stores (hcoming : s.coming = (target, stores atoms value) :: rest) :
    (connection atoms).listen s = (.notice ((connection atoms).announcement 1),
      { s.store target (some value) with coming := rest }) := by
  show s.hear s.coming = _
  rw [hcoming]
  rfl

theorem collect_of_found (h : s.found = some (target, value)) :
    (connection atoms).collect s = (.done value, { s with lying := false }) := by
  show (Outcome.done ((s.found.map Prod.snd).getD Property.absent), _) = _
  rw [h]
  rfl

/-- A value is stored, and the client is told that its inquiry has been answered. -/
theorem told_of_stores {waiting : Script}
    (hsent : (connection atoms).send ((connection atoms).asking target)
      ((connection atoms).discard s) = (.done (), waiting))
    (hcoming : waiting.coming = (target, stores atoms value) ::
      (target, .news none (answered atoms target atoms.transfer)) :: rest) :
    ∃ u, (connection atoms).Told target atoms.transfer s u ∧ u.found = some (target, value) ∧
      u.coming = rest ∧ waiting.Keeps u := by
  let t := waiting.store target (some value)
  have hreplied : (connection atoms).replied (answered atoms target atoms.transfer) =
      some atoms.transfer := if_pos ⟨rfl, rfl⟩
  refine ⟨{ t.store target none with coming := rest }, ⟨waiting, hsent, ?_⟩, ?_, rfl, rfl, rfl, rfl⟩
  · exact .other (listen_of_stores hcoming) rfl (.accepted rfl hreplied)
  · simp [found, t, store]

/-- Values that are stored one after the other are transferred. -/
theorem transfers_of_stores {list : List Property}
    (hcoming : s.coming = list.map (fun part => (target, stores atoms part)) ++ rest) :
    ∃ t, (connection atoms).Transfers s list t ∧ t.coming = rest ∧ s.Keeps t := by
  induction list generalizing s with
  | nil => exact ⟨s, .nil s, hcoming, rfl, rfl, rfl⟩
  | cons part list ih =>
      obtain ⟨t, htransfers, hrest, hkeeps⟩ := ih
        (s := { s.store target (some part) with
          lying := false
          coming := list.map (fun part => (target, stores atoms part)) ++ rest }) rfl
      have hheard := listen_of_stores hcoming
      exact ⟨t, .cons hheard (collect_of_found List.getLast?_concat) htransfers, hrest,
        hkeeps.answers, hkeeps.owner, hkeeps.selection⟩

end

theorem brings_of_telling {target : Atom} {tidings : Tidings} (hcoming : s.coming = [])
    (hanswers : s.answers target = telling atoms target tidings) (hplace : atoms.transfer ≠ 0)
    (hproper : tidings.Proper atoms.incremental) :
    ∃ t, (connection atoms).Brings target tidings s t ∧ s.Rests t := by
  let c := connection atoms
  let waiting : Script :=
    { s with lying := false, coming := (telling atoms target tidings).map (target, ·) }
  have hsent : c.send (c.asking target) (c.discard s) = (.done (), waiting) := by
    have hdiscard : c.discard s = { s with coming := [] } := by
      show s.passOver s.coming = _
      rw [hcoming]
      rfl
    show (Outcome.done (), { (c.discard s) with
      lying := false
      coming := (c.discard s).coming ++ ((c.discard s).answers target).map (target, ·) }) = _
    rw [hdiscard]
    dsimp only [waiting]
    rw [hanswers]
    rfl
  have hkept : s.Keeps waiting := ⟨rfl, rfl, rfl⟩
  cases tidings with
  | refusal =>
      have hreplied : c.replied (answered atoms target 0) = some 0 := if_pos ⟨rfl, rfl⟩
      exact ⟨_, .refusal ⟨_, hsent, .accepted rfl hreplied⟩, ⟨rfl, rfl, rfl⟩, rfl⟩
  | whole value =>
      obtain ⟨u, htold, hfound, hrest, hkeeps⟩ := told_of_stores hsent rfl
      have hkept' := hkept.trans hkeeps
      exact ⟨_, .whole htold hplace (collect_of_found hfound) hproper,
        ⟨hkept'.answers, hkept'.owner, hkept'.selection⟩, hrest⟩
  | parts list =>
      obtain ⟨u, htold, hfound, hlater, hkeeps⟩ := told_of_stores hsent rfl
      rw [List.map_map, List.map_append] at hlater
      obtain ⟨t, htransfers, hrest, hkeeps'⟩ :=
        transfers_of_stores (s := { u with lying := false }) hlater
      have hkept' := (hkept.trans hkeeps).trans ⟨hkeeps'.answers, hkeeps'.owner, hkeeps'.selection⟩
      exact ⟨_, .parts htold hplace (collect_of_found hfound) rfl htransfers hproper
        (listen_of_stores hrest) (collect_of_found List.getLast?_concat) rfl,
        ⟨hkept'.answers, hkept'.owner, hkept'.selection⟩, rfl⟩

/-- An owner that answers at once does so whenever it is asked. -/
theorem Rests.brings {tell : Atom → Tidings} (h : (teller atoms tell).Rests s)
    (hplace : atoms.transfer ≠ 0) (target : Atom)
    (hproper : (tell target).Proper atoms.incremental) :
    ∃ t, (connection atoms).Brings target (tell target) s t ∧ (teller atoms tell).Rests t := by
  obtain ⟨t, hbrings, hrests⟩ :=
    brings_of_telling h.coming (congrFun h.answers target) hplace hproper
  exact ⟨t, hbrings, h.trans hrests⟩

theorem rests_teller (atoms : Atoms) (tell : Atom → Tidings) :
    (teller atoms tell).Rests (teller atoms tell) := ⟨⟨rfl, rfl, rfl⟩, rfl⟩

end Script

end Clipboard.X11
