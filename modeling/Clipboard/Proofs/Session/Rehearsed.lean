import Clipboard.Rehearsal
import Clipboard.Proofs.Session.Faithful

/-!
# Rehearsed backends are faithful

A rehearsed backend that is told to react as usual keeps its entries as a
faithful one does, whatever its part.

* `play_of_idle`: a call without a reaction to it is answered as usual;
* `Rehearsal.faithful`: the laws of a faithful backend.
-/

namespace Clipboard.Rehearsal

variable {α : Type} {s : Rehearsal} {entries : Entries}

/-- A rehearsal in which nothing is told to go otherwise than usual. -/
def Idle (s : Rehearsal) : Prop := ∀ cue, s.reactions cue = []

theorem take_of_idle (hs : s.Idle) (cue : Cue) :
    ∃ s', s.take cue = (.usual, s') ∧ s'.Idle ∧ s'.entries = s.entries := by
  refine ⟨(s.take cue).2, ?_, ?_, rfl⟩
  · simp [take, hs cue]
  · intro c
    simp [take, hs c]

theorem play_of_idle (hs : s.Idle) (cue : Cue) (call : Call) (blank : α)
    (usual : Rehearsal → α × Rehearsal) :
    ∃ s', play cue call blank usual s = (.done (usual s').1, (usual s').2) ∧
      s'.Idle ∧ s'.entries = s.entries := by
  have hnoted : ({ s with calls := s.calls ++ [call] } : Rehearsal).Idle := hs
  obtain ⟨s', htake, hs', hentries⟩ := take_of_idle hnoted cue
  exact ⟨s', by simp [play, htake], hs', hentries⟩

theorem dismiss_of_idle (hs : s.Idle) :
    ∃ s', dismiss s = (.done (), s') ∧ s'.Idle ∧ s'.entries = s.entries := by
  have hnoted : ({ s with calls := s.calls ++ [.release] } : Rehearsal).Idle := hs
  obtain ⟨s', htake, hs', hentries⟩ := take_of_idle hnoted .release
  exact ⟨s', by simp [dismiss, htake], hs', hentries⟩

/-- What a rehearsed backend stores of entries: their octets. -/
def octetsOf (entries : Entries) : List (Format.Id × Octets) :=
  entries.map fun e => (e.1, e.2.bytes)

theorem contentOf?_octetsOf (entries : Entries) (id : Format.Id) :
    contentOf? (octetsOf entries) id = (entries.stored? id).map (·.bytes) := by
  induction entries with
  | nil => rfl
  | cons e rest ih =>
      simp only [contentOf?, octetsOf, Entries.stored?, List.map_cons, List.find?_cons] at ih ⊢
      by_cases hid : e.1 = id
      · simp [hid]
      · simpa [hid] using ih

/-- A rehearsal that goes as usual, with these entries. -/
structure Keeps (s : Rehearsal) (entries : Entries) : Prop where
  idle : s.Idle
  stored : s.entries = octetsOf entries

/-- A question is answered as usual and changes nothing but the list of calls. -/
theorem Keeps.ask (h : s.Keeps entries) (cue : Cue) (call : Call) (blank : α)
    (answer : Rehearsal → α) :
    ∃ s', play cue call blank (fun s => (answer s, s)) s = (.done (answer s'), s') ∧
      s'.Keeps entries := by
  obtain ⟨s', hplay, hs', heq⟩ := play_of_idle h.idle cue call blank fun s => (answer s, s)
  exact ⟨s', hplay, hs', heq.trans h.stored⟩

/-- Whatever its part, a rehearsed backend that goes as usual is faithful. -/
def faithful (part : Part) : Faithful (backend part) part.textFormats where
  Keeps _ := Keeps
  acquire h := h.ask .acquire .acquire () fun _ => ()
  release := by
    intro s entries h
    obtain ⟨s', hplay, hs', heq⟩ := dismiss_of_idle h.idle
    exact ⟨s', hplay, hs', heq.trans h.stored⟩
  formatsFor_text h := h.ask .formatsFor (.formatsFor .text) [] fun _ => part.textFormats
  formatsFor_custom name h :=
    ⟨_, h.ask .formatsFor (.formatsFor (.custom name)) [] fun _ =>
      part.customFormats.getD [⟨.named name, .opaqueData, true⟩]⟩
  pick := by
    intro s entries among h
    refine probe_of_offers (P := fun s : Rehearsal => s.Keeps entries) ?_ among h
    intro id s hs
    obtain ⟨s', hplay, hs'⟩ :=
      hs.ask .offers (.offers id) false fun s => (contentOf? s.entries id).isSome
    refine ⟨s', hplay.trans ?_, hs'⟩
    rw [hs'.stored, contentOf?_octetsOf, Option.isSome_map]
  read := by
    intro s entries f h
    obtain ⟨s', hplay, hs'⟩ := h.ask .read (.read f) none
      fun s => (contentOf? s.entries f.id).map fun bytes => (⟨bytes, f.encoding⟩ : Payload)
    refine ⟨_, s', hplay, ?_, hs'⟩
    rw [hs'.stored, contentOf?_octetsOf]
    cases entries.stored? f.id with
    | none => rfl
    | some p => exact .inr rfl
  write := by
    intro s entries items h
    obtain ⟨s', hplay, hs', -⟩ := play_of_idle h.idle .write (.write items) () fun s =>
      ((), { s with entries := items.map fun item => (item.1.id, item.2.bytes) })
    refine ⟨_, hplay, hs', ?_⟩
    simp [octetsOf, Entries.ofItems]

end Clipboard.Rehearsal
