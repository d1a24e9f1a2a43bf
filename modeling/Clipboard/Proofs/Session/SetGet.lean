import Mathlib.Data.List.Nodup
import Clipboard.Proofs.Session.Rehearsed

/-!
# Setting and getting text

Writing offers a text in those formats that take text, while reading looks
through all formats of text in order, with some among them that are only read
or hold no text.  The two meet in `Carries`: whatever format of text is found
holds the text as that format encodes it.

* `carries_ofItems`: what is offered for a text carries it;
* `read_of_carries`: the read lands on a format that was written;
* `setText_getText`: a text that has been put there is found by every later read.
-/

namespace Clipboard

variable {σ : Type} {b : Backend σ} {formats : List Format} {entries : Entries} {text : String}
  {d : Host σ}

/-- Some format of text is stored, and whichever is holds this text. -/
structure Carries (convention : Convention) (formats : List Format) (text : String)
    (entries : Entries) : Prop where
  found : ∃ f ∈ formats, (entries.stored? f.id).isSome = true
  encoded : ∀ f ∈ formats, ∀ p, entries.stored? f.id = some p →
    Payload.ofText text f.encoding convention = .ok p

/-- The items of a text carry it if no two formats share an identifier. -/
theorem carries_ofItems {convention : Convention} {items : List (Format × Payload)}
    (hids : (formats.map (·.id)).Nodup)
    (hitems : Handle.itemsOfText text convention formats = .ok items) (hne : items ≠ []) :
    Carries convention formats text (.ofItems items) := by
  have hfst := Handle.map_fst_of_encodeEach hitems
  have hof := Handle.ofText_of_encodeEach hitems
  have hmem : ∀ i ∈ items, i.1 ∈ formats := by
    intro i hi
    have hi' : i.1 ∈ items.map (·.1) := List.mem_map_of_mem hi
    rw [hfst] at hi'
    exact List.mem_of_mem_filter hi'
  constructor
  · obtain ⟨i, rest, rfl⟩ := List.exists_cons_of_ne_nil hne
    refine ⟨i.1, hmem i List.mem_cons_self, ?_⟩
    simp [Entries.stored?, Entries.ofItems]
  · intro f hf p hp
    obtain ⟨e, he, rfl⟩ := Option.map_eq_some_iff.mp hp
    obtain ⟨i, hi, rfl⟩ := List.mem_map.mp (List.mem_of_find?_eq_some he)
    have hid : i.1.id = f.id := by simpa using List.find?_some he
    have hif : i.1 = f := List.inj_on_of_nodup_map hids (hmem i hi) hf hid
    rw [← hif]
    exact hof i hi

namespace Faithful

variable {F : Faithful b formats}

/-- The format of text that is found holds the text as it encodes it. -/
theorem pick_of_carries (hd : F.Holds true d entries)
    (hc : Carries b.convention formats text entries) :
    ∃ f p d', (⟨b, true⟩ : Handle σ).pick formats d = (.done (some f), d') ∧
      entries.stored? f.id = some p ∧ Payload.ofText text f.encoding b.convention = .ok p ∧
      F.Holds true d' entries := by
  obtain ⟨w, hpick, hw⟩ := F.pick formats hd.1
  obtain ⟨hon, hd'⟩ := hd.on hpick hw
  have hsome : (formats.find? fun f => (entries.stored? f.id).isSome).isSome = true :=
    List.find?_isSome.mpr hc.found
  obtain ⟨f, hfind⟩ := Option.isSome_iff_exists.mp hsome
  have hstored : (entries.stored? f.id).isSome = true := by simpa using List.find?_some hfind
  obtain ⟨p, hp⟩ := Option.isSome_iff_exists.mp hstored
  rw [hfind] at hon
  exact ⟨f, p, _, Action.mapCause_of_done hon, hp,
    hc.encoded f (List.mem_of_find?_eq_some hfind) p hp, hd'⟩

theorem formatsToRead_of_carries (hd : F.Holds true d entries)
    (hc : Carries b.convention formats text entries) :
    ∃ d', (⟨b, true⟩ : Handle σ).formatsToRead .text d = (.done formats, d') ∧
      F.Holds true d' entries := by
  obtain ⟨o, d', hres, hd', ho⟩ := resolve_text hd
  obtain ⟨f, hf, _⟩ := hc.found
  have hdone : o = .done formats := by
    rcases ho with ho | ⟨hnone, _⟩
    · exact ho
    · exact absurd hf (by simp [hnone])
  subst hdone
  exact ⟨d', Action.mapCause_of_done hres, hd'⟩

theorem offers_of_carries (hd : F.Holds true d entries)
    (hc : Carries b.convention formats text entries) :
    ∃ d', (⟨b, true⟩ : Handle σ).offers .text d = (.done true, d') ∧
      F.Holds true d' entries := by
  obtain ⟨d₁, hformats, hd₁⟩ := formatsToRead_of_carries hd hc
  obtain ⟨f, p, d₂, hpick, _, _, hd₂⟩ := pick_of_carries hd₁ hc
  refine ⟨d₂, ?_, hd₂⟩
  rw [Handle.offers, Handle.ensureOpen_of_open, pure_bind, Action.bind_done hformats,
    Action.bind_done hpick]
  rfl

/-- The read lands on a format that was written, in its encoding. -/
theorem read_of_carries (hd : F.Holds true d entries)
    (hc : Carries b.convention formats text entries) :
    ∃ e p d', (⟨b, true⟩ : Handle σ).read .text d = (.done p, d') ∧
      Payload.ofText text e b.convention = .ok p ∧ F.Holds true d' entries := by
  obtain ⟨d₁, hformats, hd₁⟩ := formatsToRead_of_carries hd hc
  obtain ⟨f, p, d₂, hpick, hstored, hof, hd₂⟩ := pick_of_carries hd₁ hc
  obtain ⟨given, w, hread, hgiven, hw⟩ := F.read f hd₂.1
  obtain ⟨hon, hd₃⟩ := hd₂.on hread hw
  -- Either way the octets come with the encoding that they were written in.
  have hsame : given = some p := by
    rw [hstored] at hgiven
    have hencoding : p.encoding = f.encoding := (Payload.encodeChars_of_ofChars hof).1
    rcases hgiven with hgiven | hgiven
    · exact hgiven
    · rw [hgiven, ← hencoding]
  rw [hsame] at hon
  refine ⟨f.encoding, p, _, ?_, hof, hd₃⟩
  rw [Handle.read, Handle.ensureOpen_of_open, pure_bind, Action.bind_done hformats,
    Action.bind_done hpick]
  dsimp only
  rw [Action.bind_done (Action.mapCause_of_done hon)]
  rfl

theorem readText_of_carries (hd : F.Holds true d entries)
    (hc : Carries b.convention formats text entries) :
    ∃ d', (⟨b, true⟩ : Handle σ).readText d = (.done (LineBreaks.unifyText text), d') ∧
      F.Holds true d' entries := by
  obtain ⟨e, p, d', hread, hof, hd'⟩ := read_of_carries hd hc
  refine ⟨d', ?_, hd'⟩
  rw [Handle.readText, Action.bind_done hread, Payload.text_of_ofText hof]
  rfl

theorem hasText_of_carries (hd : F.Holds true d entries)
    (hc : Carries b.convention formats text entries) :
    ∃ d', (⟨b, true⟩ : Handle σ).hasText d = (.done true, d') ∧ F.Holds true d' entries := by
  obtain ⟨d₁, hoffers, hd₁⟩ := offers_of_carries hd hc
  obtain ⟨d₂, hread, hd₂⟩ := readText_of_carries hd₁ hc
  refine ⟨d₂, ?_, hd₂⟩
  have hbody : ((do
      if ← (⟨b, true⟩ : Handle σ).offers .text then
        let _ ← (⟨b, true⟩ : Handle σ).readText
        return true
      else return false) : Action (Host σ) AccessError Bool) d = (.done true, d₂) := by
    rw [Action.bind_done hoffers, if_pos rfl, Action.bind_done hread]
    rfl
  exact Action.recover_done hbody _

/-- Putting a text there either puts its items in the place of the entries, which
takes a format to write and a text that all of them can hold, or fails and changes
nothing. -/
theorem writeText_spec (hd : F.Holds true d entries) (text : String) :
    ∃ o d' entries', (⟨b, true⟩ : Handle σ).writeText text d = (o, d') ∧
      F.Holds true d' entries' ∧
      ((∃ items, Handle.itemsOfText text b.convention formats = .ok items ∧ items ≠ [] ∧
          o = .done () ∧ entries' = .ofItems items) ∨
        ((∀ items, Handle.itemsOfText text b.convention formats = .ok items → items = []) ∧
          (∃ e, o = .failed e) ∧ entries' = entries)) := by
  obtain ⟨o, d₁, hres, hd₁, ho⟩ := resolve_text hd
  rcases ho with rfl | ⟨rfl, e, rfl⟩
  · have hformats : (⟨b, true⟩ : Handle σ).formatsToWrite .text d = (.done formats, d₁) :=
      Action.mapCause_of_done hres
    have hwrite : (⟨b, true⟩ : Handle σ).writeText text d =
        (Action.ofExcept ((Handle.itemsOfText text b.convention formats).mapError .ofText) >>=
          (⟨b, true⟩ : Handle σ).store) d₁ := by
      rw [Handle.writeText, Handle.ensureOpen_of_open, pure_bind, Action.bind_done hformats]
    rw [hwrite]
    cases hitems : Handle.itemsOfText text b.convention formats with
    | error fault => exact ⟨_, d₁, entries, rfl, hd₁, .inr ⟨by simp, ⟨_, rfl⟩, rfl⟩⟩
    | ok items =>
        by_cases hne : items = []
        · subst hne
          exact ⟨_, d₁, entries, rfl, hd₁, .inr ⟨by simp, ⟨_, rfl⟩, rfl⟩⟩
        · obtain ⟨w, hput, hw⟩ := F.write items hd₁.1
          obtain ⟨hon, hd₂⟩ := hd₁.on hput hw
          refine ⟨_, _, _, ?_, hd₂, .inl ⟨items, rfl, hne, rfl, rfl⟩⟩
          show Handle.store _ items d₁ = _
          rw [Handle.store, if_neg (by simpa using hne), Action.mapCause_of_done hon]
  · have hformats : (⟨b, true⟩ : Handle σ).formatsToWrite .text d = (.failed (.ofWriting e), d₁) :=
      Action.mapCause_of_failed hres
    refine ⟨.failed (.ofWriting e), d₁, entries, ?_, hd₁, .inr ⟨?_, ⟨_, rfl⟩, rfl⟩⟩
    · rw [Handle.writeText, Handle.ensureOpen_of_open, pure_bind, Action.bind_failed hformats]
    · intro items hitems
      exact (Except.ok.inj hitems).symm

end Faithful

/-- A way to look at a clipboard without changing it. -/
inductive Reading where
  | text
  | hasText
  | octets (kind : Kind)

/-- The state that a reading leaves behind, whatever it comes to. -/
def Reading.leave (c : Board σ) : Reading → Host σ → Host σ
  | .text, d => (c.getText d).2
  | .hasText, d => (c.hasText d).2
  | .octets kind, d => (c.getContents kind d).2

/-- The state after some readings, each under a policy of its own. -/
def Backend.afterReadings (b : Backend σ) (readings : List (Policy × Reading)) (d : Host σ) :
    Host σ :=
  readings.foldl (fun d r => r.2.leave ⟨b, r.1⟩ d) d

namespace Faithful

variable {F : Faithful b formats}

/-- No reading changes an entry. -/
theorem leave_holds (p : Policy) (r : Reading) (hd : F.Holds false d entries) :
    F.Holds false (r.leave ⟨b, p⟩ d) entries := by
  cases r with
  | text => exact session_leaves p Handle.readText hd leaves_readText
  | hasText =>
      rw [Reading.leave, Board.hasText, Action.recover_snd]
      exact session_leaves p Handle.hasText hd leaves_hasText
  | octets kind =>
      exact session_leaves p _ hd (leaves_bind (leaves_read kind) fun _ => leaves_pure _)

theorem afterReadings_holds (readings : List (Policy × Reading)) (hd : F.Holds false d entries) :
    F.Holds false (b.afterReadings readings d) entries := by
  induction readings generalizing d with
  | nil => exact hd
  | cons r rest ih => exact ih (leave_holds r.1 r.2 hd)

theorem getText_of_carries (p : Policy) (hd : F.Holds false d entries)
    (hc : Carries b.convention formats text entries) :
    ((⟨b, p⟩ : Board σ).getText d).1 = .done (LineBreaks.unifyText text) := by
  obtain ⟨d', hrun, _⟩ :=
    session_done p Handle.readText hd fun _ hd₁ => readText_of_carries hd₁ hc
  rw [Board.getText, hrun]

theorem hasText_true_of_carries (p : Policy) (hd : F.Holds false d entries)
    (hc : Carries b.convention formats text entries) :
    ((⟨b, p⟩ : Board σ).hasText d).1 = .done true := by
  obtain ⟨d', hrun, _⟩ :=
    session_done p Handle.hasText hd fun _ hd₁ => hasText_of_carries hd₁ hc
  rw [Board.hasText, Action.recover_done hrun]

/-- The items of a text exist and are some if a format takes text and all that do
can hold this one. -/
theorem itemsOfText_iff {convention : Convention} :
    (∃ items, Handle.itemsOfText text convention formats = .ok items ∧ items ≠ []) ↔
      (∃ f ∈ formats, f.takesText = true) ∧
        ∀ f ∈ formats, f.takesText = true →
          ∃ payload, Payload.ofText text f.encoding convention = .ok payload := by
  have hsome : ∀ items, Handle.itemsOfText text convention formats = .ok items →
      (items ≠ [] ↔ ∃ f ∈ formats, f.takesText = true) := by
    intro items hitems
    have hnil : items = [] ↔ formats.filter (·.takesText) = [] := by
      rw [← Handle.map_fst_of_encodeEach hitems, List.map_eq_nil_iff]
    rw [Ne, hnil, List.filter_eq_nil_iff]
    simp
  have hall : (∃ items, Handle.itemsOfText text convention formats = .ok items) ↔
      ∀ f ∈ formats, f.takesText = true →
        ∃ payload, Payload.ofText text f.encoding convention = .ok payload := by
    rw [Handle.itemsOfText, Handle.encodeEach_iff]
    simp [List.mem_filter]
  rw [← hall]
  constructor
  · rintro ⟨items, hitems, hne⟩
    exact ⟨(hsome items hitems).mp hne, items, hitems⟩
  · rintro ⟨hsomewhere, items, hitems⟩
    exact ⟨items, hitems, (hsome items hitems).mpr hsomewhere⟩

/-- **What is set is got.**  On a faithful backend with formats of text that differ
in their identifiers, putting a text there succeeds just if some format takes text
and all that do can hold this one.  From then on, however often the clipboard is
read, the text is there in its canonical form. -/
theorem setText_getText (F : Faithful b formats) (hids : (formats.map (·.id)).Nodup)
    (hd : F.Holds false d entries) (p : Policy) (text : String) :
    let set := (⟨b, p⟩ : Board σ).setText text d
    (set.1 = .done () ↔
      (∃ f ∈ formats, f.takesText = true) ∧
        ∀ f ∈ formats, f.takesText = true →
          ∃ payload, Payload.ofText text f.encoding b.convention = .ok payload) ∧
    (set.1 = .done () → ∀ (readings : List (Policy × Reading)) (q : Policy),
      let d' := b.afterReadings readings set.2
      ((⟨b, q⟩ : Board σ).getText d').1 = .done (LineBreaks.unifyText text) ∧
        ((⟨b, q⟩ : Board σ).hasText d').1 = .done true) := by
  obtain ⟨o, d₁, entries₁, hrun, hd₁, hwritten⟩ :=
    session p (Handle.writeText · text) _ hd fun _ hd₀ => writeText_spec hd₀ text
  have hset : (⟨b, p⟩ : Board σ).setText text d = (o, d₁) := hrun
  intro set
  have hfst : set.1 = o := by rw [show set = (o, d₁) from hset]
  have hsnd : set.2 = d₁ := by rw [show set = (o, d₁) from hset]
  rw [hfst, hsnd, ← itemsOfText_iff]
  rcases hwritten with ⟨items, hitems, hne, rfl, rfl⟩ | ⟨hnone, ⟨e, rfl⟩, rfl⟩
  · have hc : Carries b.convention formats text (.ofItems items) :=
      carries_ofItems hids hitems hne
    refine ⟨iff_of_true rfl ⟨items, hitems, hne⟩, fun _ readings q => ?_⟩
    have hd₂ := afterReadings_holds readings hd₁
    exact ⟨getText_of_carries q hd₂ hc, hasText_true_of_carries q hd₂ hc⟩
  · refine ⟨iff_of_false (by simp) ?_, fun hdone => by simp at hdone⟩
    rintro ⟨items, hitems, hne⟩
    exact hne (hnone items hitems)

/-- A part whose formats of text are of every sort, with those that are not offered
ahead of those that are. -/
def medley : Part where
  name := "medley"
  convention := .windows
  textFormats :=
    [⟨.named "application/rtf", .opaqueData, true⟩, .readOnly (.number 7) .utf8,
      ⟨.number 1, .latin1, true⟩, .readOnly (.number 8) .opaqueData,
      ⟨.number 13, .utf16le, true⟩]

/-- A text put over content in a format that is only read. -/
theorem setText_getText_medley :
    (medley.textFormats.map (·.id)).Nodup ∧
      let set := (⟨Rehearsal.backend medley, {}⟩ : Board Rehearsal).setText "é\r1"
        ⟨{ entries := [(.number 7, [0x6F, 0x6C, 0x64])] }, {}⟩
      set.1 = .done () ∧ ∀ (readings : List (Policy × Reading)) (q : Policy),
        let d' := (Rehearsal.backend medley).afterReadings readings set.2
        ((⟨Rehearsal.backend medley, q⟩ : Board Rehearsal).getText d').1 =
            .done (LineBreaks.unifyText "é\r1") ∧
          ((⟨Rehearsal.backend medley, q⟩ : Board Rehearsal).hasText d').1 = .done true := by
  have hids : (medley.textFormats.map (·.id)).Nodup := by decide
  have hholds : (Rehearsal.faithful medley).Holds false
      ⟨{ entries := [(.number 7, [0x6F, 0x6C, 0x64])] }, {}⟩
      [(.number 7, ⟨[0x6F, 0x6C, 0x64], .utf8⟩)] :=
    ⟨⟨fun _ => rfl, rfl⟩, fun kept hkept => by simp [Registry.find?] at hkept⟩
  have hset := setText_getText (Rehearsal.faithful medley) hids hholds {} "é\r1"
  have hdone : ((⟨Rehearsal.backend medley, {}⟩ : Board Rehearsal).setText "é\r1"
      ⟨{ entries := [(.number 7, [0x6F, 0x6C, 0x64])] }, {}⟩).1 = .done () := by decide +kernel
  exact ⟨hids, hdone, hset.2 hdone⟩

end Faithful

end Clipboard
