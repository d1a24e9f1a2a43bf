import Clipboard.Session

/-!
# What is offered for a text

A text is offered in every format that takes text, in order, each time in the
encoding of that format, and not at all if one of them cannot hold it.

* `encodeEach_iff`: when each of some formats can hold a text;
* `map_fst_of_encodeEach`, `ofText_of_encodeEach`: the formats of the items, and
  what each of them carries.
-/

namespace Clipboard.Handle

variable {text : String} {convention : Convention} {f : Format} {formats : List Format}
  {items : List (Format × Payload)}

/-- The items of a text exist if every format can hold it. -/
theorem encodeEach_iff :
    (∃ items, encodeEach text convention formats = .ok items) ↔
      ∀ f ∈ formats, ∃ p, Payload.ofText text f.encoding convention = .ok p := by
  induction formats with
  | nil => simp [encodeEach]
  | cons f rest ih =>
      rw [List.forall_mem_cons, ← ih, encodeEach]
      cases Payload.ofText text f.encoding convention with
      | error fault => simp
      | ok p =>
          cases encodeEach text convention rest <;> simp [Except.map]

/-- The items for a first format and others are one for it and those for them. -/
theorem encodeEach_cons (h : encodeEach text convention (f :: formats) = .ok items) :
    ∃ p others, Payload.ofText text f.encoding convention = .ok p ∧
      encodeEach text convention formats = .ok others ∧ items = (f, p) :: others := by
  rw [encodeEach] at h
  cases hp : Payload.ofText text f.encoding convention with
  | error fault => simp [hp] at h
  | ok p =>
      cases hrest : encodeEach text convention formats with
      | error fault => simp [hp, hrest, Except.map] at h
      | ok others =>
          refine ⟨p, others, rfl, rfl, ?_⟩
          simpa [hp, hrest, Except.map] using h.symm

theorem map_fst_of_encodeEach (h : encodeEach text convention formats = .ok items) :
    items.map (·.1) = formats := by
  induction formats generalizing items with
  | nil =>
      cases h
      rfl
  | cons f rest ih =>
      obtain ⟨p, others, _, hrest, rfl⟩ := encodeEach_cons h
      rw [List.map_cons, ih hrest]

theorem ofText_of_encodeEach (h : encodeEach text convention formats = .ok items) :
    ∀ i ∈ items, Payload.ofText text i.1.encoding convention = .ok i.2 := by
  induction formats generalizing items with
  | nil =>
      cases h
      simp
  | cons f rest ih =>
      obtain ⟨p, others, hp, hrest, rfl⟩ := encodeEach_cons h
      exact List.forall_mem_cons.mpr ⟨hp, ih hrest⟩

end Clipboard.Handle
