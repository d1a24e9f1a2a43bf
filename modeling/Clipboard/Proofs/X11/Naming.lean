import Clipboard.Proofs.X11.Relays
import Clipboard.Proofs.X11.Sessions

/-!
# What formats go by

All clipboards of a display have the same formats.  Text goes by numbers that are fixed, and any
other kind by the number of its name.  A program remembers the formats of its clipboards; if it uses
no other display, what it remembers is right.

* `Atoms.Names`: the formats of a kind;
* `Display.Remembers`: what a program may come to remember;
* `Remembers.names`, `names_of_resolve`: it is right, and so is what a clipboard answers with;
* `Knows.resolve`: what is known is not forgotten.
-/

namespace Clipboard.X11

open Action

/-- The formats of a kind.  No name but its own has a number that the protocol uses. -/
def Atoms.Names (a : Atoms) : Kind → List Format → Prop
  | .text, formats => formats = a.textTargets.map a.formatOfText
  | .custom name, formats => ∃ n, formats = [⟨.number n, .opaqueData, true⟩] ∧
      (n = a.targets → name = "TARGETS") ∧ (n = a.incremental → name = "INCR")

namespace Connection

variable {σ : Type} {c c' : Connection σ} {kind kind' : Kind} {formats : List Format}
  {e : Host σ}

theorem textFormats_congr (h : c'.atoms = c.atoms) : c'.textFormats = c.textFormats := by
  rw [textFormats, textFormats, h]

theorem Knows.congr {r : Registry} (h : c.Knows r kind formats) (hsame : c'.atoms = c.atoms) :
    c'.Knows r kind formats := by
  unfold Knows
  rw [textFormats_congr hsame]
  exact h

/-- What is known of a kind is not forgotten when formats are asked for. -/
theorem Knows.resolve (h : c.Knows e.registry kind formats) (hsame : c'.atoms = c.atoms)
    (kind' : Kind) : c.Knows (c'.backend.resolve kind' e).2.registry kind formats := by
  rcases c'.backend.registry_resolve kind' e with hkept | ⟨answer, hnew, hasked, hkept⟩
  · rw [hkept]
    exact h
  · rw [hkept]
    rcases h with hfind | ⟨hfind, rfl, rfl⟩
    · left
      rw [Registry.find?_keep, hfind]
      rfl
    · by_cases hkind : kind' = .text
      · subst hkind
        obtain rfl : c'.textFormats = answer := Outcome.done.inj hasked
        rw [textFormats_congr hsame]
        exact .inl (Registry.find?_keep_self hnew _)
      · right
        refine ⟨?_, rfl, rfl⟩
        rw [Registry.find?_keep_of_ne fun hsame => hkind (Prod.mk.inj hsame).2]
        exact hfind

end Connection

namespace Display

variable {ι σ : Type} {d : Display ι σ} {fair ready : σ → Prop} {r : Registry} {k : ι} {s : σ}
  {e e' : Host σ} {kind : Kind} {formats : List Format}

/-- What a program may remember that asks its clipboards for formats, on this display and
elsewhere. -/
inductive Remembers (d : Display ι σ) (fair : σ → Prop) : Registry → Prop
  | nothing : Remembers d fair {}
  | asks {r : Registry} {s : σ} (k : ι) (kind : Kind) (h : Remembers d fair r) (hfair : fair s) :
      Remembers d fair ((d.desk k).backend.resolve kind ⟨s, r⟩).2.registry
  /-- The program also uses clipboards of other sorts. -/
  | elsewhere {r : Registry} {name : String} (kind : Kind) (formats : List Format)
      (h : Remembers d fair r) (hname : name ≠ "x11") : Remembers d fair (r.keep name kind formats)

namespace Reliable

variable (h : d.Reliable fair ready)
include h

/-- The formats that a clipboard asks for are those of the display. -/
theorem names_of_formatsFor (hs : fair s)
    (hrun : ((d.desk k).backend.formatsFor kind s).1 = .done formats) :
    (d.atoms k).Names kind formats := by
  cases kind with
  | text =>
      obtain rfl : (d.desk k).textFormats = formats := Outcome.done.inj hrun
      exact (Connection.map_formatOfText (h.apart k)).symm
  | custom name =>
      change ((d.desk k).formatsFor (.custom name) s).1 = _ at hrun
      rw [Connection.formatsFor] at hrun
      split at hrun
      · cases hrun
      · obtain ⟨a, s₁, hasked, hgiven⟩ := bind_eq_done (Prod.ext hrun rfl)
        cases hgiven
        exact ⟨a, rfl, h.numbered k s name a _ hs (mapCause_eq_done hasked)⟩

theorem names_of_asks (hs : fair e.world)
    (hnative : ∀ k kind formats, e.registry.find? "x11" kind = some formats →
      (d.atoms k).Names kind formats) (kind : Kind) :
    ∀ j kind' formats, ((d.desk k).backend.resolve kind e).2.registry.find? "x11" kind' =
      some formats → (d.atoms j).Names kind' formats := by
  intro j kind' formats hfind
  rcases (d.desk k).backend.registry_resolve kind e with hkept | ⟨answer, hnew, hasked, hkept⟩
  · rw [hkept] at hfind
    exact hnative j kind' formats hfind
  · rw [hkept] at hfind
    by_cases hkind : kind = kind'
    · subst hkind
      cases hfind.symm.trans (Registry.find?_keep_self hnew answer)
      rw [h.alike j k]
      exact h.names_of_formatsFor hs hasked
    · rw [show (d.desk k).backend.name = "x11" from rfl,
        Registry.find?_keep_of_ne (by simpa using hkind)] at hfind
      exact hnative j kind' formats hfind

end Reliable

/-- What a program remembers of this display is right. -/
theorem Remembers.names (h : d.Remembers fair r) (hr : d.Reliable fair ready) :
    ∀ k kind formats, r.find? "x11" kind = some formats → (d.atoms k).Names kind formats := by
  induction h with
  | nothing => exact fun k kind formats hfind => by cases hfind
  | asks k kind _ hfair ih => exact hr.names_of_asks (e := ⟨_, _⟩) hfair ih kind
  | elsewhere kind formats _ hname ih =>
      intro k kind' formats' hfind
      rw [Registry.find?_keep_of_ne (by simp [hname])] at hfind
      exact ih k kind' formats' hfind

/-- The formats that a clipboard answers with are right, and known from then on. -/
theorem Remembers.resolve (h : d.Remembers fair e.registry) (hr : d.Reliable fair ready)
    (hs : fair e.world) (hrun : (d.desk k).backend.resolve kind e = (.done formats, e')) :
    (d.atoms k).Names kind formats ∧ (d.desk k).Knows e'.registry kind formats := by
  have hfind := Backend.remembered_of_resolve hrun
  have hnames := hr.names_of_asks (k := k) hs (h.names hr) kind
  rw [hrun] at hnames
  exact ⟨hnames k kind formats hfind, .inl hfind⟩

end Display

end Clipboard.X11
