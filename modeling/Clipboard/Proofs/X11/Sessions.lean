import Clipboard.X11.Backend
import Clipboard.Proofs.Session.Access
import Clipboard.Proofs.Session.Resolving

/-!
# Sessions of a client

A client of a display server has nothing to acquire and nothing to release: a session is what is
done in it, as long as the client has its connection.  Text goes by formats that a client knows
without asking; any other kind goes by a number that it asks for once.

* `session_of_alive`, `session_of_lost`: a session, by whether there is a connection;
* `Knows.resolve_eq`: formats that are remembered, or that need not be.
-/

namespace Clipboard.X11.Connection

open Action

variable {σ α : Type} {c : Connection σ} {p : Policy} {d d' : Host σ} {kind : Kind}
  {formats : List Format} {body : Handle σ → Action (Host σ) AccessError α}

/-- The clipboard of a client. -/
def clipboard (c : Connection σ) (p : Policy) : Board σ := ⟨c.backend, p⟩

theorem session_of_alive (halive : (c.selection d.world).alive = true) :
    (c.clipboard p).session body d = body ⟨c.backend, true⟩ d := by
  have hacquire : c.backend.acquire d.world = (.done (), d.world) := if_pos halive
  exact Board.session_of_open (Backend.openHandle_of_acquire hacquire p) (Prod.ext rfl rfl) rfl

/-- A client without its connection has no sessions. -/
theorem session_of_lost (hlost : (c.selection d.world).alive = false) :
    (c.clipboard p).session body d =
      (.failed (.acquireFailed 1 (Failure.unavailable "X11 connection lost").message), d) := by
  have hacquire : c.backend.acquire d.world =
      (.failed (.unavailable "X11 connection lost"), d.world) :=
    if_neg (show ¬ (c.selection d.world).alive = true by simp [hlost])
  exact Board.session_of_failed (Backend.openHandle_of_unavailable hacquire p)

theorem alive_of_session {a : α} (h : (c.clipboard p).session body d = (.done a, d')) :
    (c.selection d.world).alive = true := by
  cases halive : (c.selection d.world).alive with
  | true => rfl
  | false => cases h.symm.trans (session_of_lost halive)

/-! ## Formats -/

/-- The formats of a kind are remembered, or are those of text in any case. -/
def Knows (c : Connection σ) (r : Registry) (kind : Kind) (formats : List Format) : Prop :=
  r.find? "x11" kind = some formats ∨
    r.find? "x11" kind = none ∧ kind = .text ∧ formats = c.textFormats

theorem Knows.resolve_eq (h : c.Knows d.registry kind formats) :
    ∃ registry, c.backend.resolve kind d = (.done formats, ⟨d.world, registry⟩) ∧
      registry.find? "x11" kind = some formats := by
  rcases h with hfind | ⟨hnew, rfl, rfl⟩
  · exact ⟨d.registry, Backend.resolve_of_find? hfind, hfind⟩
  · have hasked : c.backend.formatsFor .text d.world = (.done c.textFormats, d.world) := rfl
    exact ⟨_, Backend.resolve_of_formats hnew hasked (List.cons_ne_nil _ _),
      Registry.find?_keep_self hnew _⟩

end Clipboard.X11.Connection
