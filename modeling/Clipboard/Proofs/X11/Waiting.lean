import Clipboard.Proofs.X11.Connections
import Clipboard.Proofs.X11.Settling

/-!
# Waiting on a server

A client that waits for a notice looks at those that have come in, and when there are none lets
everybody settle.  What it hears in the end is its stream: the notices that it has, and those that
are on their way to it.  While nobody asks anything, nothing is added to the stream of anybody.

* `connection_abides`: nothing that a client does moves the selection, unless it makes a claim;
* `awaitNotice_pends`: what waiting leaves to be dealt with;
* `advance_calm`: while nobody asks anything, all that a client comes to is on its way already;
* `listen_settle`: a client with nothing to look at hears what is there when all have settled.
-/

namespace Clipboard.X11

namespace Server

open Action

variable {s s' : Server} {i j k longest : Nat} {patience : Duration} {α : Type}

/-! ## Nothing moves the selection but claims -/

theorem request_steady {r : Request} {answer : Action Server Fault α}
    (h : ∀ s : Server, s.takesOver = false → Steady s (answer s).2) (s : Server)
    (htakes : s.takesOver = false) : Steady s (request i r answer s).2 := by
  unfold request
  split
  · split
    · next hr => exact disconnect_steady (hangsUp_of_refuses hr) i
    · exact h s htakes
  · exact .refl s

theorem intern_steady {name : String}
    (h : (s.number? name).isNone = true → s.names.length < nameCapacity) :
    Steady s (s.intern name).2 := by
  unfold intern
  cases hnumber : s.number? name with
  | some a => exact .refl s
  | none =>
      have hroom := h (by rw [hnumber]; rfl)
      refine ⟨rfl, List.prefix_append _ _, ?_, rfl, fun _ => .refl _⟩
      simp only [List.length_append, List.length_singleton]
      omega

theorem requestAtom_steady (i : Nat) (name : String) :
    ∀ s : Server, s.takesOver = false → Steady s (requestAtom i name s).2 :=
  request_steady fun s _ => by
    split
    · exact .refl s
    · next hgranted =>
        refine intern_steady fun hnew => ?_
        exact Nat.lt_of_not_le fun hfull => hgranted (.inr ⟨hnew, hfull⟩)

/-- A client that waits looks at a notice that it has, or at one that it has when all have
settled, or at none. -/
theorem listen_cases (s : Server) (i : Nat) :
    ∃ t looked rest,
      (t = s ∧ (s.client i).inbox ≠ [] ∨ t = s.settle ∧ (s.client i).inbox = []) ∧
      (t.client i).inbox = looked ++ rest ∧
      (s.listen i).2 = (t.amend i fun c => { c with inbox := rest }) ∧
      ∀ n, (s.listen i).1 = .notice n → looked = [n] := by
  cases hinbox : (s.client i).inbox with
  | cons n rest =>
      refine ⟨s, [n], rest, .inl ⟨rfl, by simp⟩, hinbox, ?_, ?_⟩ <;>
        simp [listen, heard?, hinbox]
  | nil =>
      cases hlater : (s.settle.client i).inbox with
      | cons n rest =>
          refine ⟨s.settle, [n], rest, .inr ⟨rfl, rfl⟩, hlater, ?_, ?_⟩ <;>
            simp [listen, heard?, hinbox, hlater]
      | nil =>
          -- Taking nothing out of an empty inbox leaves it as it is.
          have hid : (s.settle.amend i fun c => { c with inbox := [] }) = s.settle := by
            have hsame : s.settle.clients.modify i (fun c => { c with inbox := [] }) =
                s.settle.clients := by
              refine List.ext_getElem? fun k => ?_
              rw [List.getElem?_modify]
              by_cases hk : i = k
              · subst hk
                cases hget : s.settle.clients[i]? with
                | none => rfl
                | some c =>
                    rw [client, List.getD_eq_getElem?_getD, hget] at hlater
                    cases c
                    simp_all
              · simp [hk]
            rw [amend, hsame]
          refine ⟨s.settle, [], [], .inr ⟨rfl, rfl⟩, hlater, ?_, ?_⟩
          · rw [hid]
            simp only [listen, heard?, hinbox, hlater]
            split <;> rfl
          · intro n hn
            simp only [listen, heard?, hinbox, hlater] at hn
            split at hn <;> cases hn

theorem listen_steady (s : Server) (i : Nat) : Steady s (s.listen i).2 := by
  obtain ⟨t, looked, rest, ht, hinbox, hafter, -⟩ := listen_cases s i
  rw [hafter]
  rcases ht with ⟨rfl, -⟩ | ⟨rfl, -⟩
  · exact look_steady hinbox
  · exact (settle_steady s).trans (look_steady hinbox)

/-- Steadiness on a server on which nobody takes the selection out of turn. -/
def steadily (s s' : Server) : Prop := s.takesOver = false → Steady s s'

theorem bounds_steadily : Bounds steadily where
  refl s _ := .refl s
  trans h h' htakes := (h htakes).trans (h' (by rw [(h htakes).takesOver, htakes]))

theorem connection_abides : (connection i longest patience).Abides steadily where
  bounds := bounds_steadily
  send posts hposts s _ := by
    show Steady s (if (s.client i).connected then _ else _ : Outcome Hitch Unit × Server).2
    split
    · refine posts_steady (fun p hp => ?_) s i
      cases p with
      | claim w a t => exact absurd rfl (hposts _ hp w a t)
      | _ => rfl
    · exact .refl s
  intern name := requestAtom_steady i name
  owner := request_steady fun s htakes => by
    split
    · exact .refl s
    · simp only [htakes, Bool.false_eq_true, false_and, if_false]
      exact .refl s
  collect := request_steady fun s _ => by
    dsimp only
    exact (drop_serves (E := (·.SentAt s.stamp)) fun _ => rfl).steady
  listen s _ := listen_steady s i
  discard s _ := discard_steady s i

/-! ## What is left pending -/

variable {p : Event → Prop}

theorem pends_amend {f : Client → Client} (hs : s.Pends p)
    (h : ∀ e ∈ (f (s.client i)).pending, p e) : (s.amend i f).Pends p := by
  intro k
  rw [client_amend]
  split
  · exact h
  · exact hs k

theorem Serves.pends (h : Serves p s s') (hs : s.Pends p) : s'.Pends p := by
  intro k e he
  obtain ⟨es, hes, hp⟩ := (h.each k).pending
  rw [hes] at he
  rcases List.mem_append.mp he with he | he
  · exact hs k e he
  · exact hp e he

theorem disconnect_pends (hs : s.Pends p) (i : Nat) : (s.disconnect i).Pends p :=
  pends_amend hs (by simp)

theorem listen_pends (h : (s.client i).inbox = [] ∨ s.Pends p) : (s.listen i).2.Pends p := by
  obtain ⟨t, looked, rest, ⟨rfl, hne⟩ | ⟨rfl, -⟩, -, hlisten, -⟩ := listen_cases s i
  · have hs := h.resolve_left hne
    rw [hlisten]
    exact pends_amend hs (hs i)
  · have hs := (settle_quiet s).pends p
    rw [hlisten]
    exact pends_amend hs (hs i)

/-- Waiting ends with nothing of another sort pending, if there was none or the
client had nothing to look at. -/
theorem awaitNotice_pends (accept : Notice → Option α)
    (h : (s.client i).inbox = [] ∨ s.Pends p) :
    (((connection i longest patience).awaitNotice accept) s).2.Pends p := by
  have hsome (n : Nat) : ∀ s : Server, ((s.client i).inbox = [] ∨ s.Pends p) →
      (((connection i longest patience).awaitAmong accept (n + 1)) s).2.Pends p := by
    induction n with
    | zero =>
        intro s h
        rcases Connection.awaitAmong_snd accept 0 s with hend | hend <;> rw [hend]
        · exact listen_pends h
        · exact listen_pends h
    | succ n ih =>
        intro s h
        rcases Connection.awaitAmong_snd accept (n + 1) s with hend | hon
        · rw [hend]; exact listen_pends h
        · rw [hon]; exact ih _ (.inr (listen_pends h))
  exact hsome _ s h

/-! ## While nobody asks anything -/

/-- Nobody has been asked anything that has not been dealt with. -/
def Calm (s : Server) : Prop := s.Pends (·.isInquiry = false)

theorem advance_calm (h : s.Calm) (k : Nat) :
    (s.advance k).Calm ∧
      ∀ j, ((s.advance k).client j).caughtUp (windowOf j) = (s.client j).caughtUp (windowOf j) := by
  refine ⟨advance_pends h (h k), fun j => ?_⟩
  cases hpending : (s.client k).pending with
  | nil => rw [advance_of_nil hpending]
  | cons e rest =>
      have he := h k e (by rw [hpending]; exact List.mem_cons_self)
      exact (advance_of_other hpending he j).2

/-! ## The notice that is waited for -/

theorem lt_of_inbox (h : (s.client i).inbox ≠ []) : i < s.clients.length := by
  apply Classical.byContradiction
  intro hle
  rw [client_of_le (by omega)] at h
  exact h rfl

theorem listen_of_inbox {m : Notice} {rest : List Notice}
    (h : (s.client i).inbox = m :: rest) :
    s.listen i = (.notice m, s.amend i fun c => { c with inbox := rest }) := by
  simp [listen, heard?, h]

/-- A client with nothing to look at hears of what the others send it. -/
theorem listen_settle (h : (s.client i).inbox = []) (hlater : (s.settle.client i).inbox ≠ []) :
    s.listen i = s.settle.listen i := by
  obtain ⟨m, rest, hm⟩ := List.exists_cons_of_ne_nil hlater
  rw [listen_of_inbox hm]
  simp [listen, heard?, h, hm]

end Server

end Clipboard.X11
