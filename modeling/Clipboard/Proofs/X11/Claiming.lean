import Clipboard.Proofs.X11.Leftovers
import Clipboard.Proofs.X11.Turns

/-!
# Claiming the selection

Items are made into content before they are offered, unless one of them is too large or its format
has a name.  When the selection passes from one client to another, the one that loses it is told,
and nobody else.

* `Connection.contentOf_offers`: content is made of the items;
* `Connection.contend_cases`, `Connection.claim_of_contend_done`: how a claim runs;
* `Selection.claim_yieldTo`: a dispossession ends a claim that is not much older;
* `Server.client_passTo`, `Server.frame_passTo`: what a change of owner changes.
-/

namespace Clipboard.X11

/-- Content is what items make. -/
def Claim.Offers (c : Claim) (items : List (Format × Payload)) : Prop :=
  c.items.map (fun i => (Format.Id.number i.1, i.2)) = items.map fun i => (i.1.id, i.2.bytes)

namespace Connection

open Action

variable {σ α : Type} {c : Connection σ} {items : List (Format × Payload)}
  {content : List (Atom × Octets)} {since : Timestamp} {s s₁ u : σ}

/-! ## Content -/

/-- Items are made into content one by one, unless one of them is rejected. -/
theorem contentOf_cons (f : Format) (payload : Payload)
    (rest : List (Format × Payload)) :
    (∃ reason, c.contentOf ((f, payload) :: rest) = .error (.rejected reason)) ∨
      ∃ a, f.id = .number a ∧
        c.contentOf ((f, payload) :: rest) =
          (c.contentOf rest).map ((a, payload.bytes) :: ·) := by
  rw [contentOf]
  split
  · exact .inl ⟨_, rfl⟩
  · cases hid : f.id with
    | number a => exact .inr ⟨a, rfl, rfl⟩
    | named name => exact .inl ⟨_, rfl⟩

theorem contentOf_offers {content : List (Atom × Octets)}
    (h : c.contentOf items = .ok content) (t : Timestamp) : (Claim.mk content t).Offers items := by
  unfold Claim.Offers
  induction items generalizing content with
  | nil =>
      cases h
      rfl
  | cons i rest ih =>
      rcases contentOf_cons (c := c) i.1 i.2 rest with ⟨reason, hrejected⟩ | ⟨a, hid, hrun⟩
      · rw [hrejected] at h
        cases h
      · rw [hrun] at h
        cases hrest : c.contentOf rest with
        | error e =>
            rw [hrest] at h
            cases h
        | ok others =>
            rw [hrest] at h
            cases h
            simpa [hid] using ih hrest

theorem contentOf_error {e : Failure} (h : c.contentOf items = .error e) :
    ∃ reason, e = .rejected reason := by
  induction items with
  | nil => cases h
  | cons i rest ih =>
      rcases contentOf_cons (c := c) i.1 i.2 rest with ⟨reason, hrejected⟩ | ⟨a, -, hrun⟩
      · rw [hrejected] at h
        cases h
        exact ⟨reason, rfl⟩
      · rw [hrun] at h
        cases hrest : c.contentOf rest with
        | error e' =>
            rw [hrest] at h
            cases h
            exact ih hrest
        | ok others =>
            rw [hrest] at h
            cases h

theorem write_eq_claim {content : List (Atom × Octets)}
    (h : c.contentOf items = .ok content) (s : σ) :
    c.backend.write items s = c.claim content s := by
  show (Action.ofExcept (c.contentOf items) >>= fun content => c.claim content) s = _
  rw [h]
  rfl

theorem write_of_error {e : Failure} (h : c.contentOf items = .error e)
    (s : σ) : c.backend.write items s = (.failed e, s) := by
  show (Action.ofExcept (c.contentOf items) >>= fun content => c.claim content) s = _
  rw [h]
  rfl

/-! ## How a claim runs -/

theorem awaitAmong_ne_unwound (accept : Notice → Option α) (n : Nat) :
    ∀ s, (c.awaitAmong accept n s).1 ≠ .unwound := by
  induction n with
  | zero => exact fun s h => nomatch h
  | succ n ih =>
      intro s
      rcases hheard : c.listen s with ⟨m | _ | _, s'⟩
      · cases hm : accept m with
        | some a => simp [awaitAmong_of_accepted hheard hm]
        | none =>
            rw [awaitAmong_of_other hheard hm]
            exact ih s'
      · simp [awaitAmong, hheard]
      · simp [awaitAmong, hheard]

section

variable {e : Failure} {w : Window} (htime : c.learnTime s = (.done since, s₁))
include htime

/-- A claim that nobody answers fails, and the content is given up. -/
theorem claim_of_contend_failed
    (h : c.contend since (c.amend (·.take content since) s₁).2 = (.failed e, u)) :
    c.claim content s = (.failed e, (c.amend Selection.release u).2) := by
  have hplaced : c.amend (·.take content since) s₁ =
      (.done (), (c.amend (·.take content since) s₁).2) := rfl
  refine (bind_done htime _).trans ((bind_done hplaced _).trans ?_)
  rw [h]

/-- A claim is made if the window that is named is the client's own. -/
theorem claim_of_contend_done
    (h : c.contend since (c.amend (·.take content since) s₁).2 = (.done w, u)) :
    c.claim content s =
      if w = c.window then (.done (), u)
      else (.failed (stillOwned w), (c.amend Selection.release u).2) := by
  have hplaced : c.amend (·.take content since) s₁ =
      (.done (), (c.amend (·.take content since) s₁).2) := rfl
  refine (bind_done htime _).trans ((bind_done hplaced _).trans ?_)
  rw [h]

end

/-- A client that contends for the selection fails to send the claim, or asks who is the owner
since. -/
theorem contend_cases (since : Timestamp) (s : σ)
    (hsend : (c.send [.claim c.window c.atoms.clipboard since] s).1 ≠ .unwound) :
    let r := c.send [.claim c.window c.atoms.clipboard since] s
    (∃ e, c.contend since s = (.failed e, r.2)) ∨
      r.1 = .done () ∧ c.contend since s = c.askOwner r.2 := by
  intro r
  rcases hrun : c.send [.claim c.window c.atoms.clipboard since] s with ⟨_ | hitch | _, v'⟩ <;>
    rw [hrun] at hsend
  · rw [show r = _ from hrun]
    exact .inr ⟨rfl, bind_done (mapCause_of_done hrun) _⟩
  · rw [show r = _ from hrun]
    exact .inl ⟨_, bind_failed (mapCause_of_failed hrun) _⟩
  · exact absurd rfl hsend

end Connection

namespace Server

open Action

variable {s s' : Server} {i j k longest : Nat} {patience : Duration}

/-! ## A change of owner -/

theorem client_passTo (s : Server) (next : Owner) (time k : Nat) :
    (s.passTo next time).client k =
      if s.owner = .client k ∧ next ≠ .client k then
        (s.deliver k (.dispossessed ⟨.ofNat time, windowOf k, atoms.clipboard⟩)).client k
      else s.client k := by
  cases howner : s.owner with
  | nobody =>
      simp only [passTo, howner]
      rfl
  | foreign =>
      simp only [passTo, howner]
      rfl
  | client j =>
      by_cases hnext : next = .client j
      · have hnot : ¬ (Owner.client j = .client k ∧ next ≠ .client k) := by
          rintro ⟨h, hne⟩
          exact hne (hnext.trans h)
        rw [if_neg hnot]
        simp only [passTo, howner, if_pos hnext]
        rfl
      · by_cases hk : k = j
        · subst hk
          rw [if_pos ⟨rfl, hnext⟩]
          simp only [passTo, howner, if_neg hnext]
          rfl
        · have hnot : ¬ (Owner.client j = .client k ∧ next ≠ .client k) := by
            rintro ⟨h, -⟩
            exact hk (Owner.client.inj h).symm
          rw [if_neg hnot]
          simp only [passTo, howner, if_neg hnext]
          exact client_amend_of_ne (Ne.symm hk) s _

theorem frame_passTo (s : Server) (next : Owner) (time : Nat) :
    s.passTo next time =
      { s with clients := (s.passTo next time).clients, owner := next, ownerSince := time } := by
  cases howner : s.owner with
  | nobody => simp only [passTo, howner]
  | foreign => simp only [passTo, howner]
  | client j =>
      by_cases hnext : next = .client j
      · simp only [passTo, howner, if_pos hnext]
      · simp only [passTo, howner, if_neg hnext]
        rfl

theorem length_passTo (s : Server) (next : Owner) (time : Nat) :
    (s.passTo next time).clients.length = s.clients.length := by
  cases howner : s.owner with
  | nobody => simp only [passTo, howner]
  | foreign => simp only [passTo, howner]
  | client j =>
      by_cases hnext : next = .client j
      · simp only [passTo, howner, if_pos hnext]
      · simp only [passTo, howner, if_neg hnext]
        exact length_amend s j _

/-- A client stays connected, and its content in place, when the selection passes on. -/
theorem kept_passTo (s : Server) (next : Owner) (time k : Nat) :
    ((s.passTo next time).client k).connected = (s.client k).connected ∧
      ((s.passTo next time).client k).selection = (s.client k).selection := by
  rw [client_passTo]
  split
  · have hserved := (deliver_serves (E := fun _ => True) (e := .dispossessed
      ⟨.ofNat time, windowOf k, atoms.clipboard⟩) trivial s k).each k
    exact ⟨hserved.connected, hserved.selection⟩
  · exact ⟨rfl, rfl⟩

end Server

/-- A dispossession ends a claim that is not much older. -/
theorem Selection.claim_yieldTo {sel : Selection} {now since : Nat} {items : List (Atom × Octets)}
    (hclaim : sel.claim = some ⟨items, .ofNat since⟩) (hle : since ≤ now)
    (hnear : now < since + 2147483648) : (sel.yieldTo (.ofNat now)).claim = none := by
  have hlater : Turn.Supersedes now since := .inr (by omega)
  rw [yieldTo_ofNat hclaim, if_pos hlater]
  rfl

end Clipboard.X11
