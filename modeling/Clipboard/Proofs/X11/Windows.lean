import Clipboard.X11.Server

/-!
# Windows and clients

A server has room for so many clients that no two of them share a window, that
none has the window of the foreign client, and that every window is some window.

* `windowOf_inj`, `clientOf?_windowOf`: a client is found by its window;
* `client_amend`, `client_amend_rel`: what doing something to one client does to all of them;
* `ownerWindow_eq_iff`: which client a window that owns the selection belongs to.
-/

namespace Clipboard.X11.Server

variable {s : Server} {i j k : Nat}

theorem windowOf_inj (hi : i < capacity) (hj : j < capacity) (h : windowOf i = windowOf j) :
    i = j := by
  have hnum : (windowOf i).toNat = (windowOf j).toNat := by rw [h]
  simp only [windowOf, UInt32.toNat_ofNat', capacity] at hnum hi hj
  omega

theorem windowOf_ne_zero (hi : i < capacity) : windowOf i ≠ 0 := by
  intro h
  have hnum : (windowOf i).toNat = 0 := by rw [h]; rfl
  simp only [windowOf, UInt32.toNat_ofNat', capacity] at hnum hi
  omega

/-- The window of the foreign client has an odd number. -/
theorem windowOf_ne_foreign (i : Nat) : windowOf i ≠ foreignWindow := by
  intro h
  have hnum : (windowOf i).toNat = 0x3000001 := by rw [h]; rfl
  simp only [windowOf, UInt32.toNat_ofNat'] at hnum
  omega

theorem clientOf?_windowOf (hroom : s.clients.length ≤ capacity) (hi : i < s.clients.length) :
    s.clientOf? (windowOf i) = some i := by
  rw [clientOf?, List.find?_range_eq_some]
  refine ⟨by simp, by simpa using hi, fun j hj => ?_⟩
  have hne : windowOf j ≠ windowOf i := by
    intro h
    have := windowOf_inj (by omega) (by omega) h
    omega
  simpa using hne

theorem client_amend (s : Server) (i k : Nat) (f : Client → Client) :
    (s.amend i f).client k =
      if k = i ∧ i < s.clients.length then f (s.client i) else s.client k := by
  by_cases hk : k = i
  · subst hk
    by_cases hlt : k < s.clients.length
    · rw [client_amend_self hlt, if_pos ⟨rfl, hlt⟩]
    · rw [if_neg (by simp [hlt])]
      simp [client, amend, List.getD_eq_getElem?_getD, hlt]
  · rw [client_amend_of_ne (Ne.symm hk), if_neg (by simp [hk])]

/-- What relates every client to itself, and one client to what it is made into, relates all
clients before and after. -/
theorem client_amend_rel {R : Nat → Client → Client → Prop} {f : Client → Client}
    (hrefl : ∀ k c, R k c c) (h : R i (s.client i) (f (s.client i))) (k : Nat) :
    R k (s.client k) ((s.amend i f).client k) := by
  rw [client_amend]
  split
  · next hk =>
      obtain ⟨rfl, -⟩ := hk
      exact h
  · exact hrefl k _

theorem client_of_le (h : s.clients.length ≤ i) : s.client i = .gone := by
  simp [client, List.getD_eq_getElem?_getD, h]

/-- Only a client that is there can be connected. -/
theorem lt_of_connected (h : (s.client i).connected = true) : i < s.clients.length := by
  apply Classical.byContradiction
  intro hle
  rw [client_of_le (by omega)] at h
  cases h

@[simp] theorem length_amend (s : Server) (i : Nat) (f : Client → Client) :
    (s.amend i f).clients.length = s.clients.length := by
  simp [amend]

/-- The window of a client owns the selection if the client does. -/
theorem ownerWindow_eq_iff (hroom : s.clients.length ≤ capacity)
    (howner : ∀ j, s.owner = .client j → j < s.clients.length)
    (hk : (s.client k).connected = true) :
    s.ownerWindow = windowOf k ↔ s.owner = .client k := by
  have hlt := lt_of_connected hk
  have hzero : (0 : Window) ≠ windowOf k := (windowOf_ne_zero (by omega)).symm
  unfold ownerWindow ownerClient?
  cases hs : s.owner with
  | nobody => simpa using hzero
  | foreign => simpa using (windowOf_ne_foreign k).symm
  | client j =>
      have hj := howner j hs
      by_cases hconn : (s.client j).connected = true
      · simp only [hconn, if_true, Option.map_some, Option.getD_some, Owner.client.injEq]
        constructor
        · exact windowOf_inj (by omega) (by omega)
        · intro h; rw [h]
      · have hne : j ≠ k := by rintro rfl; exact hconn hk
        simpa [hconn, hne] using hzero

end Clipboard.X11.Server
