import Clipboard.Proofs.X11.Chronicle
import Clipboard.Proofs.X11.News

/-!
# A server as a display

The server keeps to the laws of displays while it grants claims and leaves it to its clients to
take the selection.  It numbers its clients, so the display has as many as there is room for.

* `Server.display`: the clients of a server;
* `Server.Fair`: when it keeps to the laws;
* `Server.lawful`: it does;
* `Server.calm_of_steady`, `Server.passes_passTo`: what goes on is calm, or passes the selection on.
-/

namespace Clipboard.X11

namespace Server

open Action

variable {longest : Nat → Nat} {patience : Nat → Duration} {s s' : Server}

/-- The clients of a server. -/
def display (longest : Nat → Nat) (patience : Nat → Duration) : Display (Fin capacity) Server where
  desk k := connection k (longest k) (patience k)
  holder := ownerWindow
  since := ownerSince
  now := time
  queue k s := (s.client k).pending
  inbox k s := (s.client k).inbox

/-- A server that grants claims and takes nothing away.  What it tells is a time. -/
structure Fair (s : Server) : Prop where
  room : s.clients.length ≤ capacity
  owner_lt : ∀ j, s.owner = .client j → j < s.clients.length
  alive : ∀ k, (s.client k).selection.alive = (s.client k).connected
  takesOver : s.takesOver = false
  refusesClaims : s.refusesClaims = false
  told : s.stamp ≠ 0
  since : s.ownerSince ≤ s.time
  named : clipboardNames <+: s.names
  numbered : s.names.length ≤ nameCapacity

namespace Fair

variable {k : Fin capacity}

theorem connected (h : Fair s) (hk : (display longest patience).Alive k s) :
    (s.client k).connected = true := (h.alive k).symm.trans hk

theorem lt (h : Fair s) (hk : (display longest patience).Alive k s) : k < s.clients.length :=
  lt_of_connected (h.connected hk)

theorem holder_iff (h : Fair s) (hk : (display longest patience).Alive k s) :
    s.ownerWindow = windowOf k ↔ s.owner = .client k :=
  ownerWindow_eq_iff h.room h.owner_lt (h.connected hk)

/-- What is steady keeps a server fair. -/
theorem steady (h : Fair s) (hs : Steady s s') : Fair s' where
  room := by
    rw [hs.size]
    exact h.room
  owner_lt j hj := by
    rw [hs.size]
    exact h.owner_lt j (hs.owner ▸ hj)
  alive k := by
    -- A client that has lost its connection is cut off, and no other is.
    have hkeeps := hs.keeps k
    cases hconn : (s'.client k).connected with
    | true =>
        obtain ⟨hbefore, looked, hfares⟩ := hkeeps.fares hconn
        exact hfares.alive.trans ((h.alive k).trans hbefore)
    | false =>
        refine Bool.eq_false_iff.mpr fun halive => ?_
        obtain ⟨hbefore, hstays⟩ := hkeeps.alive halive
        have hstill := hstays ((h.alive k).symm.trans hbefore)
        rw [hconn] at hstill
        cases hstill
  takesOver := hs.takesOver.trans h.takesOver
  refusesClaims := by
    rw [hs.frame]
    exact h.refusesClaims
  told := hs.stamp ▸ h.told
  since := by
    rw [hs.frame]
    exact h.since
  named := h.named.trans hs.names
  numbered := Nat.le_trans hs.numbered (Nat.max_le.mpr ⟨h.numbered, Nat.le_refl _⟩)

end Fair

variable (longest patience) in
/-- Nobody's ownership changes through what is steady. -/
theorem calm_of_steady (h : Fair s) (hs : Steady s s') :
    Fair s' ∧ (display longest patience).Calm s s' := by
  have hfair := h.steady hs
  have htime : s'.time = s.time := by rw [hs.frame]
  refine ⟨hfair, hs.ownerSince, Nat.le_of_eq htime.symm, fun k hk => ?_⟩
  obtain ⟨hconn, looked, hfares⟩ := (hs.keeps k).fares (hfair.connected hk)
  have halive : (display longest patience).Alive k s := (h.alive k).trans hconn
  refine ⟨halive, ?_, looked, hfares.mono fun e he => he.issued h.told h.since ?_⟩
  · show s'.ownerWindow = windowOf k ↔ s.ownerWindow = windowOf k
    rw [hfair.holder_iff hk, h.holder_iff halive, hs.owner]
  · exact Nat.le_of_eq htime.symm

/-- Nor does it when time passes, or when the server refuses what it did not refuse before. -/
theorem calm_of_clients (hclients : s'.clients = s.clients)
    (howner : s'.owner = s.owner) (hsince : s'.ownerSince = s.ownerSince)
    (htime : s.time ≤ s'.time) : (display longest patience).Calm s s' := by
  have hclient (k : Nat) : s'.client k = s.client k := by rw [client, client, hclients]
  refine ⟨hsince, htime, fun k hk => ⟨?_, ?_, [], ?_⟩⟩
  · show (s.client k).selection.alive = true
    rw [← hclient k]
    exact hk
  · show s'.ownerWindow = windowOf k ↔ s.ownerWindow = windowOf k
    rw [ownerWindow_congr howner fun j => congrArg Client.connected (hclient j)]
  · show Mailbox.Fares _ _ _ [] (s.client k).mailbox (s'.client k).mailbox
    rw [hclient k]
    exact .refl _

/-- A server is fair when the selection has passed on. -/
theorem fair_passTo (h : Fair s) (next : Owner) {time : Nat}
    (hnext : ∀ k, next = .client k → k < s.clients.length) (htime : time ≤ s.time) :
    Fair (s.passTo next time) where
  room := by
    rw [length_passTo]
    exact h.room
  owner_lt j hj := by
    rw [length_passTo]
    rw [frame_passTo] at hj
    exact hnext j hj
  alive k := by
    obtain ⟨hconn, hsame⟩ := kept_passTo s next time k
    rw [hconn, hsame]
    exact h.alive k
  takesOver := by
    rw [frame_passTo]
    exact h.takesOver
  refusesClaims := by
    rw [frame_passTo]
    exact h.refusesClaims
  told := by
    rw [frame_passTo]
    exact h.told
  since := by
    rw [frame_passTo]
    exact htime
  named := by
    rw [frame_passTo]
    exact h.named
  numbered := by
    rw [frame_passTo]
    exact h.numbered

variable (longest patience) in
/-- The selection passes on, and its last owner is told. -/
theorem passes_passTo (h : Fair s) (next : Owner) {time : Nat}
    (hnext : ∀ k, next = .client k → k < s.clients.length) (hsince : s.ownerSince ≤ time)
    (htime : time ≤ s.time) :
    Fair (s.passTo next time) ∧
      (display longest patience).Passes (s.passTo next time).ownerWindow s
        (s.passTo next time) := by
  have hfair := fair_passTo h next hnext htime
  have halive {k : Fin capacity} (hk : (display longest patience).Alive k (s.passTo next time)) :
      (display longest patience).Alive k s := by
    have hsame := congrArg Selection.alive (kept_passTo s next time k).2
    exact hsame.symm.trans hk
  have howner : (s.passTo next time).owner = next := by rw [frame_passTo]
  -- Windows tell clients apart, so whoever loses the selection is told.
  have hlost {k : Fin capacity} (hk : (display longest patience).Alive k (s.passTo next time)) :
      s.ownerWindow = windowOf k ∧ (s.passTo next time).ownerWindow ≠ windowOf k ↔
        s.owner = .client k ∧ next ≠ .client k := by
    rw [h.holder_iff (halive hk), ne_eq, hfair.holder_iff hk, howner]
  refine ⟨hfair, rfl, ?_, ?_, fun k hk => halive hk, fun k hk hown hw => ?_, fun k hk hkept => ?_⟩
  · show s.ownerSince ≤ (s.passTo next time).ownerSince
    rw [frame_passTo]
    exact hsince
  · show s.time ≤ (s.passTo next time).time
    rw [frame_passTo]
  · have hdelivered := client_passTo s next time k
    rw [if_pos ((hlost hk).mp ⟨hown, hw⟩),
      client_deliver_self (h.connected (halive hk))] at hdelivered
    have htold : (s.passTo next time).ownerSince = time := by rw [frame_passTo]
    show ((s.passTo next time).client k).mailbox = Mailbox.mk (s.client k).selection
      ((s.client k).pending ++ [.dispossessed ⟨.ofNat (s.passTo next time).ownerSince, windowOf k,
        atoms.clipboard⟩]) (s.client k).inbox
    rw [hdelivered, htold]
    rfl
  · have hsame := client_passTo s next time k
    rw [if_neg fun hboth => hkept ((hlost hk).mpr hboth)] at hsame
    exact congrArg Client.mailbox hsame

/-! ## The laws -/

/-- A time that has been told is the last that looks like it. -/
theorem moment?_ofNat {n : Nat} (hzero : (.ofNat n : Timestamp) ≠ 0) (hn : n ≤ s.time) :
    ∃ m, s.moment? (.ofNat n) = some m ∧ n ≤ m ∧ m ≤ s.time ∧
      (.ofNat m : Timestamp) = .ofNat n := by
  have hway : (s.stamp - .ofNat n).toNat = (s.time - n) % 2 ^ 32 := by
    rw [stamp, UInt32.toNat_sub, UInt32.toNat_ofNat', UInt32.toNat_ofNat']
    omega
  have hle : (s.stamp - .ofNat n).toNat ≤ s.time := by omega
  refine ⟨s.time - (s.stamp - .ofNat n).toNat, ?_, by omega, by omega, ?_⟩
  · rw [moment?, if_neg hzero, if_pos hle]
  · rw [← UInt32.toNat_inj, UInt32.toNat_ofNat', UInt32.toNat_ofNat']
    omega

/-- A claim with a time that has been told since the last is granted, unless the server hangs up. -/
theorem claims_display {k : Fin capacity} {n : Nat} (h : Fair s)
    (hk : (display longest patience).Alive k s) (hzero : (.ofNat n : Timestamp) ≠ 0)
    (hsince : s.ownerSince ≤ n) (hn : n ≤ s.time) :
    let r := (connection k (longest k) (patience k)).send
      [.claim (windowOf k) atoms.clipboard (.ofNat n)] s
    Fair r.2 ∧ (display longest patience).Contends k (.ofNat n) s r.1 r.2 := by
  intro r
  have hconn := h.connected hk
  let claim : Post := .claim (windowOf k) atoms.clipboard (.ofNat n)
  have hsent : r = (.done (), s.post k claim) := if_pos hconn
  rw [hsent]
  by_cases hrefused : s.refuses claim.request = true
  · have hpost : s.post k claim = s.disconnect k := post_of_refused hconn hrefused
    obtain ⟨hfair, hcalm⟩ := calm_of_steady longest patience h
      (disconnect_steady (hangsUp_of_refuses hrefused) k)
    rw [hpost]
    refine ⟨hfair, .refused hcalm fun _ hlater => ?_⟩
    have hstill := hfair.connected hlater
    rw [connected_disconnect] at hstill
    cases hstill
  · obtain ⟨m, hmoment, hnm, hm, hsame⟩ := moment?_ofNat hzero hn
    have hgranted : s.declines atoms.clipboard m = false := by
      have hlater : ¬ m < s.ownerSince := by omega
      simp [declines, h.refusesClaims, hlater]
    have hpost : s.post k claim = s.passTo (.client k) m := by
      rw [post_of_accepted hconn (by simpa using hrefused)]
      simp [claim, handle, hmoment, hgranted]
    obtain ⟨hfair, hpasses⟩ := passes_passTo longest patience h (.client k)
      (fun j hj => Owner.client.inj hj ▸ h.lt hk)
      (Nat.le_trans hsince hnm) hm
    have hown : (s.passTo (.client k) m).ownerWindow = windowOf k := by
      have hlater : (display longest patience).Alive k (s.passTo (.client k) m) := by
        have hkept := congrArg Selection.alive (kept_passTo s (.client k) m k).2
        exact hkept.trans hk
      rw [hfair.holder_iff hlater, frame_passTo]
    rw [hown] at hpasses
    rw [hpost]
    refine ⟨hfair, .granted (.refl s) hpasses ?_ (.refl _)⟩
    show UInt32.ofNat (s.passTo (.client k) m).ownerSince = _
    rw [frame_passTo]
    exact hsame

/-- A client that looks at what has come in first has the rest to look at. -/
theorem fares_look {k : Fin capacity} {looked rest : List Notice} (hlt : k < s.clients.length)
    (hinbox : (s.client k).inbox = looked ++ rest) :
    (display longest patience).Fares k looked s (s.amend k fun c => { c with inbox := rest }) := by
  refine ⟨[], [], ?_, by simp, ?_, ?_⟩
  · show (s.client k).pending ++ [] = [] ++ ((s.amend k _).client k).pending
    rw [client_amend_self hlt]
    exact List.append_nil _
  · show ((s.amend k _).client k).selection = (s.client k).selection
    rw [client_amend_self hlt]
  · show (s.client k).inbox ++ [] = looked ++ ((s.amend k _).client k).inbox
    rw [client_amend_self hlt, hinbox]
    exact List.append_nil _

/-- The notice that a client hears is the first that has come in when everybody has settled. -/
theorem heard_display {k : Fin capacity} {m : Notice} (h : Fair s)
    (hheard : (connection k (longest k) (patience k)).listen s = (.notice m, s'))
    (hk : (display longest patience).Alive k s') :
    ∃ looked, (display longest patience).Fares k (looked ++ [m]) s s' := by
  obtain ⟨t, looked, rest, ht, hinbox, hafter, hone⟩ := listen_cases s k
  rw [show s.listen k = _ from hheard] at hafter hone
  obtain rfl : looked = [m] := hone m rfl
  have hsteady : Steady s t := by
    rcases ht with ⟨rfl, -⟩ | ⟨rfl, -⟩
    · exact .refl _
    · exact settle_steady s
  obtain ⟨hfair, hcalm⟩ := calm_of_steady longest patience h hsteady
  obtain ⟨-, hcalm'⟩ := calm_of_steady longest patience hfair (look_steady hinbox)
  obtain rfl : s' = _ := hafter
  have hbefore := (hcalm'.each k hk).alive
  obtain ⟨others, hfares⟩ := (hcalm.each k hbefore).fares
  exact ⟨others, hfares.trans (fares_look (hfair.lt hbefore) hinbox) hcalm.since hcalm'.now⟩

/-- What a client puts in place is its own business. -/
theorem placed_display {k : Fin capacity} {sel : Selection} (h : Fair s)
    (hsel : sel.alive = (s.client k).selection.alive) :
    let s' := (connection k (longest k) (patience k)).setSelection sel s
    Fair s' ∧ (display longest patience).Places k sel s s' := by
  have hsame (j : Nat) := client_amend_rel (s := s) (i := k)
    (f := fun c => { c with selection := sel })
    (R := fun _ c c' => c'.connected = c.connected ∧ c'.selection.alive = c.selection.alive)
    (fun _ _ => ⟨rfl, rfl⟩) ⟨rfl, hsel⟩ j
  refine ⟨⟨?_, fun j hj => ?_, fun j => ?_, h.takesOver, h.refusesClaims, h.told, h.since,
    h.named, h.numbered⟩,
    ownerWindow_congr rfl fun j => (hsame j).1, rfl, rfl, fun j => ?_, fun hk => ?_,
    fun j hj => ?_⟩
  · exact (length_amend s k _).symm ▸ h.room
  · exact (length_amend s k _).symm ▸ h.owner_lt j hj
  · exact (hsame j).2.trans ((h.alive j).trans (hsame j).1.symm)
  · show ((s.amend k _).client j).selection.alive = true ↔ _
    rw [(hsame j).2]
    rfl
  · show ((s.amend k _).client k).mailbox = _
    rw [client_amend_self (h.lt hk)]
    rfl
  · exact congrArg Client.mailbox (client_amend_of_ne (fun hjk => hj (Fin.ext hjk.symm)) s _)

/-- A server keeps to the laws while it is fair. -/
theorem lawful (longest : Nat → Nat) (patience : Nat → Duration) :
    (display longest patience).Lawful Fair where
  apart j k h := Fin.ext (windowOf_inj j.isLt k.isLt h)
  there k := windowOf_ne_zero k.isLt
  abides k :=
    have h : (connection k (longest k) (patience k)).Abides steadily := connection_abides
    have hcalm {s s' : Server} (hs : steadily s s') (hfair : Fair s) :=
      calm_of_steady longest patience hfair (hs hfair.takesOver)
    { bounds := Display.bounds_calm _ Fair
      send := fun posts hposts s => hcalm (h.send posts hposts s)
      intern := fun name s => hcalm (h.intern name s)
      owner := fun s => hcalm (h.owner s)
      collect := fun s => hcalm (h.collect s)
      listen := fun s => hcalm (h.listen s)
      discard := fun s => hcalm (h.discard s) }
  heard k s m s' hs hheard hk := heard_display hs hheard hk
  discarded k s hs hk := by
    have hfair := (calm_of_steady longest patience hs (discard_steady s k)).1
    have hlt : k < s.clients.length := by
      have hlater := hfair.lt hk
      rwa [length_amend] at hlater
    refine ⟨[], ?_⟩
    rw [List.append_nil]
    exact fares_look hlt (List.append_nil _).symm
  placed k sel s hs hsel := placed_display hs hsel
  claims k s n hs hk hzero hsince hn := claims_display hs hk hzero hsince hn
  silenced k s t hs hk := by
    have hlost : (s.client k).connected = false := by
      rw [← hs.alive k]
      exact Bool.eq_false_iff.mpr hk
    intro s'
    have hnothing : s' = s := (send_claim s t).trans (post_of_lost hlost)
    rw [hnothing]
    exact ⟨hs, .refl s⟩
  named k s w s' hs hanswer := by
    have hw : s.ownerWindow = w := requestOwner_eq_done hanswer
    have hsame := request_eq_done (show requestOwner k s = (.done w, s') from hanswer)
    simp only [hs.takesOver, Bool.false_eq_true, false_and, if_false] at hsame
    split at hsame
    · cases hsame
    · cases hsame
      rfl
  sends k posts s :=
    (connection_serviced (.nothing (windowOf k)) (longest k) (patience k)).sends posts s
  answers k := requestOwner_ne_unwound

/-! ## Clients that have just come -/

theorem client_append_self (s : Server) (c : Client) :
    ({ s with clients := s.clients ++ [c] } : Server).client s.clients.length = c := by
  simp [client, List.getD_eq_getElem?_getD]

/-- A client that comes is told apart from those that are there. -/
theorem client_append_of_ne {j : Nat} (h : j ≠ s.clients.length) (c : Client) :
    ({ s with clients := s.clients ++ [c] } : Server).client j = s.client j := by
  by_cases hj : j < s.clients.length
  · simp only [client, List.getD_eq_getElem?_getD, List.getElem?_append_left hj]
  · rw [client_of_le (by simp only [List.length_append, List.length_singleton]; omega),
      client_of_le (by omega)]

/-- A server is fair when a client has come. -/
theorem fair_append (h : Fair s) (hroom : s.clients.length < capacity) :
    Fair { s with clients := s.clients ++ [{}] } where
  room := by
    simp only [List.length_append, List.length_singleton]
    omega
  owner_lt j hj := by
    simp only [List.length_append, List.length_singleton]
    have hlt := h.owner_lt j hj
    omega
  alive j := by
    by_cases hj : j = s.clients.length
    · subst hj
      rw [client_append_self]
    · rw [client_append_of_ne hj]
      exact h.alive j
  takesOver := h.takesOver
  refusesClaims := h.refusesClaims
  told := h.told
  since := h.since
  named := h.named
  numbered := h.numbered

theorem comes_connect {k : Fin capacity} (h : Fair s) (hs : s.connect = some (k.val, s')) :
    Fair s' ∧ (display longest patience).Comes k s s' := by
  unfold connect at hs
  split at hs
  · next hroom =>
      obtain ⟨hk, rfl⟩ := Prod.mk.inj (Option.some.inj hs)
      let t : Server := { s with clients := s.clients ++ [{}] }
      have hnew : t.client k = {} := hk ▸ client_append_self s {}
      have hold {j : Nat} (hj : j ≠ k.val) : t.client j = s.client j :=
        client_append_of_ne (hk ▸ hj) {}
      have hfair : Fair t := fair_append h hroom
      have hthere : (display longest patience).Alive k t := by
        show (t.client k).selection.alive = true
        rw [hnew]
      refine ⟨hfair, rfl, Nat.le_refl _, fun j hj halive => ?_, ?_, fun hown => ?_, ?_⟩
      · have hsame := hold fun hjk => hj (Fin.ext hjk)
        have hbefore : (display longest patience).Alive j s := by
          show (s.client j).selection.alive = true
          rw [← hsame]
          exact halive
        refine ⟨hbefore, ?_, [], ?_⟩
        · show t.ownerWindow = windowOf j ↔ s.ownerWindow = windowOf j
          rw [hfair.holder_iff halive, h.holder_iff hbefore]
        · show Mailbox.Fares _ _ _ [] (s.client j).mailbox (t.client j).mailbox
          rw [hsame]
          exact .refl _
      · show (t.client k).selection.claim = none
        rw [hnew]
      · have howner := h.owner_lt k ((hfair.holder_iff hthere).mp hown)
        omega
      · show ∀ e ∈ (t.client k).pending, _
        rw [hnew]
        intro e he
        cases he
  · cases hs

/-- A server with so many clients, of which nothing is known yet. -/
def gathering (n : Nat) : Server := { start with clients := List.replicate n {} }

theorem client_gathering (n k : Nat) :
    (gathering n).client k = {} ∨ (gathering n).client k = .gone := by
  by_cases hk : k < n
  · left
    simp [gathering, client, List.getD_eq_getElem?_getD, hk]
  · right
    exact client_of_le (by simpa [gathering] using Nat.le_of_not_lt hk)

theorem fair_gathering {n : Nat} (hn : n ≤ capacity) : Fair (gathering n) where
  room := by simpa [gathering] using hn
  owner_lt j hj := nomatch hj
  alive k := by
    rcases client_gathering n k with hnew | hgone
    · rw [hnew]
    · rw [hgone]
      rfl
  takesOver := rfl
  refusesClaims := rfl
  told := (by decide : start.stamp ≠ 0)
  since := Nat.zero_le _
  named := List.prefix_rfl
  numbered := (by decide : clipboardNames.length ≤ nameCapacity)

theorem lived_gathering {n : Nat} (hn : n ≤ capacity) :
    (display longest patience).Lived Fair { state := gathering n } := by
  refine .start (fair_gathering hn) (fun k _ => ?_) fun k => (windowOf_ne_zero k.isLt).symm
  show (((gathering n).client k).mailbox.destined atoms (windowOf k)).claim = none
  rcases client_gathering n k with hnew | hgone
  · rw [hnew]
    rfl
  · rw [hgone]
    rfl

end Server

end Clipboard.X11
