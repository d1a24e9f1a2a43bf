import Clipboard.Proofs.X11.Waiting

/-!
# What exchanges leave behind

When a client has had the selection converted, everybody has dealt with what they were
sent, except for changes of the property that content is delivered in.  So no answer to
an old question is on its way when the next one is asked.

* `convert_idle`: a conversion leaves nothing else behind.
-/

namespace Clipboard.X11

/-- What an exchange leaves to be dealt with, or a change of owner. -/
def Event.isLeftover : Event → Bool
  | .noticed (.changed c) => c.property = Server.atoms.transfer
  | .dispossessed _ => true
  | _ => false

namespace Server

open Action

variable {s s' : Server} {i j k longest : Nat} {patience : Duration} {α : Type}

/-- Nothing else is left to be dealt with. -/
def Idle (s : Server) : Prop := s.Pends (·.isLeftover = true)

theorem Idle.calm (h : s.Idle) : s.Calm := by
  intro k e he
  have hleft := h k e he
  cases e with
  | inquired q => cases hleft
  | _ => rfl

theorem discard_inbox (s : Server) (i : Nat) :
    ((s.amend i fun c => { c with inbox := [] }).client i).inbox = [] := by
  rw [client_amend]
  split
  · rfl
  · next hgone =>
      rw [client_of_le (by simpa using hgone)]
      rfl

theorem post_of_refused {p : Post} (hconn : (s.client i).connected = true)
    (h : s.refuses p.request = true) : s.post i p = s.disconnect i := by
  rw [post, if_pos hconn, if_pos h]

theorem post_of_accepted {p : Post} (hconn : (s.client i).connected = true)
    (h : s.refuses p.request = false) : s.post i p = s.handle i p := by
  rw [post, if_pos hconn, h]
  rfl

theorem request_of_lost {r : Request} (hlost : (s.client i).connected = false)
    (answer : Action Server Fault α) :
    request i r answer s = (.failed (.unanswered "connection closed"), s) := by
  unfold request
  rw [hlost]
  rfl

theorem request_of_refused {r : Request} (hconn : (s.client i).connected = true)
    (h : s.refuses r = true) (answer : Action Server Fault α) :
    request i r answer s = (.failed (.unanswered "connection closed"), s.disconnect i) := by
  unfold request
  rw [if_pos hconn, if_pos h]

theorem request_of_accepted {r : Request} (hconn : (s.client i).connected = true)
    (h : s.refuses r = false) (answer : Action Server Fault α) :
    request i r answer s = answer s := by
  unfold request
  rw [if_pos hconn, h]
  rfl

theorem accepted_of_request {r : Request} {answer : Action Server Fault α} {a : α}
    (h : request i r answer s = (.done a, s')) :
    (s.client i).connected = true ∧ s.refuses r = false := by
  by_cases hconn : (s.client i).connected = true
  · refine ⟨hconn, ?_⟩
    by_cases hrefused : s.refuses r = true
    · rw [request_of_refused hconn hrefused] at h
      cases h
    · simpa using hrefused
  · rw [request_of_lost (by simpa using hconn)] at h
    cases h

/-- A request that is answered has been put to the server. -/
theorem request_eq_done {r : Request} {answer : Action Server Fault α} {a : α}
    (h : request i r answer s = (.done a, s')) : answer s = (.done a, s') := by
  obtain ⟨hconn, haccepted⟩ := accepted_of_request h
  rw [request_of_accepted hconn haccepted] at h
  exact h

theorem client_deliver_self (hconn : (s.client i).connected = true) (e : Event) :
    (s.deliver i e).client i = { s.client i with pending := (s.client i).pending ++ [e] } := by
  rw [deliver, client_amend_self (lt_of_connected hconn), if_pos hconn]

/-! ## What exchanges leave behind -/

theorem request_idle {r : Request} {answer : Action Server Fault α}
    (h : ∀ s : Server, s.Idle → (answer s).2.Idle) (s : Server) (hs : s.Idle) :
    (request i r answer s).2.Idle := by
  unfold request
  split
  · split
    · exact disconnect_pends hs i
    · exact h s hs
  · exact hs

theorem collect_idle (s : Server) (hs : s.Idle) : (requestProperty i atoms.transfer s).2.Idle := by
  refine request_idle (fun s hs => ?_) s hs
  exact (drop_serves (E := (·.isLeftover = true)) fun _ => rfl).pends hs

theorem connected_disconnect (s : Server) (i : Nat) :
    ((s.disconnect i).client i).connected = false := by
  rw [disconnect, client_amend]
  split
  · rfl
  · next hgone =>
      rw [client_of_le (by simpa using hgone)]
      rfl

theorem post_of_lost {p : Post} (h : (s.client i).connected = false) : s.post i p = s := by
  rw [post, h]
  rfl

/-- A client that has nothing to look at is left so by its messages, unless its
connection is closed upon them. -/
theorem post_inbox {p : Post} (hp : p.isClaim = false) (hempty : (s.client i).inbox = []) :
    ((s.post i p).client i).inbox = [] ∨ s.post i p = s.disconnect i := by
  unfold post
  split
  · split
    · exact .inr rfl
    · left
      rw [((handle_serves hp s i).each i).inbox, hempty]
  · exact .inl hempty

/-- A client that has asked for a conversion has nothing to look at, or has nothing to
wait for. -/
theorem ask_idle (target : Atom) (hs : s.Idle) (hempty : (s.client i).inbox = []) :
    let s' := (s.post i (.remove (windowOf i) atoms.transfer)).post i
      (.inquire ⟨0, windowOf i, atoms.clipboard, target, atoms.transfer⟩)
    (s'.client i).inbox = [] ∨ s'.Idle := by
  intro s'
  have hremoved : (s.post i (.remove (windowOf i) atoms.transfer)).Idle := by
    unfold post
    split
    · split
      · exact disconnect_pends hs i
      · unfold handle
        dsimp only
        split
        · exact (drop_serves (E := (·.isLeftover = true)) fun _ => rfl).pends hs
        · exact hs
    · exact hs
  rcases post_inbox (p := .remove (windowOf i) atoms.transfer) rfl hempty with hkept | hlost
  · rcases post_inbox (p := .inquire ⟨0, windowOf i, atoms.clipboard, target, atoms.transfer⟩)
      rfl hkept with hempty' | hlost
    · exact .inl hempty'
    · right
      rw [show s' = _ from hlost]
      exact disconnect_pends hremoved i
  · right
    rw [show s' = _ from post_of_lost (by rw [hlost]; exact connected_disconnect s i)]
    exact hremoved

/-- Whatever a client is told when it asks for a conversion, it looks at it first. -/
theorem convert_idle (target : Atom) (s : Server) (hs : s.Idle) :
    ((connection i longest patience).convert target s).2.Idle := by
  let c := connection i longest patience
  have htake : Confined (fun s s' : Server => s.Idle → s'.Idle) c.take := collect_idle
  have hawait : Confined (fun s s' : Server => s.Idle → s'.Idle) (c.awaitNotice c.delivered) :=
    fun s hs => awaitNotice_pends c.delivered (.inr hs)
  have hfetch (place : Atom) : Confined (fun s s' : Server => s.Idle → s'.Idle) (c.fetch place) :=
    Connection.confined_fetch (Bounds.keeping Idle) hawait htake place
  let t := s.amend i fun c => { c with inbox := [] }
  have ht : t.Idle := pends_amend hs (hs i)
  have hempty : (t.client i).inbox = [] := discard_inbox s i
  by_cases hconn : (t.client i).connected = true
  · let u := (c.asking target).foldl (fun s p => s.post i p) t
    have hsend : c.send (c.asking target) (c.discard s) = (.done (), u) := if_pos hconn
    rw [show (connection i longest patience).convert target s = _ from
      Connection.convert_of_sent hsend]
    -- The waiting makes the server idle; what follows it keeps it so.
    have hheard : (c.awaitNotice c.replied u).2.Idle :=
      awaitNotice_pends c.replied (ask_idle target ht hempty)
    rw [bind_apply]
    rcases hrun : c.awaitNotice c.replied u with ⟨place | e | _, u'⟩ <;> rw [hrun] at hheard
    · exact hfetch place u' hheard
    · exact hheard
    · exact hheard
  · have hsend : c.send (c.asking target) (c.discard s) = (.failed _, t) := if_neg hconn
    rw [show (connection i longest patience).convert target s = _ from
      Connection.convert_of_unsent hsend]
    exact ht

end Server

end Clipboard.X11
