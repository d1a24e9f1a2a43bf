import Mathlib.Algebra.GroupWithZero.Nat
import Clipboard.Workstation
import Clipboard.Proofs.X11.Leftovers

/-!
# How much is still to come

A client that waits looks at no more notices than its horizon, and one that takes a value in parts
takes no more parts.  Neither stops it short.  Until it asks again, only so much can come in: what
it has, what the others have been sent and answer, and the parts that it is being fed.

* `Connection.Transfers`: values that are announced and taken one after the other;
* `Connection.Foresees`: no more comes in than the horizon tells;
* `Server.impending_settle`, `Server.impending_drop`: dealing with events and taking a part bring
  nothing new;
* `Server.connection_foresees`, `Workstation.connection_foresees`: so the horizon of every client
  is far enough.
-/

namespace Clipboard.X11

namespace Connection

variable {σ τ : Type} {c : Connection τ} {c' : Connection σ} {view : τ → σ}

/-- The notice that the transfer property has a new value. -/
def announcement (c : Connection σ) (time : Timestamp) : Notice :=
  .changed ⟨time, c.window, c.atoms.transfer, false⟩

/-- Values come one after the other.  Each is announced by one notice, among any number of others,
and is what is found when it is taken upon that. -/
inductive Transfers (c : Connection σ) : σ → List Property → σ → Prop
  | nil (s : σ) : Transfers c s [] s
  | other {m : Notice} {s t u : σ} {parts : List Property} (hheard : c.listen s = (.notice m, t))
      (hother : ∀ time, m ≠ c.announcement time) (hlater : Transfers c t parts u) :
      Transfers c s parts u
  | cons {time : Timestamp} {part : Property} {s t u v : σ} {parts : List Property}
      (hheard : c.listen s = (.notice (c.announcement time), t))
      (htaken : c.collect t = (.done part, u)) (hlater : Transfers c u parts v) :
      Transfers c s (part :: parts) v

/-- So many notices come in one after the other. -/
def Comes (c : Connection σ) : Nat → σ → Prop
  | 0, _ => True
  | n + 1, s => ∃ m t, c.listen s = (.notice m, t) ∧ Comes c n t

/-- There is room for all that is still to come: for more notices than come in, and for all the
values that are announced and taken. -/
structure Room (c : Connection σ) (n m : Nat) (s : σ) : Prop where
  notices : ∀ k, c.Comes k s → k < n
  values : ∀ parts t, c.Transfers s parts t → parts.length ≤ m

/-- Nothing comes in from beyond the horizon. -/
def Foresees (c : Connection σ) : Prop := ∀ s, c.Room (c.horizon s) (c.horizon s) s

/-! ## Connections over a larger state -/

/-- What happens on a connection happens on another, to the part of the state that it is over. -/
structure Views (c : Connection τ) (c' : Connection σ) (view : τ → σ) : Prop where
  announcement : c.announcement = c'.announcement
  listen : ∀ t, c'.listen (view t) = ((c.listen t).1, view (c.listen t).2)
  collect : ∀ t, c'.collect (view t) = ((c.collect t).1, view (c.collect t).2)
  horizon : ∀ t, c.horizon t = c'.horizon (view t)

theorem zoom_views (c : Connection σ) {put : σ → τ → τ} (hview : ∀ s t, view (put s t) = s) :
    Views (c.zoom view put) c view where
  announcement := rfl
  listen t := Prod.ext rfl (hview _ t).symm
  collect t := Prod.ext rfl (hview _ t).symm
  horizon _ := rfl

namespace Views

variable (h : Views c c' view)
include h

theorem heard {s t : τ} {heard : Heard} (hheard : c.listen s = (heard, t)) :
    c'.listen (view s) = (heard, view t) := by
  rw [h.listen, hheard]

theorem taken {s t : τ} {r : Outcome Fault Property} (htaken : c.collect s = (r, t)) :
    c'.collect (view s) = (r, view t) := by
  rw [h.collect, htaken]

theorem comes {n : Nat} {s : τ} (hcomes : c.Comes n s) : c'.Comes n (view s) := by
  induction n generalizing s with
  | zero => trivial
  | succ n ih =>
      obtain ⟨m, t, hheard, hlater⟩ := hcomes
      exact ⟨m, view t, h.heard hheard, ih hlater⟩

theorem transfers {s t : τ} {parts : List Property} (htransfers : c.Transfers s parts t) :
    c'.Transfers (view s) parts (view t) := by
  induction htransfers with
  | nil s => exact .nil _
  | other hheard hother _ ih => exact .other (h.heard hheard) (h.announcement ▸ hother) ih
  | cons hheard htaken _ ih => exact .cons (h.announcement ▸ h.heard hheard) (h.taken htaken) ih

/-- A connection over a larger state has as far a horizon. -/
theorem foresees (hc : c'.Foresees) : c.Foresees := by
  intro s
  rw [h.horizon]
  have hroom := hc (view s)
  constructor
  · intro k hcomes
    exact hroom.notices k (h.comes hcomes)
  · intro parts t htransfers
    exact hroom.values parts _ (h.transfers htransfers)

end Views

end Connection

/-! ## What is impending -/

/-- When one of several is changed, the sum over them changes by as much as that one. -/
theorem sum_map_modify {α : Type} (weight : α → Nat) (f : α → α) {l : List α} {j : Nat}
    (hj : j < l.length) :
    ((l.modify j f).map weight).sum + weight l[j] = (l.map weight).sum + weight (f l[j]) := by
  induction l generalizing j with
  | nil => exact absurd hj (Nat.not_lt_zero _)
  | cons x rest ih =>
      cases j with
      | zero =>
          simp only [List.modify_zero_cons, List.map_cons, List.sum_cons, List.getElem_cons_zero]
          omega
      | succ j =>
          have hrest := ih (Nat.lt_of_succ_lt_succ hj)
          simp only [List.modify_succ_cons, List.map_cons, List.sum_cons, List.getElem_cons_succ]
          omega

/-- How many notices of a sort an event may come to.  An inquiry comes to two, since its answer is
stored and told of. -/
def Event.weight (p : Notice → Bool) : Event → Nat
  | inquired _ => 2
  | noticed m => if p m then 1 else 0
  | dispossessed _ => 0
  | other => 0

theorem Event.weight_noticed_le (p : Notice → Bool) (m : Notice) :
    (Event.noticed m).weight p ≤ 1 := by
  rw [weight]
  split <;> omega

theorem Event.weight_le (p : Notice → Bool) (e : Event) : e.weight p ≤ 2 := by
  cases e with
  | inquired q => exact Nat.le_refl 2
  | noticed m => exact Nat.le_succ_of_le (weight_noticed_le p m)
  | dispossessed d => exact Nat.zero_le 2
  | other => exact Nat.zero_le 2

/-- The notices among the events that a client has been sent are no more than may come of these. -/
theorem Event.countP_notices_le (p : Notice → Bool) (es : List Event) :
    (es.filterMap Event.notice?).countP p ≤ (es.map (Event.weight p)).sum := by
  induction es with
  | nil => exact Nat.le_refl 0
  | cons e rest ih =>
      cases e with
      | noticed m =>
          simp only [List.filterMap_cons, Event.notice?, List.countP_cons, List.map_cons,
            List.sum_cons, Event.weight]
          omega
      | _ =>
          simp only [List.filterMap_cons, Event.notice?, List.map_cons, List.sum_cons, Event.weight]
          omega

namespace Client

variable {p : Notice → Bool} {c : Client}

/-- How many notices of a sort may come of what a client has been sent, to whomever. -/
def load (p : Notice → Bool) (c : Client) : Nat := (c.pending.map (Event.weight p)).sum

/-- How many notices of a sort a client has, or may still get for the parts that it is fed. -/
def due (p : Notice → Bool) (c : Client) : Nat := c.inbox.countP p + c.feed.length

theorem load_cons {e : Event} {rest : List Event} (h : c.pending = e :: rest) :
    c.load p = e.weight p + load p { c with pending := rest } := by
  rw [load, h]
  rfl

theorem load_append (e : Event) :
    load p { c with pending := c.pending ++ [e] } = c.load p + e.weight p := by
  simp [load]

theorem load_le (p : Notice → Bool) (c : Client) : c.load p ≤ 2 * c.pending.length := by
  unfold load
  induction c.pending with
  | nil => exact Nat.le_refl 0
  | cons e rest ih =>
      have he := e.weight_le p
      simp only [List.map_cons, List.sum_cons, List.length_cons]
      omega

end Client

namespace Server

open Action

variable {s s' : Server} {i j k longest : Nat} {patience : Duration} {p : Notice → Bool}
  {f : Client → Client}

/-- How many notices of a sort may come of all that anybody has been sent. -/
def load (p : Notice → Bool) (s : Server) : Nat := (s.clients.map (Client.load p)).sum

/-- How many notices of a sort a client may still look at before it asks for anything. -/
def impending (p : Notice → Bool) (i : Nat) (s : Server) : Nat :=
  (s.client i).due p + s.load p

theorem load_amend (hj : j < s.clients.length) (f : Client → Client) :
    (s.amend j f).load p + (s.client j).load p = s.load p + (f (s.client j)).load p := by
  have hclient : s.client j = s.clients[j] := by
    simp [client, List.getD_eq_getElem?_getD, hj]
  rw [hclient]
  exact sum_map_modify (Client.load p) f hj

theorem impending_amend_self (hi : i < s.clients.length) (f : Client → Client) :
    (s.amend i f).impending p i + ((s.client i).due p + (s.client i).load p) =
      s.impending p i + ((f (s.client i)).due p + (f (s.client i)).load p) := by
  have hsum := load_amend (p := p) hi f
  rw [impending, impending, client_amend_self hi]
  omega

theorem impending_amend_of_ne (hj : j < s.clients.length) (hne : i ≠ j) (f : Client → Client) :
    (s.amend j f).impending p i + (s.client j).load p =
      s.impending p i + (f (s.client j)).load p := by
  have hsum := load_amend (p := p) hj f
  rw [impending, impending, client_amend_of_ne (Ne.symm hne)]
  omega

/-- What is done to a client takes away so much and adds so much, whosever notices are counted. -/
theorem impending_amend {a b : Nat} (hj : j < s.clients.length)
    (hload : (f (s.client j)).load p + a ≤ (s.client j).load p + b)
    (hboth : (f (s.client j)).due p + (f (s.client j)).load p + a ≤
      (s.client j).due p + (s.client j).load p + b) :
    (s.amend j f).impending p i + a ≤ s.impending p i + b := by
  by_cases hi : i = j
  · subst hi
    have hself := impending_amend_self (p := p) hj f
    omega
  · have hother := impending_amend_of_ne (p := p) hj hi f
    omega

theorem lt_of_client_ne (h : s.client j ≠ .gone) : j < s.clients.length := by
  apply Classical.byContradiction
  intro hle
  exact h (client_of_le (by omega))

/-- Nothing is done to a client that is not there. -/
theorem amend_of_le (hj : s.clients.length ≤ j) (f : Client → Client) : s.amend j f = s := by
  have hmodify : s.clients.modify j f = s.clients := List.modify_eq_self hj
  rw [amend, hmodify]

theorem impending_amend_le {b : Nat} (hload : (f (s.client j)).load p ≤ (s.client j).load p + b)
    (hboth : (f (s.client j)).due p + (f (s.client j)).load p ≤
      (s.client j).due p + (s.client j).load p + b) :
    (s.amend j f).impending p i ≤ s.impending p i + b := by
  by_cases hj : j < s.clients.length
  · exact impending_amend (a := 0) hj hload hboth
  · rw [amend_of_le (by omega)]
    omega

theorem impending_deliver (s : Server) (j : Nat) (e : Event) :
    (s.deliver j e).impending p i ≤ s.impending p i + e.weight p := by
  refine impending_amend_le ?_ ?_
  · split
    · exact Nat.le_of_eq (Client.load_append e)
    · omega
  · split
    · have hload := Client.load_append (p := p) (c := s.client j) e
      simp only [Client.due]
      omega
    · omega

theorem impending_put (s : Server) (j : Nat) (a : Atom) (v : Property) :
    (s.put j a v).impending p i ≤ s.impending p i + 1 := by
  have hstored : (s.amend j fun c =>
      { c with properties := (a, v) :: c.properties.filter (·.1 ≠ a) }).impending p i ≤
        s.impending p i + 0 := impending_amend_le (Nat.le_refl _) (Nat.le_refl _)
  have htold := impending_deliver (p := p) (i := i) (s.amend j fun c =>
    { c with properties := (a, v) :: c.properties.filter (·.1 ≠ a) }) j
    (.noticed (.changed ⟨s.stamp, windowOf j, a, false⟩))
  have hone := Event.weight_noticed_le p (.changed ⟨s.stamp, windowOf j, a, false⟩)
  exact Nat.le_trans htold (by omega)

/-- A client that loses its connection keeps the notices that were on their way to it. -/
theorem impending_disconnect (s : Server) (j : Nat) :
    (s.disconnect j).impending p i ≤ s.impending p i := by
  refine impending_amend_le (b := 0) ?_ ?_
  · exact Nat.zero_le _
  · have hnotices := Event.countP_notices_le p (s.client j).pending
    show (((s.client j).inbox ++ (s.client j).pending.filterMap Event.notice?).countP p + 0) + 0 ≤ _
    rw [List.countP_append]
    simp only [Client.due, Client.load]
    omega

/-- Each message of an answer comes to one notice. -/
theorem impending_post {sel : Selection} {q : Inquiry} {m : Post} (hm : m ∈ sel.answer atoms q)
    (s : Server) (j : Nat) : (s.post j m).impending p i ≤ s.impending p i + 1 := by
  have hhandled : (s.handle j m).impending p i ≤ s.impending p i + 1 := by
    have hcases : (∃ w a v, m = .store w a v) ∨ ∃ r, m = .reply r := by
      unfold Selection.answer at hm
      split at hm <;> simp at hm <;> rcases hm with rfl | rfl <;> simp
    rcases hcases with ⟨w, a, v, rfl⟩ | ⟨r, rfl⟩
    · unfold handle
      dsimp only
      split
      · exact impending_put s _ a v
      · exact Nat.le_succ _
    · unfold handle
      dsimp only
      split
      · exact Nat.le_trans (impending_deliver s _ _)
          (Nat.add_le_add_left (Event.weight_noticed_le p _) _)
      · exact Nat.le_succ _
  unfold post
  split
  · split
    · exact Nat.le_succ_of_le (impending_disconnect s j)
    · exact hhandled
  · exact Nat.le_succ _

/-- An answer comes to no more notices than its inquiry has been counted for. -/
theorem impending_answer (sel : Selection) (q : Inquiry) (s : Server) (j : Nat) :
    ((sel.answer atoms q).foldl (fun s m => s.post j m) s).impending p i ≤
      s.impending p i + 2 := by
  have hposts (posts : List Post) : ∀ s : Server, (∀ m ∈ posts, m ∈ sel.answer atoms q) →
      (posts.foldl (fun s m => s.post j m) s).impending p i ≤
        s.impending p i + posts.length := by
    induction posts with
    | nil => exact fun s _ => Nat.le_refl _
    | cons m rest ih =>
        intro s hall
        have hfirst := impending_post (p := p) (i := i) (hall m List.mem_cons_self) s j
        have hrest := ih (s.post j m) fun m' hm' => hall m' (List.mem_cons_of_mem _ hm')
        simp only [List.foldl_cons, List.length_cons]
        omega
  have hlength : (sel.answer atoms q).length ≤ 2 := by
    unfold Selection.answer
    split <;> simp
  exact Nat.le_trans (hposts _ s fun _ hm => hm) (by omega)

/-- Dealing with an event comes to no more notices than the event has been counted for. -/
theorem impending_advance (s : Server) (j : Nat) :
    (s.advance j).impending p i ≤ s.impending p i := by
  cases hpending : (s.client j).pending with
  | nil => exact Nat.le_of_eq (congrArg (impending p i) (advance_of_nil hpending))
  | cons e rest =>
      have hlt : j < s.clients.length := by
        refine lt_of_client_ne fun hgone => ?_
        rw [hgone] at hpending
        cases hpending
      have hload := Client.load_cons (p := p) hpending
      have htaken : (s.amend j fun c => { c with pending := rest }).impending p i + e.weight p ≤
          s.impending p i + 0 := by
        refine impending_amend hlt (by omega) ?_
        simp only [Client.due]
        omega
      rw [advance_of_cons hpending]
      cases e with
      | inquired q =>
          refine Nat.le_trans (impending_answer _ q _ j) ?_
          simpa only [Event.weight, Nat.add_zero] using htaken
      | dispossessed d =>
          refine Nat.le_trans (impending_amend_le (b := 0) (Nat.le_refl _) (Nat.le_refl _)) ?_
          omega
      | other => exact Nat.le_trans (Nat.le_add_right _ _) htaken
      | noticed m =>
          -- What the client is relieved of, it has to look at.
          have htwice : (s.amend j fun c => { c with pending := rest }).dealWith j (.noticed m) =
              s.amend j fun c => { c with pending := rest, inbox := c.inbox ++ [m] } := by
            simp only [dealWith, amend, List.modify_modify_eq]
            rfl
          rw [htwice]
          refine impending_amend_le (b := 0) ?_ ?_
          · simp only [Client.load] at hload ⊢
            omega
          · simp only [Client.load, Event.weight] at hload
            simp only [Client.load, Client.due, List.countP_append, List.countP_singleton]
            omega

theorem impending_settle (s : Server) : s.settle.impending p i ≤ s.impending p i :=
  settle_induction (P := fun t => t.impending p i ≤ s.impending p i)
    (fun t k ht => Nat.le_trans (impending_advance t k) ht) (Nat.le_refl _)

/-- Taking a value makes room for a part that has been counted already. -/
theorem impending_drop {a : Atom} (hgone : ∀ t, p (.changed ⟨t, windowOf i, a, true⟩) = false)
    (s : Server) : (s.drop i a).impending p i ≤ s.impending p i := by
  let t := (s.amend i fun c =>
    { c with properties := c.properties.filter (·.1 ≠ a) }).announce i a true
  have hremoved : t.impending p i ≤ s.impending p i := by
    have hamended : (s.amend i fun c =>
        { c with properties := c.properties.filter (·.1 ≠ a) }).impending p i ≤
          s.impending p i + 0 := impending_amend_le (Nat.le_refl _) (Nat.le_refl _)
    refine Nat.le_trans (impending_deliver _ i _) ?_
    simp only [Event.weight, hgone]
    exact hamended
  have hfeed : (t.client i).feed = (s.client i).feed := by
    have htold (u : Server) (e : Event) : ((u.deliver i e).client i).feed = (u.client i).feed := by
      refine client_amend_rel (R := fun _ c c' => c'.feed = c.feed) (fun _ _ => rfl) ?_ i
      split <;> rfl
    refine (htold _ _).trans ?_
    exact client_amend_rel (R := fun _ c c' => c'.feed = c.feed) (fun _ _ => rfl) rfl i
  unfold drop
  dsimp only
  split
  · exact Nat.le_refl _
  · split
    · next next rest hnext =>
        split
        · rw [← hfeed] at hnext
          have hlt : i < t.clients.length := by
            refine lt_of_client_ne fun hgone => ?_
            rw [hgone] at hnext
            cases hnext
          have hfed := impending_amend_self (p := p) hlt fun c => { c with feed := rest }
          simp only [Client.due, Client.load, hnext, List.length_cons] at hfed
          refine Nat.le_trans (impending_put _ i a next) ?_
          show (t.amend i fun c => { c with feed := rest }).impending p i + 1 ≤ _
          omega
        · exact hremoved
    · exact hremoved

/-- A client that hears of something has one notice less to look at. -/
theorem impending_listen {m : Notice} (h : s.listen i = (.notice m, s')) :
    s'.impending p i + (if p m then 1 else 0) ≤ s.impending p i := by
  have hlook {t : Server} {rest : List Notice} (hinbox : (t.client i).inbox = m :: rest) :
      (t.amend i fun c => { c with inbox := rest }).impending p i + (if p m then 1 else 0) =
        t.impending p i := by
    have hlt : i < t.clients.length := lt_of_inbox (by rw [hinbox]; simp)
    have hself := impending_amend_self (p := p) hlt fun c => { c with inbox := rest }
    simp only [Client.due, Client.load, hinbox, List.countP_cons] at hself
    omega
  cases hinbox : (s.client i).inbox with
  | cons m' rest =>
      rw [listen_of_inbox hinbox] at h
      cases h
      exact Nat.le_of_eq (hlook hinbox)
  | nil =>
      cases hlater : (s.settle.client i).inbox with
      | cons m' rest =>
          rw [listen_settle hinbox (by rw [hlater]; simp), listen_of_inbox hlater] at h
          cases h
          exact Nat.le_trans (Nat.le_of_eq (hlook hlater)) (impending_settle s)
      | nil =>
          simp only [listen, heard?, hinbox, hlater] at h
          split at h <;> cases h

/-! ## The horizon -/

/-- All that is impending is within the horizon. -/
theorem impending_lt_horizon (p : Notice → Bool) (s : Server) (i : Nat) :
    s.impending p i < s.horizon i := by
  have htotal (l : List Client) : ∀ n m, n ≤ 2 * m →
      n + (l.map (Client.load p)).sum ≤ 2 * l.foldl (fun n c => n + c.pending.length) m := by
    induction l with
    | nil => exact fun n m h => h
    | cons c rest ih =>
        intro n m h
        have hc := c.load_le p
        have hrest := ih (n + c.load p) (m + c.pending.length) (by omega)
        simp only [List.map_cons, List.sum_cons, List.foldl_cons]
        omega
  have hload := htotal s.clients 0 0 (Nat.le_refl _)
  have hinbox := List.countP_le_length (p := p) (l := (s.client i).inbox)
  simp only [impending, Client.due, load, horizon]
  omega

/-- Whether a notice is of a new value. -/
def isArrival : Notice → Bool
  | .changed c => !c.removed
  | .replied _ => false

theorem comes_le_impending {n : Nat} (h : (connection i longest patience).Comes n s) :
    n ≤ s.impending (fun _ => true) i := by
  induction n generalizing s with
  | zero => exact Nat.zero_le _
  | succ n ih =>
      obtain ⟨m, t, hheard, hlater⟩ := h
      have hless := impending_listen (p := fun _ => true) hheard
      have hrest := ih hlater
      simp only [if_true] at hless
      omega

theorem transfers_le_impending {parts : List Property}
    (h : (connection i longest patience).Transfers s parts s') :
    parts.length ≤ s.impending isArrival i := by
  induction h with
  | nil s => exact Nat.zero_le _
  | other hheard _ _ ih =>
      have hless := impending_listen (p := isArrival) hheard
      omega
  | @cons time part s t u v parts hheard htaken _ ih =>
      have hless := impending_listen (p := isArrival) hheard
      have hroom : u.impending isArrival i ≤ t.impending isArrival i := by
        have hasked : requestProperty i atoms.transfer t = (.done part, u) := htaken
        cases request_eq_done hasked
        exact impending_drop (fun _ => rfl) t
      simp only [Connection.announcement, isArrival, Bool.not_false, if_true] at hless
      rw [List.length_cons]
      omega

/-- **Nothing comes from beyond the horizon.**  A client that waits hears fewer notices than its
horizon tells, and one that takes what is announced to it is brought no more values. -/
theorem connection_foresees (i longest : Nat) (patience : Duration) :
    (connection i longest patience).Foresees := by
  intro s
  constructor
  · intro n hcomes
    exact Nat.lt_of_le_of_lt (comes_le_impending hcomes) (impending_lt_horizon _ s i)
  · intro parts t htransfers
    exact Nat.le_of_lt
      (Nat.lt_of_le_of_lt (transfers_le_impending htransfers) (impending_lt_horizon _ s i))

end Server

end Clipboard.X11

namespace Clipboard.Workstation

/-- So it is for a program on a workstation. -/
theorem connection_foresees (i longest : Nat) (patience : Duration) :
    (connection i longest patience).Foresees :=
  (X11.Connection.zoom_views _ fun _ _ => rfl).foresees
    (X11.Server.connection_foresees i longest patience)

end Clipboard.Workstation
