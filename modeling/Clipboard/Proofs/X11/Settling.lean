import Clipboard.Proofs.X11.Steady

/-!
# Settling down

Clients that deal with inquiries send each other notices, and nothing is sent by
one who deals with a notice.  So after one round there are only notices left, and
after two rounds nothing is.

* `advance_of_other`: what dealing with an event comes to, if it is no inquiry;
* `advance_pending`: what is pending after one event has been dealt with;
* `settle_quiet`: a server that has settled is quiet.
-/

namespace Clipboard.X11

/-- The notices that a client has, and those on their way to it. -/
def Client.stream (c : Client) : List Notice := c.inbox ++ c.pending.filterMap Event.notice?

/-- What becomes of a client when it deals with all that it has been sent, unless
there is an inquiry among it. -/
def Client.caughtUp (w : Window) (c : Client) : Client :=
  { c with pending := [], inbox := c.stream, selection := c.mailbox.destined Server.atoms w }

namespace Server

variable {s s' s'' : Server} {i j k : Nat}

/-- An event that is no inquiry is dealt with by its client alone, and comes to what it
would have come to later. -/
theorem advance_of_other {e : Event} {rest : List Event}
    (hpending : (s.client i).pending = e :: rest) (he : e.isInquiry = false) (j : Nat) :
    ((s.advance i).client j).pending = (if j = i then rest else (s.client j).pending) ∧
      ((s.advance i).client j).caughtUp (windowOf j) = (s.client j).caughtUp (windowOf j) := by
  have hlt : i < s.clients.length := by
    apply Classical.byContradiction
    intro hle
    rw [client_of_le (by omega)] at hpending
    cases hpending
  have hone : ∃ f : Client → Client,
      (s.amend i fun c => { c with pending := rest }).dealWith i e = s.amend i f ∧
        (f (s.client i)).pending = rest ∧
        (f (s.client i)).caughtUp (windowOf i) = (s.client i).caughtUp (windowOf i) := by
    cases e with
    | inquired q => cases he
    | other =>
        refine ⟨_, rfl, rfl, ?_⟩
        simp [Client.caughtUp, Client.stream, Client.mailbox, Mailbox.destined, hpending,
          List.filterMap_cons, Event.notice?, Selection.learn]
    | noticed n =>
        refine ⟨_, by simp only [dealWith, amend, List.modify_modify_eq]; rfl, rfl, ?_⟩
        simp [Client.caughtUp, Client.stream, Client.mailbox, Mailbox.destined, hpending,
          Event.notice?, Selection.learn]
    | dispossessed d =>
        refine ⟨_, by simp only [dealWith, amend, List.modify_modify_eq]; rfl, rfl, ?_⟩
        simp [Client.caughtUp, Client.stream, Client.mailbox, Mailbox.destined, hpending,
          List.filterMap_cons, Event.notice?, Selection.learn]
  obtain ⟨f, hf, hleft, hsame⟩ := hone
  rw [advance_of_cons hpending, hf, client_amend]
  by_cases hj : j = i
  · subst hj
    rw [if_pos ⟨rfl, hlt⟩, if_pos rfl]
    exact ⟨hleft, hsame⟩
  · rw [if_neg fun hboth => hj hboth.1, if_neg hj]
    exact ⟨rfl, rfl⟩

/-- Nothing is left to be dealt with. -/
def Quiet (s : Server) : Prop := ∀ k, (s.client k).pending = []

/-- All that is left to be dealt with is of some sort. -/
def Pends (p : Event → Prop) (s : Server) : Prop := ∀ k, ∀ e ∈ (s.client k).pending, p e

theorem Quiet.pends (h : s.Quiet) (p : Event → Prop) : s.Pends p := by
  intro k e he
  rw [h k] at he
  cases he

/-- Events before and after something that adds notices, or takes all away before
it does. -/
def Lengthened (before after : List Event) : Prop :=
  ∃ ns : List Notice, after = before ++ ns.map .noticed ∨ after = ns.map .noticed

theorem Lengthened.refl (l : List Event) : Lengthened l l := ⟨[], .inl (by simp)⟩

theorem Lengthened.trans {a b c : List Event} (h : Lengthened a b) (h' : Lengthened b c) :
    Lengthened a c := by
  obtain ⟨ns, hb⟩ := h
  obtain ⟨ms, rfl | rfl⟩ := h'
  · refine ⟨ns ++ ms, ?_⟩
    rcases hb with rfl | rfl
    · left; simp
    · right; simp
  · exact ⟨ms, .inr rfl⟩

/-- What is lengthened holds an event from before or a notice. -/
theorem Lengthened.mem_drop {a b : List Event} (h : Lengthened a b) (n : Nat) {e : Event}
    (he : e ∈ b.drop n) : e ∈ a.drop n ∨ e.isNotice = true := by
  have hnotice (ns : List Notice) (hns : e ∈ ns.map Event.noticed) : e.isNotice = true := by
    obtain ⟨n, _, rfl⟩ := List.mem_map.mp hns
    rfl
  obtain ⟨ns, rfl | rfl⟩ := h
  · rw [List.drop_append] at he
    rcases List.mem_append.mp he with he | he
    · exact .inl he
    · exact .inr (hnotice ns (List.mem_of_mem_drop he))
  · exact .inr (hnotice ns (List.mem_of_mem_drop he))

/-- Something that sends notices alone. -/
def Notifies (s s' : Server) : Prop :=
  ∀ k, Lengthened (s.client k).pending (s'.client k).pending

theorem Notifies.refl (s : Server) : Notifies s s := fun _ => .refl _

theorem Notifies.trans (h : Notifies s s') (h' : Notifies s' s'') : Notifies s s'' :=
  fun k => (h k).trans (h' k)

theorem notifies_amend {f : Client → Client}
    (h : Lengthened (s.client i).pending (f (s.client i)).pending) : Notifies s (s.amend i f) :=
  client_amend_rel (R := fun _ c c' => Lengthened c.pending c'.pending) (fun _ _ => .refl _) h

theorem Serves.notifies (h : Serves (·.isNotice = true) s s') : Notifies s s' := by
  intro k
  obtain ⟨es, hes, hnotice⟩ := (h.each k).pending
  have hmap : ∃ ns : List Notice, es = ns.map .noticed := by
    clear hes
    induction es with
    | nil => exact ⟨[], rfl⟩
    | cons e rest ih =>
        obtain ⟨ns, rfl⟩ := ih fun e' he' => hnotice e' (List.mem_cons_of_mem _ he')
        have he := hnotice e List.mem_cons_self
        cases e with
        | noticed n => exact ⟨n :: ns, rfl⟩
        | _ => cases he
  obtain ⟨ns, rfl⟩ := hmap
  exact ⟨ns, .inl hes⟩

/-- Whatever a client answers an inquiry with, it sends notices alone. -/
theorem answer_notifies {atoms : Atoms} {sel : Selection} {q : Inquiry} {p : Post}
    (hp : p ∈ sel.answer atoms q) (s : Server) (i : Nat) : Notifies s (s.post i p) := by
  unfold post
  split
  · split
    · exact notifies_amend ⟨[], .inr rfl⟩
    · exact (handle_answer_serves hp s i).notifies
  · exact .refl s

/-- Dealing with an event takes it away, and adds notices if it is an inquiry. -/
theorem advance_pending (s : Server) (i j : Nat) :
    Lengthened (if j = i then (s.client j).pending.tail else (s.client j).pending)
      ((s.advance i).client j).pending := by
  cases hpending : (s.client i).pending with
  | nil =>
      rw [advance_of_nil hpending]
      split
      · next hj => subst hj; rw [hpending]; exact .refl _
      · exact .refl _
  | cons e rest =>
      have htaken : ((s.amend i fun c => { c with pending := rest }).client j).pending =
          if j = i then (s.client j).pending.tail else (s.client j).pending := by
        rw [client_amend]
        by_cases hj : j = i
        · subst hj
          by_cases hlt : j < s.clients.length
          · simp [hlt, hpending]
          · rw [client_of_le (by omega)] at hpending
            cases hpending
        · simp [hj]
      rw [advance_of_cons hpending, ← htaken]
      cases e with
      | inquired q =>
          have hall (posts : List Post)
              (hposts : ∀ p ∈ posts, ∀ (s : Server) (i : Nat), Notifies s (s.post i p)) :
              ∀ s, Notifies s (posts.foldl (fun s p => s.post i p) s) := by
            induction posts with
            | nil => exact fun s => .refl s
            | cons p others ih =>
                exact fun s => (hposts p List.mem_cons_self s i).trans
                  (ih (fun p' hp' => hposts p' (List.mem_cons_of_mem _ hp')) _)
          exact hall _ (fun p hp s i => answer_notifies hp s i) _ j
      | noticed n => exact notifies_amend (.refl _) j
      | dispossessed d => exact notifies_amend (.refl _) j
      | other => exact .refl _

/-! ## Two rounds -/

theorem advanceBy_notices (n : Nat) :
    ∀ s : Server, (∀ e ∈ (s.client i).pending.drop n, e.isNotice = true) →
      ∀ e ∈ ((s.advanceBy i n).client i).pending, e.isNotice = true := by
  induction n with
  | zero => exact fun s h => h
  | succ n ih =>
      intro s h
      refine ih (s.advance i) fun e he => ?_
      have hlong := advance_pending s i i
      rw [if_pos rfl] at hlong
      rcases hlong.mem_drop n he with he | he
      · rw [List.drop_tail] at he
        exact h e he
      · exact he

/-- A client that has dealt with all that it was sent has been sent notices since. -/
theorem catchUp_notices (s : Server) (i : Nat) :
    ∀ e ∈ ((s.catchUp i).client i).pending, e.isNotice = true := by
  refine advanceBy_notices _ s fun e he => ?_
  rw [List.drop_length] at he
  cases he

/-- Where only notices are left, no other client leaves anything but notices. -/
theorem advance_keeps_notices (i : Nat) (h : ∀ e ∈ (s.client j).pending, e.isNotice = true) :
    ∀ e ∈ ((s.advance i).client j).pending, e.isNotice = true := by
  intro e he
  rcases (advance_pending s i j).mem_drop 0 he with he | he
  · rw [List.drop_zero] at he
    split at he
    · exact h e (List.mem_of_mem_tail he)
    · exact h e he
  · exact he

theorem catchUp_keeps_notices (i : Nat) (h : ∀ e ∈ (s.client j).pending, e.isNotice = true) :
    ∀ e ∈ ((s.catchUp i).client j).pending, e.isNotice = true := by
  have hby (n : Nat) : ∀ s : Server, (∀ e ∈ (s.client j).pending, e.isNotice = true) →
      ∀ e ∈ ((s.advanceBy i n).client j).pending, e.isNotice = true := by
    induction n with
    | zero => exact fun s hs => hs
    | succ n ih => exact fun s hs => ih _ (advance_keeps_notices i hs)
  exact hby _ s h

/-- After the first round only notices are left. -/
theorem catchUpAll_notices (s : Server) : s.catchUpAll.Pends (·.isNotice = true) := by
  have hround (l : List Nat) : ∀ s : Server, ∀ j,
      (j ∈ l ∨ ∀ e ∈ (s.client j).pending, e.isNotice = true) →
        ∀ e ∈ ((l.foldl catchUp s).client j).pending, e.isNotice = true := by
    induction l with
    | nil => exact fun s j h => h.resolve_left List.not_mem_nil
    | cons k rest ih =>
        intro s j h
        refine ih (s.catchUp k) j ?_
        rcases h with h | h
        · rcases List.mem_cons.mp h with rfl | h
          · exact .inr (catchUp_notices s j)
          · exact .inl h
        · exact .inr (catchUp_keeps_notices k h)
  intro j
  refine hround _ s j ?_
  by_cases hj : j < s.clients.length
  · exact .inl (List.mem_range.mpr hj)
  · right
    rw [client_of_le (by omega)]
    intro e he
    cases he

/-- Dealing with an event that is no inquiry takes it away and sends nothing. -/
theorem advance_pending_of_calm (h : ∀ e ∈ (s.client i).pending, e.isInquiry = false) (j : Nat) :
    ((s.advance i).client j).pending =
      if j = i then (s.client j).pending.tail else (s.client j).pending := by
  cases hpending : (s.client i).pending with
  | nil =>
      rw [advance_of_nil hpending]
      split
      · next hj => subst hj; simp [hpending]
      · rfl
  | cons e rest =>
      have he := h e (by rw [hpending]; exact List.mem_cons_self)
      rw [(advance_of_other hpending he j).1]
      split
      · next hj => subst hj; rw [hpending]; rfl
      · rfl

/-- What is left pending by a client that has not been asked anything is no more than
before. -/
theorem advance_pends {p : Event → Prop} (hs : s.Pends p)
    (h : ∀ e ∈ (s.client i).pending, e.isInquiry = false) : (s.advance i).Pends p := by
  intro k e he
  rw [advance_pending_of_calm h] at he
  split at he
  · exact hs k e (List.mem_of_mem_tail he)
  · exact hs k e he

theorem catchUp_pending_of_notices (h : s.Pends (·.isNotice = true)) (i j : Nat) :
    ((s.catchUp i).client j).pending = if j = i then [] else (s.client j).pending := by
  have hby (n : Nat) : ∀ s : Server, s.Pends (·.isNotice = true) →
      ((s.advanceBy i n).client j).pending =
        if j = i then (s.client j).pending.drop n else (s.client j).pending := by
    induction n with
    | zero => intro s _; simp [advanceBy]
    | succ n ih =>
        intro s hs
        have hs' : (s.advance i).Pends (·.isNotice = true) :=
          fun k => advance_keeps_notices i (hs k)
        have hcalm : ∀ e ∈ (s.client i).pending, e.isInquiry = false :=
          fun e he => Event.not_inquiry_of_notice (hs i e he)
        rw [advanceBy, ih _ hs', advance_pending_of_calm hcalm]
        split
        · rw [List.drop_tail]
        · rfl
  rw [catchUp, hby _ s h]
  split
  · next hj => rw [hj, List.drop_length]
  · rfl

/-- A server that has settled is quiet. -/
theorem settle_quiet (s : Server) : s.settle.Quiet := by
  have hround (l : List Nat) : ∀ s : Server, s.Pends (·.isNotice = true) → ∀ j,
      (j ∈ l ∨ (s.client j).pending = []) → ((l.foldl catchUp s).client j).pending = [] := by
    induction l with
    | nil => exact fun s _ j h => h.resolve_left List.not_mem_nil
    | cons k rest ih =>
        intro s hs j h
        have hafter := catchUp_pending_of_notices hs k j
        refine ih (s.catchUp k) (fun j => catchUp_keeps_notices k (hs j)) j ?_
        rcases h with h | h
        · rcases List.mem_cons.mp h with rfl | h
          · right; rw [hafter, if_pos rfl]
          · exact .inl h
        · right
          rw [hafter, h]
          split <;> rfl
  intro j
  refine hround _ _ (catchUpAll_notices s) j ?_
  by_cases hj : j < s.catchUpAll.clients.length
  · exact .inl (List.mem_range.mpr hj)
  · right
    rw [client_of_le (by omega)]
    rfl

end Server

end Clipboard.X11
