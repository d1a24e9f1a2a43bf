import Clipboard.Proofs.X11.Hosting
import Clipboard.Proofs.X11.Horizons
import Clipboard.Proofs.X11.Inquiries
import Clipboard.Proofs.X11.Relays

/-!
# A server on which answers arrive

A client that has asked for a conversion waits until the inquiry has come to the owner and the
answer has come back.  On the way there the inquiry stands behind other events of the owner, and in
front of it no other inquiry does; afterwards the answer stands at the end of the client's stream,
and the content at its place.  So it is on a server that closes no connection and on which nothing
is under way that has been asked before.

* `Asked.advance`: each event that is dealt with leaves the inquiry on its way, or answers it with
  what the owner is destined to hold;
* `Server.carries_of_client`: so a client that asks is told, and finds what it is told of;
* `Server.reliable`: the display of a server is reliable.
-/

namespace Clipboard.X11

/-- An answer to an inquiry about the clipboard from a window. -/
def Notice.answers (w : Window) : Notice → Bool
  | .replied r => r.requestor = w ∧ r.selection = Server.atoms.clipboard
  | .changed _ => false

namespace Server

open Action

variable {s s' : Server} {i j k longest : Nat} {patience : Duration} {target : Atom}
  {value : Option Property} {sel : Selection}

/-- The inquiry by which a client asks for a conversion. -/
def inquiryOf (i : Nat) (target : Atom) : Inquiry :=
  ⟨0, windowOf i, atoms.clipboard, target, atoms.transfer⟩

/-- A client on a server that closes no connection has not been sent an answer. -/
structure Unanswered (i : Nat) (s : Server) : Prop where
  room : s.clients.length ≤ capacity
  hangsUpOn : s.hangsUpOn = none
  connected : (s.client i).connected = true
  other : ∀ m ∈ (s.client i).stream, m.answers (windowOf i) = false

/-- An inquiry is on its way to a client that is destined to hold a selection, behind events
that are none. -/
structure Asked (i j : Nat) (target : Atom) (sel : Selection) (s : Server) : Prop
    extends Unanswered i s where
  waiting : ∃ es, (s.client j).pending = es ++ [.inquired (inquiryOf i target)] ∧
    ∀ e ∈ es, e.isInquiry = false
  others : ∀ k, k ≠ j → ∀ e ∈ (s.client k).pending, e.isInquiry = false
  there : (s.client j).connected = true
  held : s.destined j = sel

/-- An answer stands at the end of a client's stream, and what is delivered at its place. -/
structure Answered (i : Nat) (value : Option Property) (s : Server) : Prop where
  calm : s.Calm
  heard : ∃ earlier r, (s.client i).stream = earlier ++ [.replied r] ∧
    (∀ m ∈ earlier, m.answers (windowOf i) = false) ∧
    r.requestor = windowOf i ∧ r.selection = atoms.clipboard ∧
    r.property = if value.isSome then atoms.transfer else 0
  found : ∀ v, value = some v → (s.client i).properties.lookup atoms.transfer = some v

theorem stream_of_caughtUp {w : Window} {c c' : Client} (h : c'.caughtUp w = c.caughtUp w) :
    c'.stream = c.stream := congrArg Client.inbox h

theorem Answered.advance (h : Answered i value s) (k : Nat) : Answered i value (s.advance k) := by
  obtain ⟨hcalm, hsame⟩ := advance_calm h.calm k
  have hproperties : ((s.advance k).client i).properties = (s.client i).properties := by
    have hfields := congrArg Client.properties (hsame i)
    exact hfields
  constructor
  · exact hcalm
  · rw [stream_of_caughtUp (hsame i)]
    exact h.heard
  · rw [hproperties]
    exact h.found

/-! ## The owner answers -/

theorem refuses_of_none (h : s.hangsUpOn = none) (r : Request) : s.refuses r = false := by
  rw [refuses, h]
  rfl

/-- When an inquiry has been dealt with that nothing was sent in answer to before, its answer stands
at the end. -/
theorem Unanswered.answered (h : Unanswered i s) (hcalm : s'.Calm)
    (hdealt : Dealt (inquiryOf i target) value s s') : Answered i value s' := by
  have htold := hdealt.told i h.connected rfl
  have hstream : (s'.client i).stream = (s.client i).stream ++
      (value.toList.map fun _ => .changed ⟨s.stamp, windowOf i, atoms.transfer, false⟩) ++
      [.replied ((inquiryOf i target).reply value)] := by
    rw [htold]
    cases value <;> simp [Client.stream, Event.notice?, inquiryOf, Inquiry.place, atoms]
  have hplace : (inquiryOf i target).place = atoms.transfer := rfl
  refine ⟨hcalm, ⟨_, _, hstream, fun m hm => ?_, rfl, rfl, rfl⟩, fun v hv => ?_⟩
  · rcases List.mem_append.mp hm with hm | hm
    · exact h.other m hm
    · obtain ⟨v, -, rfl⟩ := List.mem_map.mp hm
      rfl
  · have hfound := hdealt.place i h.connected rfl atoms.transfer
    rw [hplace, if_pos rfl, hv, Option.some_or] at hfound
    exact hfound

namespace Asked

/-- Dealing with any other event keeps what the clients come to in the end. -/
theorem of_caughtUp (h : Asked i j target sel s) (hsteady : Steady s s')
    (hsame : ∀ l, (s'.client l).caughtUp (windowOf l) = (s.client l).caughtUp (windowOf l))
    (hwaiting : ∃ es, (s'.client j).pending = es ++ [.inquired (inquiryOf i target)] ∧
      ∀ e ∈ es, e.isInquiry = false)
    (hothers : ∀ l, l ≠ j → ∀ e ∈ (s'.client l).pending, e.isInquiry = false) :
    Asked i j target sel s' := by
  have hconn (l : Nat) : (s'.client l).connected = (s.client l).connected := by
    have hfields := congrArg Client.connected (hsame l)
    exact hfields
  have hheld : s'.destined j = s.destined j := by
    have hfields := congrArg Client.selection (hsame j)
    exact hfields
  constructor
  · constructor
    · exact hsteady.size.symm ▸ h.room
    · exact hsteady.hangsUpOn.trans h.hangsUpOn
    · exact (hconn i).trans h.connected
    · rw [stream_of_caughtUp (hsame i)]
      exact h.other
  · exact hwaiting
  · exact hothers
  · exact (hconn j).trans h.there
  · exact hheld.trans h.held

/-- When the inquiry is the oldest event of the owner, it is answered. -/
theorem reached (h : Asked i j target sel s)
    (hpending : (s.client j).pending = [.inquired (inquiryOf i target)]) :
    Answered i (sel.answer? atoms (inquiryOf i target)) (s.advance j) := by
  let t := s.amend j fun c => { c with pending := [] }
  have hclient (l : Nat) : (t.client l).connected = (s.client l).connected ∧
      (t.client l).selection = (s.client l).selection ∧
      (t.client l).stream = (s.client l).stream := by
    by_cases hl : l = j
    · subst hl
      rw [client_amend_self (lt_of_connected h.there)]
      refine ⟨rfl, rfl, ?_⟩
      simp [Client.stream, hpending, Event.notice?]
    · rw [client_amend_of_ne (Ne.symm hl)]
      exact ⟨rfl, rfl, rfl⟩
  have hheld : (t.client j).selection = sel := by
    rw [(hclient j).2.1, ← h.held, destined, Mailbox.destined]
    show _ = (s.client j).pending.foldl _ _
    rw [hpending]
    rfl
  have ht : Unanswered i t := by
    refine ⟨?_, h.hangsUpOn, (hclient i).1.trans h.connected, ?_⟩
    · rw [length_amend]
      exact h.room
    · rw [(hclient i).2.2]
      exact h.other
  -- Nobody is left with an inquiry, and what is sent in answer to one are notices.
  have hcalm : (s.advance j).Calm := by
    intro l e he
    rcases (advance_pending s j l).mem_drop 0 he with hleft | hnotice
    · rw [List.drop_zero] at hleft
      by_cases hl : l = j
      · subst hl
        rw [if_pos rfl, hpending] at hleft
        cases hleft
      · rw [if_neg hl] at hleft
        exact h.others l hl e hleft
    · exact Event.not_inquiry_of_notice hnotice
  have hdealt := dealt_inquired (q := inquiryOf i target) ht.room ((hclient j).1.trans h.there)
    (refuses_of_none ht.hangsUpOn _) (refuses_of_none ht.hangsUpOn _)
  rw [hheld, show t.dealWith j _ = s.advance j from (advance_of_cons hpending).symm] at hdealt
  exact ht.answered hcalm hdealt

/-- An event that is dealt with leaves the inquiry on its way, or is the inquiry, which is then
answered with what the owner is destined to hold. -/
theorem advance (h : Asked i j target sel s) (k : Nat) :
    Asked i j target sel (s.advance k) ∨
      Answered i (sel.answer? atoms (inquiryOf i target)) (s.advance k) := by
  obtain ⟨es, hpending, hes⟩ := h.waiting
  by_cases hk : k = j
  · subst hk
    cases es with
    | nil => exact .inr (h.reached hpending)
    | cons e rest =>
        left
        have hafter := advance_of_other hpending (hes e List.mem_cons_self)
        refine h.of_caughtUp (advance_steady s k) (fun l => (hafter l).2)
          ⟨rest, ?_, fun e' he' => hes e' (List.mem_cons_of_mem _ he')⟩ fun l hl e' he' => ?_
        · rw [(hafter k).1, if_pos rfl]
          rfl
        · rw [(hafter l).1, if_neg hl] at he'
          exact h.others l hl e' he'
  · left
    cases hown : (s.client k).pending with
    | nil =>
        rw [advance_of_nil hown]
        exact h
    | cons e rest =>
        have hafter := advance_of_other hown
          (h.others k hk e (by rw [hown]; exact List.mem_cons_self))
        refine h.of_caughtUp (advance_steady s k) (fun l => (hafter l).2) ⟨es, ?_, hes⟩
          fun l hl e' he' => ?_
        · rw [(hafter j).1, if_neg (Ne.symm hk)]
          exact hpending
        · rw [(hafter l).1] at he'
          split at he'
          · refine h.others k hk e' ?_
            rw [hown]
            exact List.mem_cons_of_mem _ he'
          · exact h.others l hl e' he'

/-- When all have settled, an inquiry that was on its way has been answered. -/
theorem settle (h : Asked i j target sel s) :
    Answered i (sel.answer? atoms (inquiryOf i target)) s.settle := by
  have hall : Asked i j target sel s.settle ∨
      Answered i (sel.answer? atoms (inquiryOf i target)) s.settle := by
    refine settle_induction (P := fun t => Asked i j target sel t ∨
      Answered i (sel.answer? atoms (inquiryOf i target)) t) (fun t k ht => ?_) (.inl h)
    rcases ht with hasked | hanswered
    · exact hasked.advance k
    · exact .inr (hanswered.advance k)
  refine hall.resolve_left fun hasked => ?_
  obtain ⟨es, hpending, -⟩ := hasked.waiting
  rw [settle_quiet s j] at hpending
  simp at hpending

end Asked

/-! ## The answer is heard -/

section Waits

variable {α : Type} {accept : Notice → Option α} {a : α} {m : Notice} {later : List Notice}

/-- Looking at one notice after the other, a client comes to the first that it recognises. -/
theorem waits_of_inbox (hm : accept m = some a) (earlier : List Notice) :
    ∀ s : Server, (s.client i).inbox = earlier ++ m :: later →
      (∀ m' ∈ earlier, accept m' = none) →
      (connection i longest patience).Waits accept s (.done a)
        (s.amend i fun c => { c with inbox := later }) := by
  induction earlier with
  | nil => exact fun s hinbox _ => .accepted (listen_of_inbox hinbox) hm
  | cons m' rest ih =>
      intro s hinbox hother
      have hlt : i < s.clients.length := lt_of_inbox (by rw [hinbox]; simp)
      have hlater := ih (s.amend i fun c => { c with inbox := rest ++ m :: later })
        (by rw [client_amend_self hlt]) fun m₁ h₁ => hother m₁ (List.mem_cons_of_mem _ h₁)
      have htwice : (s.amend i fun c => { c with inbox := rest ++ m :: later }).amend i
          (fun c => { c with inbox := later }) = s.amend i fun c => { c with inbox := later } := by
        simp only [amend, List.modify_modify_eq]
        rfl
      rw [htwice] at hlater
      exact .other (listen_of_inbox hinbox) (hother m' List.mem_cons_self) hlater

/-- What a client hears first is all that counts. -/
theorem waits_of_listen {r : Outcome Failure α} {t u : Server} (h : s.listen i = t.listen i)
    (hwaits : (connection i longest patience).Waits accept t r u) :
    (connection i longest patience).Waits accept s r u := by
  cases hwaits with
  | accepted hheard hm => exact .accepted (h.trans hheard) hm
  | other hheard hm hlater => exact .other (h.trans hheard) hm hlater
  | ended hheard hend => exact .ended (h.trans hheard) hend

end Waits

theorem replied_of_answers (m : Notice) (h : m.answers (windowOf i) = false) :
    (connection i longest patience).replied m = none := by
  cases m with
  | changed c => rfl
  | replied r =>
      simp only [Notice.answers, decide_eq_false_iff_not] at h
      exact if_neg h

/-- What is there when a client has heard the answer: it has looked at all notices. -/
def heard (s : Server) (i : Nat) : Server := s.settle.amend i fun c => { c with inbox := [] }

/-- The answer is heard, and it comes last. -/
theorem waits_of_answered (hempty : (s.client i).inbox = []) (h : Answered i value s.settle) :
    (connection i longest patience).Waits (connection i longest patience).replied s
      (.done (if value.isSome then atoms.transfer else 0)) (s.heard i) := by
  obtain ⟨earlier, r, hstream, hother, hrequestor, hselection, hplace⟩ := h.heard
  have hinbox : (s.settle.client i).inbox = earlier ++ .replied r :: [] := by
    rw [← hstream, Client.stream, settle_quiet s i]
    exact (List.append_nil _).symm
  have haccept : (connection i longest patience).replied (.replied r) = some r.property :=
    if_pos ⟨hrequestor, hselection⟩
  rw [← hplace]
  refine waits_of_listen (listen_settle hempty (by rw [hinbox]; simp)) ?_
  exact waits_of_inbox haccept earlier s.settle hinbox fun m hm =>
    replied_of_answers m (hother m hm)

/-- What has been stored is found. -/
theorem collect_of_answered {v : Property} (h : Answered i (some v) s.settle)
    (hhang : s.settle.hangsUpOn = none) (hi : (s.settle.client i).connected = true) :
    ∃ t, requestProperty i atoms.transfer (s.heard i) = (.done v, t) := by
  have hclient : (s.heard i).client i = { s.settle.client i with inbox := [] } :=
    client_amend_self (lt_of_connected hi) _
  have haccepted := request_of_accepted (s := s.heard i) (r := .getProperty)
    (by rw [hclient]; exact hi) (refuses_of_none hhang _)
    fun s => (.done (((s.client i).properties.lookup atoms.transfer).getD .absent),
      s.drop i atoms.transfer)
  refine ⟨_, haccepted.trans (Prod.ext ?_ rfl)⟩
  rw [hclient]
  exact congrArg (fun found => Outcome.done (found.getD Property.absent)) (h.found v rfl)

/-! ## A whole inquiry -/

/-- What is there when a client is about to ask: it has nothing to look at, and the place for the
content is free. -/
def readied (s : Server) (i : Nat) : Server :=
  (s.amend i fun c => { c with inbox := [] }).drop i atoms.transfer

theorem readied_steady (s : Server) (i : Nat) : Steady s (s.readied i) := by
  let t := s.amend i fun c => { c with inbox := [] }
  have hdropped : Steady t (s.readied i) :=
    (drop_serves (E := (·.SentAt t.stamp)) fun _ => rfl).steady
  exact (discard_steady s i).trans hdropped

theorem readied_idle (h : s.Idle) (i : Nat) : (s.readied i).Idle :=
  (drop_serves (E := (·.isLeftover = true)) fun _ => rfl).pends (pends_amend h (h i))

theorem readied_inbox (s : Server) (i : Nat) : ((s.readied i).client i).inbox = [] := by
  have hserved : Serves (fun _ => True) (s.amend i fun c => { c with inbox := [] })
    (s.readied i) := drop_serves (E := fun _ => True) fun _ => trivial
  exact (hserved.each i).inbox.trans (discard_inbox s i)

/-- An inquiry is passed on to the client that owns the selection. -/
theorem inquire_of_client (hj : (s.client j).connected = true) (howner : s.owner = .client j)
    (target : Atom) :
    s.inquire i (inquiryOf i target) = s.deliver j (.inquired (inquiryOf i target)) := by
  have hclip : ¬ (inquiryOf i target).selection ≠ atoms.clipboard := fun hne => hne rfl
  have hthere : s.ownerClient? = some j := by
    rw [ownerClient?, howner]
    exact if_pos hj
  rw [inquire, if_neg hclip, howner, hthere]

/-- A server that closes no connection and answers all questions, and on which nothing is under way
that has been asked before. -/
structure Ready (s : Server) : Prop extends Fair s where
  hidesOwner : s.hidesOwner = false
  hangsUpOn : s.hangsUpOn = none
  idle : s.Idle

namespace Ready

variable (h : Ready s)
include h

theorem connected_steady (hs : Steady s s') (k : Nat) :
    (s'.client k).connected = (s.client k).connected :=
  (hs.keeps k).stays fun hne => hne h.hangsUpOn

/-- A client that asks for a conversion frees the place for it and asks the server. -/
theorem asks (hi : (s.client i).connected = true) (target : Atom) :
    (connection i longest patience).send ((connection i longest patience).asking target)
        ((connection i longest patience).discard s) =
      (.done (), (s.readied i).inquire i (inquiryOf i target)) := by
  let t := s.amend i fun c => { c with inbox := [] }
  have hi' : (t.client i).connected = true := by
    rw [client_amend_self (lt_of_connected hi)]
    exact hi
  have hfound : t.clientOf? (windowOf i) = some i :=
    clientOf?_windowOf (by rw [length_amend]; exact h.room) (lt_of_connected hi')
  have hready : t.post i (.remove (windowOf i) atoms.transfer) = s.readied i := by
    rw [post_of_accepted hi' (refuses_of_none h.hangsUpOn _), handle, hfound]
    rfl
  have hthere : ((s.readied i).client i).connected = true :=
    (h.connected_steady (readied_steady s i) i).trans hi
  have hasked : (s.readied i).post i (.inquire (inquiryOf i target)) =
      (s.readied i).inquire i (inquiryOf i target) :=
    post_of_accepted hthere
      (refuses_of_none ((readied_steady s i).hangsUpOn.trans h.hangsUpOn) _)
  have hposts : (connection i longest patience).send
      ((connection i longest patience).asking target) t = (.done (), (t.post i _).post i _) :=
    if_pos hi'
  refine hposts.trans ?_
  rw [← hasked, ← hready]
  rfl

/-- The inquiry of a client is on its way to the owner. -/
theorem asked (hi : (s.client i).connected = true) (hj : (s.client j).connected = true)
    (howner : s.owner = .client j) (target : Atom) :
    let t := (s.readied i).inquire i (inquiryOf i target)
    Steady s t ∧ (t.client i).inbox = [] ∧ Asked i j target (s.destined j) t := by
  intro t
  let u := s.readied i
  have hready : Steady s u := readied_steady s i
  have hidle : u.Idle := readied_idle h.idle i
  have hj' : (u.client j).connected = true := (h.connected_steady hready j).trans hj
  have hinquired : t = u.deliver j (.inquired (inquiryOf i target)) :=
    inquire_of_client hj' (hready.owner.trans howner) target
  have hserved : Serves (·.SentAt u.stamp) u t := by
    rw [hinquired]
    exact deliver_serves trivial u j
  have hsteady : Steady s t := hready.trans hserved.steady
  have hempty : (t.client i).inbox = [] := (hserved.each i).inbox.trans (readied_inbox s i)
  have hstream : (t.client i).stream = (u.client i).stream := by
    rw [hinquired]
    by_cases hij : i = j
    · subst hij
      rw [client_deliver_self hj']
      simp [Client.stream, Event.notice?]
    · rw [client_deliver_of_ne (Ne.symm hij)]
  -- The inquiry stands at the end of what the owner has to deal with.
  have hwaiting : (t.client j).pending =
      (u.client j).pending ++ [.inquired (inquiryOf i target)] := by
    rw [hinquired, client_deliver_self hj']
  have hothers (k : Nat) (hk : k ≠ j) : (t.client k).pending = (u.client k).pending := by
    rw [hinquired, client_deliver_of_ne (Ne.symm hk)]
  have hthere' : (t.client j).connected = true := (h.connected_steady hsteady j).trans hj
  refine ⟨hsteady, hempty, ⟨?_, ?_, ?_, ?_⟩, ⟨_, hwaiting, hidle.calm j⟩, ?_, hthere',
    hsteady.destined hthere'⟩
  · exact hsteady.size.symm ▸ h.room
  · exact hsteady.hangsUpOn.trans h.hangsUpOn
  · exact (h.connected_steady hsteady i).trans hi
  · intro m hm
    rw [hstream, Client.stream, readied_inbox, List.nil_append] at hm
    obtain ⟨e, he, hem⟩ := List.mem_filterMap.mp hm
    obtain rfl := Event.notice?_eq_some hem
    have hleft := hidle i _ he
    cases m with
    | changed c => rfl
    | replied r => cases hleft
  · intro k hk e he
    rw [hothers k hk] at he
    exact hidle.calm k e he

/-- **What the owner answers arrives.** -/
theorem carries_of_client (hi : (s.client i).connected = true)
    (hj : (s.client j).connected = true) (howner : s.owner = .client j) (target : Atom) :
    (connection i longest patience).Carries target
      ((s.destined j).answer atoms (inquiryOf i target)) s := by
  obtain ⟨hsteady, hempty, hasked⟩ := h.asked hi hj howner target
  let t := (s.readied i).inquire i (inquiryOf i target)
  have hsettled : Steady s t.settle := hsteady.trans (settle_steady t)
  have hanswered : Answered i _ t.settle := hasked.settle
  have hheard : (connection i longest patience).Waits _ t _ _ := waits_of_answered hempty hanswered
  have hposts := Selection.answer_eq_posts atoms (s.destined j) (inquiryOf i target)
  refine ⟨t, t.heard i, h.asks hi target, fun r hr => ?_, fun v hv => ?_⟩
  · rw [hposts] at hr
    rcases List.mem_append.mp hr with hstore | hreply
    · obtain ⟨v, -, hv⟩ := List.mem_map.mp hstore
      cases hv
    · obtain rfl := Post.reply.inj (List.mem_singleton.mp hreply)
      exact hheard
  · have hvalue : (s.destined j).answer? atoms (inquiryOf i target) = some v := by
      rw [hposts] at hv
      rcases List.mem_append.mp hv with hstore | hreply
      · obtain ⟨v', hmem, hv'⟩ := List.mem_map.mp hstore
        cases hv'
        exact Option.mem_toList.mp hmem
      · cases List.mem_singleton.mp hreply
    rw [hvalue] at hanswered
    exact collect_of_answered hanswered (hsettled.hangsUpOn.trans h.hangsUpOn)
      ((h.connected_steady hsettled i).trans hi)

theorem steady (hs : Steady s s') (hidle : s'.Idle) : Ready s' where
  toFair := h.toFair.steady hs
  hidesOwner := hs.hidesOwner.trans h.hidesOwner
  hangsUpOn := hs.hangsUpOn.trans h.hangsUpOn
  idle := hidle

/-- The server names the owner to whoever asks. -/
theorem names (hi : (s.client i).connected = true) :
    requestOwner i s = (.done s.ownerWindow, s) := by
  refine (request_of_accepted hi (refuses_of_none h.hangsUpOn _) _).trans ?_
  simp [h.hidesOwner, h.takesOver]

end Ready

/-! ## The laws -/

section Reliable

variable {lengths : Nat → Nat} {patiences : Nat → Duration}

theorem atoms_display (k : Fin capacity) : (display lengths patiences).atoms k = atoms := rfl

/-- What keeps everybody connected keeps everybody alive. -/
theorem Ready.peaceful (h : Ready s) (hs : Steady s s') (hidle : s'.Idle) :
    Ready s' ∧ ∀ k, (display lengths patiences).Alive k s →
      (display lengths patiences).Alive k s' := by
  have hlater := h.steady hs hidle
  refine ⟨hlater, fun k hk => (hlater.alive k).trans ?_⟩
  rw [h.connected_steady hs]
  exact h.toFair.connected hk

theorem intern_idle (name : String) (hs : s.Idle) : (requestAtom i name s).2.Idle := by
  refine request_idle (fun s hs => ?_) s hs
  split
  · exact hs
  · unfold intern
    split
    · exact hs
    · exact hs

/-- Every name that has been given a number is found by it. -/
theorem nameOf?_getElem (hroom : s.names.length ≤ nameCapacity) {n : Nat}
    (hn : n < s.names.length) : s.nameOf? (.ofNat (firstNumber + n)) = some s.names[n] := by
  unfold nameCapacity at hroom
  have hnat : (UInt32.ofNat (firstNumber + n)).toNat = firstNumber + n := by
    rw [UInt32.toNat_ofNat']
    omega
  have hmany : ¬ (UInt32.ofNat (firstNumber + n)).toNat < firstNumber := by omega
  rw [nameOf?, if_neg hmany, hnat, Nat.add_sub_cancel_left, List.getElem?_eq_getElem hn]

/-- A number that is given for a name stands for it. -/
theorem nameOf?_of_number? {name : String} {a : Atom} (h : s.number? name = some a)
    (hroom : s.names.length ≤ nameCapacity) : s.nameOf? a = some name := by
  unfold number? at h
  cases hfind : predefinedNames.findIdx? (· = name) with
  | some n =>
      obtain rfl : .ofNat (n + 1) = a := Option.some.inj (by rw [hfind] at h; exact h)
      obtain ⟨hlt, hname, -⟩ := List.findIdx?_eq_some_iff_getElem.mp hfind
      have hbound : n < 68 := hlt
      have hnat : (UInt32.ofNat (n + 1)).toNat = n + 1 := by
        rw [UInt32.toNat_ofNat']
        omega
      have hnonzero : (.ofNat (n + 1) : Atom) ≠ 0 := by
        intro hzero
        have hnone := congrArg UInt32.toNat hzero
        rw [hnat] at hnone
        cases hnone
      have hfew : (UInt32.ofNat (n + 1)).toNat < firstNumber := by
        rw [hnat]
        show n + 1 < 100
        omega
      rw [nameOf?, if_pos hfew, if_neg hnonzero, hnat, Nat.add_sub_cancel,
        List.getElem?_eq_getElem hlt]
      exact congrArg some (by simpa using hname)
  | none =>
      obtain ⟨n, hn, rfl⟩ := Option.map_eq_some_iff.mp (by rw [hfind] at h; exact h)
      obtain ⟨hlt, hname, -⟩ := List.findIdx?_eq_some_iff_getElem.mp hn
      rw [nameOf?_getElem hroom hlt]
      exact congrArg some (by simpa using hname)

/-- A client that is given the number of a name is given it for that name. -/
theorem nameOf?_of_requestAtom {name : String} {a : Atom} (hs : Fair s)
    (hrun : requestAtom i name s = (.done a, s')) :
    clipboardNames <+: s'.names ∧ s'.nameOf? a = some name := by
  have hsteady := requestAtom_steady i name s hs.takesOver
  rw [hrun] at hsteady
  have hlater := hs.steady hsteady
  refine ⟨hlater.named, ?_⟩
  have hgranted := request_eq_done hrun
  split at hgranted
  · cases hgranted
  · cases hgranted
    unfold intern at hlater ⊢
    cases hnumber : s.number? name with
    | some a => exact nameOf?_of_number? hnumber hs.numbered
    | none =>
        -- A new name gets the next number, by which it is found at the end of the names.
        have hroom : (s.names ++ [name]).length ≤ nameCapacity := by
          simpa only [hnumber] using hlater.numbered
        have hlast := nameOf?_getElem (s := { s with names := s.names ++ [name] })
          hroom (n := s.names.length) (by simp)
        simpa using hlast

/-- A server keeps to the laws of reliable displays while it is ready. -/
theorem reliable (lengths : Nat → Nat) (patiences : Nat → Duration) :
    (display lengths patiences).Reliable Fair Ready where
  within s hs := hs.toFair
  alike j k := (atoms_display j).trans (atoms_display k).symm
  apart _ := (by decide : atoms.Apart)
  foresees k := connection_foresees k _ _
  reads k := by
    have hsteady : (connection k (lengths k) (patiences k)).Reads steadily :=
      connection_abides.reads
    constructor
    · constructor
      · exact fun s hs => ⟨hs, fun _ hj => hj⟩
      · intro s s' s'' hfirst hthen hs
        obtain ⟨hs', halive⟩ := hfirst hs
        obtain ⟨hs'', halive'⟩ := hthen hs'
        exact ⟨hs'', fun j hj => halive' j (halive j hj)⟩
    · exact fun name s hs => hs.peaceful (hsteady.intern name s hs.takesOver)
        (intern_idle name hs.idle)
    · intro s hs
      refine hs.peaceful (hsteady.owner s hs.takesOver) ?_
      show (requestOwner k s).2.Idle
      by_cases hk : (s.client k).connected = true
      · rw [hs.names hk]
        exact hs.idle
      · have hlost : requestOwner k s = (.failed (.unanswered "connection closed"), s) :=
          request_of_lost (by simpa using hk) _
        rw [hlost]
        exact hs.idle
    · exact fun target s hs => hs.peaceful (hsteady.convert target s hs.takesOver)
        (convert_idle target s hs.idle)
  named k s hs hk := ⟨s, hs.names (hs.toFair.connected hk)⟩
  carried i k s target hs hi hk _ hown := by
    have howner := (hs.toFair.holder_iff hi).mp hown
    exact hs.carries_of_client (hs.toFair.connected hk) (hs.toFair.connected hi) howner target
  numbered k s name a s' hs hrun := by
    obtain ⟨⟨more, hmore⟩, hname⟩ := nameOf?_of_requestAtom hs hrun
    have hsecond : s'.nameOf? atoms.targets = some "TARGETS" := by
      rw [nameOf?, ← hmore]
      rfl
    have hsixth : s'.nameOf? atoms.incremental = some "INCR" := by
      rw [nameOf?, ← hmore]
      rfl
    exact ⟨fun ha => Option.some.inj (hname.symm.trans (ha ▸ hsecond)),
      fun ha => Option.some.inj (hname.symm.trans (ha ▸ hsixth))⟩

end Reliable

end Server

end Clipboard.X11
