import Clipboard.Proofs.Session.Picking
import Clipboard.Proofs.X11.Leftovers

/-!
# What becomes of an inquiry

A client that is asked for a selection tells the one who asks once, whatever it holds and
whatever it is asked for.  It serves inquiries about the clipboard, in the targets of what it
offers and in the list of these targets; then what is asked for is in its place before the reply
says so.  All others it refuses, and stores nothing.

* `Selection.answer?_eq_some_iff`, `Selection.answer?_eq_none_iff`: what is delivered, and when
  nothing is;
* `Selection.offered_iff`: the list of targets names those that are served;
* `Server.foldl_post`: messages that the server does not refuse are dealt with one after the other;
* `Server.inquiry_dealt`: an inquiry is dealt with in one reply.
-/

namespace Clipboard.X11

/-! ## What is delivered -/

namespace Selection

/-- An inquiry is served: it is about the clipboard, and the target is the list of targets or that
of an item which is offered. -/
def Serves (atoms : Atoms) (s : Selection) (q : Inquiry) : Prop :=
  q.selection = atoms.clipboard ∧
    ∃ c, s.claim = some c ∧ (q.target = atoms.targets ∨ ∃ bytes, (q.target, bytes) ∈ c.items)

/-- What an inquiry is served with: the list of targets, which names itself and then the targets
of the items, or the octets of the first item with the target. -/
inductive Delivers (atoms : Atoms) (s : Selection) (q : Inquiry) : Property → Prop
  | listed {c : Claim} (hselection : q.selection = atoms.clipboard) (hclaim : s.claim = some c)
      (htarget : q.target = atoms.targets) :
      Delivers atoms s q ⟨atoms.atom, .atoms (atoms.targets :: c.items.map (·.1))⟩
  | item {c : Claim} {bytes : Octets} (hselection : q.selection = atoms.clipboard)
      (hclaim : s.claim = some c) (htarget : q.target ≠ atoms.targets)
      (hfirst : FirstOf c.items (·.1 = q.target) (q.target, bytes)) :
      Delivers atoms s q ⟨q.target, .octets bytes⟩

variable {atoms : Atoms} {s : Selection} {q : Inquiry} {c : Claim} {v : Property}

theorem answer?_of_claim (hselection : q.selection = atoms.clipboard) (hclaim : s.claim = some c) :
    s.answer? atoms q = delivery? atoms c.items q.target := by
  rw [answer?, if_pos hselection, hclaim, Option.bind_some]

theorem exists_claim_of_answer? (h : s.answer? atoms q = some v) :
    q.selection = atoms.clipboard ∧ ∃ c, s.claim = some c := by
  unfold answer? at h
  split at h
  · next hselection =>
      obtain ⟨c, hclaim, -⟩ := Option.bind_eq_some_iff.mp h
      exact ⟨hselection, c, hclaim⟩
  · cases h

theorem find?_items_iff {items : List (Atom × Octets)} {target : Atom} {i : Atom × Octets} :
    items.find? (fun i => i.1 = target) = some i ↔ FirstOf items (·.1 = target) i :=
  find?_eq_some_iff_firstOf fun _ _ => decide_eq_true_iff

/-- What is delivered is what an inquiry is served with. -/
theorem answer?_eq_some_iff : s.answer? atoms q = some v ↔ Delivers atoms s q v := by
  constructor
  · intro h
    obtain ⟨hselection, c, hclaim⟩ := exists_claim_of_answer? h
    rw [answer?_of_claim hselection hclaim] at h
    unfold delivery? at h
    split at h
    · next htarget =>
        cases h
        exact .listed hselection hclaim htarget
    · next htarget =>
        obtain ⟨⟨a, bytes⟩, hfound, rfl⟩ := Option.map_eq_some_iff.mp h
        have hfirst := find?_items_iff.mp hfound
        obtain rfl : a = q.target := by
          obtain ⟨-, -, -, ha, -⟩ := hfirst
          exact ha
        exact .item hselection hclaim htarget hfirst
  · rintro (⟨hselection, hclaim, htarget⟩ | ⟨hselection, hclaim, htarget, hfirst⟩)
    · rw [answer?_of_claim hselection hclaim, delivery?, if_pos htarget]
      rfl
    · rw [answer?_of_claim hselection hclaim, delivery?, if_neg htarget,
        find?_items_iff.mpr hfirst]
      rfl

/-- Nothing is delivered for an inquiry that is not served. -/
theorem answer?_eq_none_iff : s.answer? atoms q = none ↔ ¬ Serves atoms s q := by
  rw [← Option.not_isSome_iff_eq_none, not_iff_not]
  constructor
  · intro h
    obtain ⟨v, hv⟩ := Option.isSome_iff_exists.mp h
    rcases answer?_eq_some_iff.mp hv with
      ⟨hselection, hclaim, htarget⟩ | ⟨hselection, hclaim, -, before, after, hitems, -⟩
    · exact ⟨hselection, _, hclaim, .inl htarget⟩
    · have hmem : (q.target, _) ∈ _ := hitems ▸ List.mem_append_right before List.mem_cons_self
      exact ⟨hselection, _, hclaim, .inr ⟨_, hmem⟩⟩
  · rintro ⟨hselection, c, hclaim, hoffered⟩
    rw [answer?_of_claim hselection hclaim, delivery?]
    split
    · rfl
    · next htarget =>
        obtain ⟨bytes, hmem⟩ := hoffered.resolve_left htarget
        rw [Option.isSome_map, List.find?_isSome]
        exact ⟨_, hmem, by simp⟩

/-- An inquiry is served with something if it is served. -/
theorem serves_iff : Serves atoms s q ↔ ∃ v, Delivers atoms s q v := by
  rw [← not_iff_not, ← answer?_eq_none_iff, Option.eq_none_iff_forall_ne_some, not_exists]
  exact forall_congr' fun v => not_congr answer?_eq_some_iff

/-- The list of targets names those that are served. -/
theorem offered_iff (hselection : q.selection = atoms.clipboard) (hclaim : s.claim = some c)
    (target : Atom) :
    target ∈ atoms.targets :: c.items.map (·.1) ↔ Serves atoms s { q with target := target } := by
  rw [List.mem_cons, List.mem_map]
  constructor
  · intro h
    refine ⟨hselection, c, hclaim, h.imp_right ?_⟩
    rintro ⟨⟨a, bytes⟩, hmem, rfl⟩
    exact ⟨bytes, hmem⟩
  · rintro ⟨-, c', hclaim', h⟩
    cases hclaim.symm.trans hclaim'
    refine h.imp_right ?_
    rintro ⟨bytes, hmem⟩
    exact ⟨_, hmem, rfl⟩

end Selection

/-- The reply to an inquiry, which says whether something has been stored. -/
def Inquiry.reply (q : Inquiry) (stored : Option Property) : Reply :=
  ⟨q.time, q.requestor, q.selection, q.target, if stored.isSome then q.place else 0⟩

/-- The messages that deal with an inquiry: what is stored, and then the reply. -/
def Inquiry.posts (q : Inquiry) (stored : Option Property) : List Post :=
  (stored.toList.map fun v => .store q.requestor q.place v) ++ [.reply (q.reply stored)]

theorem Selection.answer_eq_posts (atoms : Atoms) (s : Selection) (q : Inquiry) :
    s.answer atoms q = q.posts (s.answer? atoms q) := by
  unfold answer
  cases s.answer? atoms q <;> rfl

/-! ## What is done -/

namespace Server

variable {s t : Server} {i j k : Nat} {q : Inquiry} {w : Window} {posts : List Post}
  {stored : Option Property}

/-- A server refuses the same, as long as it hangs up upon the same. -/
theorem refuses_congr (h : t.hangsUpOn = s.hangsUpOn) (r : Request) :
    t.refuses r = s.refuses r := by
  rw [refuses, refuses, h]

theorem properties_deliver (s : Server) (i : Nat) (e : Event) :
    ((s.deliver i e).client i).properties = (s.client i).properties := by
  refine client_amend_rel (R := fun _ c c' => c'.properties = c.properties) (fun _ _ => rfl) ?_ i
  split <;> rfl

theorem client_put (hi : (s.client i).connected = true) (a : Atom) (v : Property) :
    (s.put i a v).client i =
      { s.client i with
        properties := (a, v) :: (s.client i).properties.filter (·.1 ≠ a)
        pending := (s.client i).pending ++
          [.noticed (.changed ⟨s.stamp, windowOf i, a, false⟩)] } := by
  have hlt := lt_of_connected hi
  have hkept : ((s.amend i fun c =>
      { c with properties := (a, v) :: c.properties.filter (·.1 ≠ a) }).client i).connected =
        true := by
    rw [client_amend_self hlt]
    exact hi
  rw [put, announce, client_deliver_self hkept, client_amend_self hlt]
  rfl

/-- Messages that the server does not refuse are dealt with one after the other. -/
theorem foldl_post (hk : (s.client k).connected = true) (hclaim : ∀ p ∈ posts, p.isClaim = false)
    (haccepted : ∀ p ∈ posts, s.refuses p.request = false) :
    posts.foldl (fun s p => s.post k p) s = posts.foldl (fun s p => s.handle k p) s := by
  induction posts generalizing s with
  | nil => rfl
  | cons p posts ih =>
      have hserved := handle_serves (hclaim p (by simp)) s k
      have hhang : (s.handle k p).hangsUpOn = s.hangsUpOn := by rw [hserved.frame]
      rw [List.foldl_cons, List.foldl_cons, post_of_accepted hk (haccepted p (by simp))]
      refine ih ((hserved.each k).connected.trans hk) (fun p' hp' => hclaim p' (by simp [hp'])) ?_
      intro p' hp'
      rw [refuses_congr hhang]
      exact haccepted p' (by simp [hp'])

/-- An inquiry has been dealt with: whoever asks has been told once whether there is something in
its place, and there is before that is said.  Nothing else has changed. -/
structure Dealt (q : Inquiry) (stored : Option Property) (s t : Server) : Prop where
  place : ∀ j, (s.client j).connected = true → windowOf j = q.requestor → ∀ a,
    (t.client j).properties.lookup a =
      if a = q.place then stored.or ((s.client j).properties.lookup a)
      else (s.client j).properties.lookup a
  told : ∀ j, (s.client j).connected = true → windowOf j = q.requestor →
    t.client j =
      { s.client j with
        properties := (t.client j).properties
        pending := (s.client j).pending ++
          (stored.toList.map fun _ => .noticed (.changed ⟨s.stamp, windowOf j, q.place, false⟩)) ++
          [.noticed (.replied (q.reply stored))] }
  others : ∀ j, windowOf j ≠ q.requestor → t.client j = s.client j
  /-- The foreign client gets what does not go to the window of a client. -/
  mail : t.mail = s.mail ++ if (s.clientOf? q.requestor).isSome then [] else q.posts stored
  frame : t = { s with clients := t.clients, mail := t.mail }

/-- What a window has under a name after the property of some name has been replaced. -/
theorem lookup_replaced (a b : Atom) (v : Property) (l : List (Atom × Property)) :
    ((a, v) :: l.filter (·.1 ≠ a)).lookup b = if b = a then some v else l.lookup b := by
  by_cases hb : b = a
  · subst hb
    rw [List.lookup_cons_self, if_pos rfl]
  · have hkept : (l.filter (·.1 ≠ a)).lookup b = l.lookup b := by
      induction l with
      | nil => rfl
      | cons x l ih =>
          by_cases hx : x.1 = a
          · have hne : (b == x.1) = false := beq_eq_false_iff_ne.mpr (hx ▸ hb)
            rw [List.filter_cons_of_neg (by simpa using hx), List.lookup_cons, hne]
            exact ih
          · rw [List.filter_cons_of_pos (by simpa using hx), List.lookup_cons, List.lookup_cons, ih]
    rw [List.lookup_cons, beq_eq_false_iff_ne.mpr hb, if_neg hb]
    exact hkept

theorem windowOf_of_clientOf? (h : s.clientOf? w = some i) : windowOf i = w := by
  simpa using List.find?_some h

theorem client_deliver_of_ne (h : i ≠ j) (s : Server) (e : Event) :
    (s.deliver i e).client j = s.client j := client_amend_of_ne h s _

theorem client_put_of_ne (h : i ≠ j) (s : Server) (a : Atom) (v : Property) :
    (s.put i a v).client j = s.client j := by
  rw [put, announce, client_deliver_of_ne h, client_amend_of_ne h]

section

variable (hroom : s.clients.length ≤ capacity) (k : Nat) (q : Inquiry) (stored : Option Property)
include hroom

/-- If no client asks, all that is sent goes to the foreign client. -/
theorem dealt_of_foreign (hwho : s.clientOf? q.requestor = none) :
    Dealt q stored s ((q.posts stored).foldl (fun s p => s.handle k p) s) := by
  have hnobody : ∀ j, (s.client j).connected = true → windowOf j ≠ q.requestor := by
    intro j hj hw
    rw [← hw, clientOf?_windowOf hroom (lt_of_connected hj)] at hwho
    cases hwho
  have hrun : (q.posts stored).foldl (fun s p => s.handle k p) s =
      { s with mail := s.mail ++ q.posts stored } := by
    cases stored with
    | none => simp [Inquiry.posts, handle, Inquiry.reply, hwho]
    | some v =>
        have hstill (mail : List Post) :
            ({ s with mail := mail } : Server).clientOf? q.requestor = none := hwho
        simp [Inquiry.posts, handle, Inquiry.reply, hwho, hstill]
  rw [hrun]
  constructor
  · exact fun j hj hw => absurd hw (hnobody j hj)
  · exact fun j hj hw => absurd hw (hnobody j hj)
  · exact fun j _ => rfl
  · rw [hwho]
    rfl
  · rfl

/-- A client that asks is sent the notices. -/
theorem dealt_of_client (hwho : s.clientOf? q.requestor = some i) :
    Dealt q stored s ((q.posts stored).foldl (fun s p => s.handle k p) s) := by
  have hw : windowOf i = q.requestor := windowOf_of_clientOf? hwho
  have hlt : i < s.clients.length := by
    simpa [clientOf?] using List.mem_of_find?_eq_some hwho
  -- There is room for so many clients that no two share a window.
  have hself : ∀ j, (s.client j).connected = true → windowOf j = q.requestor → j = i := by
    intro j hj hwj
    have hltj := lt_of_connected hj
    exact windowOf_inj (by omega) (by omega) (hwj.trans hw.symm)
  have hother : ∀ j, windowOf j ≠ q.requestor → i ≠ j := by
    rintro j hne rfl
    exact hne hw
  let reply : Event := .noticed (.replied (q.reply stored))
  cases stored with
  | none =>
      have hrun : (q.posts none).foldl (fun s p => s.handle k p) s = s.deliver i reply := by
        simp [Inquiry.posts, handle, Inquiry.reply, hwho, reply]
      rw [hrun]
      constructor
      · intro j hj hwj a
        obtain rfl := hself j hj hwj
        rw [properties_deliver, Option.none_or, ite_self]
      · intro j hj hwj
        obtain rfl := hself j hj hwj
        rw [client_deliver_self hj]
        simp [reply]
      · exact fun j hne => client_deliver_of_ne (hother j hne) s _
      · rw [hwho]
        exact (List.append_nil _).symm
      · rfl
  | some v =>
      let s' := s.put i q.place v
      have hsize : s'.clients.length = s.clients.length :=
        (put_serves (E := fun _ => True) trivial v).size
      -- Storing adds no client, so the reply goes to the one whose property it was.
      have hwho' : s'.clientOf? q.requestor = some i := by
        rw [← hw]
        exact clientOf?_windowOf (hsize.symm ▸ hroom) (hsize.symm ▸ hlt)
      have hrun : (q.posts (some v)).foldl (fun s p => s.handle k p) s = s'.deliver i reply := by
        simp [Inquiry.posts, handle, Inquiry.reply, hwho, reply, s', hwho']
      have hconn (hi : (s.client i).connected = true) : (s'.client i).connected = true := by
        rw [client_put hi]
        exact hi
      rw [hrun]
      constructor
      · intro j hj hwj a
        obtain rfl := hself j hj hwj
        rw [properties_deliver, client_put hj, Option.some_or]
        exact lookup_replaced _ _ _ _
      · intro j hj hwj
        obtain rfl := hself j hj hwj
        rw [client_deliver_self (hconn hj), client_put hj]
        rfl
      · intro j hne
        rw [client_deliver_of_ne (hother j hne)]
        exact client_put_of_ne (hother j hne) s _ v
      · rw [hwho]
        exact (List.append_nil _).symm
      · rfl

end

/-- A client that no connection is closed upon deals with an inquiry as it answers it. -/
theorem dealt_inquired {s : Server} {k : Nat} {q : Inquiry} (hroom : s.clients.length ≤ capacity)
    (hk : (s.client k).connected = true) (hstored : s.refuses .changeProperty = false)
    (hreplied : s.refuses .sendEvent = false) :
    Dealt q ((s.client k).selection.answer? atoms q) s (s.dealWith k (.inquired q)) := by
  have hkinds : ∀ p ∈ q.posts ((s.client k).selection.answer? atoms q),
      p.isClaim = false ∧ s.refuses p.request = false := by
    intro p hp
    rcases List.mem_append.mp hp with hstore | hreply
    · obtain ⟨v, -, rfl⟩ := List.mem_map.mp hstore
      exact ⟨rfl, hstored⟩
    · cases List.mem_singleton.mp hreply
      exact ⟨rfl, hreplied⟩
  rw [show s.dealWith k (.inquired q) =
    ((s.client k).selection.answer atoms q).foldl (fun s p => s.post k p) s from rfl,
    Selection.answer_eq_posts,
    foldl_post hk (fun p hp => (hkinds p hp).1) fun p hp => (hkinds p hp).2]
  cases hwho : s.clientOf? q.requestor with
  | none => exact dealt_of_foreign hroom k q _ hwho
  | some i => exact dealt_of_client hroom k q _ hwho

/-- **An inquiry is dealt with in one reply, and it is not refused exactly if what is asked for is
stored before.**  Whatever a client holds, and whatever it is asked for, it sends one reply, which
echoes the time, the selection and the target, and goes to the one who asks.  The reply names the
place for the answer if the inquiry is served, which is exactly if it is about the clipboard,
content is offered, and the target is the list of targets or that of an item; otherwise it names
nothing.  When it names the place, a message before it stores there what is served, and when it
names nothing, there is no message before it.  So the list of targets names exactly those that are
served.  On a server that closes no connection upon such messages, all of this arrives: what is
served has been stored when the reply is told, and no other property of any window has changed. -/
theorem inquiry_dealt (atoms : Atoms) (held : Selection) (q : Inquiry) :
    ∃ stored : Option Property,
      held.answer atoms q = q.posts stored ∧
      (stored.isSome ↔ held.Serves atoms q) ∧
      (∀ v, stored = some v ↔ held.Delivers atoms q v) ∧
      (∀ type list, q.target = atoms.targets → stored = some ⟨type, .atoms list⟩ →
        ∀ target, target ∈ list ↔ held.Serves atoms { q with target := target }) ∧
      ∀ (s : Server) (k : Nat), atoms = Server.atoms → held = (s.client k).selection →
        s.clients.length ≤ capacity → (s.client k).connected = true →
        s.refuses .changeProperty = false → s.refuses .sendEvent = false →
        Dealt q stored s (s.dealWith k (.inquired q)) := by
  have hposts : held.answer atoms q = q.posts (held.answer? atoms q) :=
    held.answer_eq_posts atoms q
  refine ⟨held.answer? atoms q, hposts, ?_, fun v => Selection.answer?_eq_some_iff, ?_, ?_⟩
  · rw [Selection.serves_iff, Option.isSome_iff_exists]
    exact exists_congr fun v => Selection.answer?_eq_some_iff
  · intro type list htarget hlist target
    rcases Selection.answer?_eq_some_iff.mp hlist with
      ⟨hselection, hclaim, -⟩ | ⟨-, -, hne, -⟩
    exact Selection.offered_iff hselection hclaim target
  · rintro s k rfl rfl hroom hk hstored hreplied
    exact dealt_inquired hroom hk hstored hreplied

/-- A server with a client that offers a word in two targets, and one that offers nothing. -/
def offering : Server :=
  { start with
    clients := [{ selection :=
      { claim := some ⟨[(atoms.utf8, [104, 105]), (atoms.latin1, [104, 105])], 1000⟩ } }, {}]
    owner := .client 0 }

/-- Asked by a client of an old kind, the one stores what it offers under the name of the
target. -/
theorem inquiry_dealt_old :
    let t := offering.dealWith 0
      (.inquired ⟨7, windowOf 1, atoms.clipboard, atoms.latin1, 0⟩)
    (t.client 1).properties.lookup atoms.latin1 = some ⟨atoms.latin1, .octets [104, 105]⟩ ∧
      (t.client 1).pending =
        [.noticed (.changed ⟨1000, windowOf 1, atoms.latin1, false⟩),
          .noticed (.replied ⟨7, windowOf 1, atoms.clipboard, atoms.latin1, atoms.latin1⟩)] := by
  intro t
  obtain ⟨stored, -, -, hdelivers, -, hdeals⟩ :=
    inquiry_dealt atoms (offering.client 0).selection
      ⟨7, windowOf 1, atoms.clipboard, atoms.latin1, 0⟩
  have hdealt := hdeals offering 0 rfl rfl (by decide) (by decide) (by decide) (by decide)
  have hfirst : FirstOf [(atoms.utf8, [104, 105]), (atoms.latin1, [104, 105])]
      (·.1 = atoms.latin1) ((atoms.latin1, [104, 105]) : Atom × Octets) :=
    ⟨[(atoms.utf8, [104, 105])], [], rfl, rfl, by decide⟩
  obtain rfl : stored = some ⟨atoms.latin1, .octets [104, 105]⟩ :=
    (hdelivers _).mpr (.item rfl rfl (by decide) hfirst)
  exact ⟨hdealt.place 1 rfl rfl _, congrArg Client.pending (hdealt.told 1 rfl rfl)⟩

end Server

end Clipboard.X11
