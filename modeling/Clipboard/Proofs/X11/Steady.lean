import Clipboard.Proofs.X11.Events
import Clipboard.Proofs.X11.Windows

/-!
# What stays as it is

Through most of what happens on a server nobody's ownership changes, and nobody but the client
itself changes what it holds: only claims, changes of owner and new content do.

* `Serves` is what messages do that are no claims: they send events and store properties, and
  `inquire_serves`, `drop_serves` and others say which events;
* `Steady` is the wider relation, in which clients may also deal with events, look at notices, and
  lose their connections;
* `post_steady`, `advance_steady`, `settle_steady`: what is steady.
-/

namespace Clipboard.X11

/-- A message that claims the selection. -/
def Post.isClaim : Post → Bool
  | .claim .. => true
  | _ => false

/-! ## Sending events and storing properties -/

/-- A client before and after messages that are no claims: it may have been sent
events of some sort, and its properties may have changed. -/
structure Client.Served (E : Event → Prop) (c c' : Client) : Prop where
  connected : c'.connected = c.connected
  inbox : c'.inbox = c.inbox
  selection : c'.selection = c.selection
  pending : ∃ es, c'.pending = c.pending ++ es ∧ ∀ e ∈ es, E e

namespace Client.Served

variable {E F : Event → Prop} {c c' c'' : Client}

theorem refl (c : Client) : Served E c c := ⟨rfl, rfl, rfl, [], by simp, by simp⟩

theorem trans (h : Served E c c') (h' : Served E c' c'') : Served E c c'' where
  connected := h'.connected.trans h.connected
  inbox := h'.inbox.trans h.inbox
  selection := h'.selection.trans h.selection
  pending := by
    obtain ⟨es, hes, hE⟩ := h.pending
    obtain ⟨es', hes', hE'⟩ := h'.pending
    refine ⟨es ++ es', by rw [hes', hes, List.append_assoc], ?_⟩
    intro e he
    rcases List.mem_append.mp he with he | he
    · exact hE e he
    · exact hE' e he

theorem mono (h : Served E c c') (hEF : ∀ e, E e → F e) : Served F c c' where
  connected := h.connected
  inbox := h.inbox
  selection := h.selection
  pending := by
    obtain ⟨es, hes, hE⟩ := h.pending
    exact ⟨es, hes, fun e he => hEF e (hE e he)⟩

end Client.Served

namespace Server

/-- A server before and after messages that are no claims. -/
structure Serves (E : Event → Prop) (s s' : Server) : Prop where
  frame : s' = { s with clients := s'.clients, mail := s'.mail }
  size : s'.clients.length = s.clients.length
  each : ∀ k, Client.Served E (s.client k) (s'.client k)

namespace Serves

variable {E F : Event → Prop} {s s' s'' : Server}

theorem refl (s : Server) : Serves E s s := ⟨rfl, rfl, fun _ => .refl _⟩

theorem trans (h : Serves E s s') (h' : Serves E s' s'') : Serves E s s'' where
  frame := by rw [h'.frame, h.frame]
  size := h'.size.trans h.size
  each k := (h.each k).trans (h'.each k)

theorem mono (h : Serves E s s') (hEF : ∀ e, E e → F e) : Serves F s s' :=
  ⟨h.frame, h.size, fun k => (h.each k).mono hEF⟩

theorem stamp (h : Serves E s s') : s'.stamp = s.stamp := by rw [h.frame]; rfl

end Serves

section Serves

variable {E : Event → Prop} {s : Server} {i : Nat}

theorem serves_amend {f : Client → Client}
    (h : Client.Served E (s.client i) (f (s.client i))) : Serves E s (s.amend i f) where
  frame := rfl
  size := length_amend s i f
  each := client_amend_rel (fun _ => .refl) h

/-- Changing properties sends nothing by itself. -/
theorem serves_store (s : Server) (i : Nat) (properties : Client → List (Atom × Property))
    (feed : Client → List Property) (place : Client → Atom) :
    Serves E s (s.amend i fun c =>
      { c with properties := properties c, feed := feed c, feedPlace := place c }) :=
  serves_amend ⟨rfl, rfl, rfl, [], by simp, by simp⟩

theorem deliver_serves {e : Event} (he : E e) (s : Server) (i : Nat) :
    Serves E s (s.deliver i e) := by
  refine serves_amend ?_
  split
  · exact ⟨rfl, rfl, rfl, [e], rfl, by simpa using he⟩
  · exact .refl _

theorem put_serves {property : Atom}
    (hE : E (.noticed (.changed ⟨s.stamp, windowOf i, property, false⟩))) (value : Property) :
    Serves E s (s.put i property value) :=
  (serves_store s i _ (·.feed) (·.feedPlace)).trans (deliver_serves hE _ i)

theorem drop_serves {property : Atom}
    (hE : ∀ removed, E (.noticed (.changed ⟨s.stamp, windowOf i, property, removed⟩))) :
    Serves E s (s.drop i property) := by
  unfold drop
  dsimp only
  split
  · exact .refl s
  · have hgone : Serves E s ((s.amend i fun c =>
        { c with properties := c.properties.filter (·.1 ≠ property) }).announce i property true) :=
      (serves_store s i _ (·.feed) (·.feedPlace)).trans (deliver_serves (hE true) _ i)
    split
    · split
      · refine (hgone.trans (serves_store _ i (·.properties) _ (·.feedPlace))).trans
          (put_serves ?_ _)
        exact hE false
      · exact hgone
    · exact hgone

variable {q : Inquiry}

/-! Events of a sort are sent by whatever is done for an inquiry, if all changes and replies that
are told at the present time are of that sort, and inquiries too. -/

theorem respond_serves (hreplied : ∀ r, E (.noticed (.replied r))) (s : Server) (i : Nat)
    (q : Inquiry) (place : Atom) : Serves E s (s.respond i q place) :=
  deliver_serves (hreplied _) s i

section Notices

variable (hreplied : ∀ r, E (.noticed (.replied r)))
  (hchanged : ∀ w a removed, E (.noticed (.changed ⟨s.stamp, w, a, removed⟩)))
include hreplied hchanged

theorem disturb_serves (i : Nat) (q : Inquiry) : Serves E s (s.disturb i q) :=
  ((deliver_serves (hreplied _) s i).trans (deliver_serves (hreplied _) _ i)).trans
    (deliver_serves (hchanged _ _ _) _ i)

theorem supply_serves (i : Nat) (q : Inquiry) (d : Delivery) : Serves E s (s.supply i q d) := by
  cases d with
  | whole value =>
      exact (put_serves (hchanged _ _ _) value).trans (respond_serves hreplied _ i q _)
  | parts list =>
      refine Serves.trans ((serves_store s i (·.properties) _ _).trans (put_serves ?_ _))
        (respond_serves hreplied _ i q _)
      exact hchanged _ _ _
  | hollow => exact respond_serves hreplied s i q _

theorem askForeign_serves (i : Nat) (q : Inquiry) : Serves E s (s.askForeign i q) := by
  unfold askForeign
  split
  · exact respond_serves hreplied s i q 0
  · exact .refl s
  · split
    · have hdisturbed : Serves E s (s.disturb i q) := disturb_serves hreplied hchanged i q
      exact hdisturbed.trans (supply_serves hreplied (hdisturbed.stamp ▸ hchanged) i q _)
    · exact supply_serves hreplied hchanged i q _

theorem inquire_serves (hq : E (.inquired q)) (i : Nat) : Serves E s (s.inquire i q) := by
  unfold inquire
  split
  · exact respond_serves hreplied s i q 0
  · split
    · exact askForeign_serves hreplied hchanged i q
    · exact deliver_serves hq s _
    · exact respond_serves hreplied s i q 0

end Notices

theorem handle_serves {p : Post} (hp : p.isClaim = false) (s : Server) (i : Nat) :
    Serves (·.SentAt s.stamp) s (s.handle i p) := by
  cases p with
  | claim w selection time => cases hp
  | inquire q =>
      exact inquire_serves (E := (·.SentAt s.stamp)) (fun _ => trivial) (fun _ _ _ => rfl) trivial i
  | store w property value =>
      unfold handle
      dsimp only
      split
      · exact put_serves (E := (·.SentAt s.stamp)) rfl value
      · exact ⟨rfl, rfl, fun _ => .refl _⟩
  | touch w property =>
      unfold handle
      dsimp only
      split
      · exact deliver_serves (E := (·.SentAt s.stamp))
          (e := .noticed (.changed ⟨s.stamp, _, property, false⟩)) rfl s _
      · exact .refl s
  | remove w property =>
      unfold handle
      dsimp only
      split
      · exact drop_serves (E := (·.SentAt s.stamp)) fun _ => rfl
      · exact .refl s
  | reply r =>
      unfold handle
      dsimp only
      split
      · exact deliver_serves (E := (·.SentAt s.stamp)) (e := .noticed (.replied r)) trivial s _
      · exact ⟨rfl, rfl, fun _ => .refl _⟩

/-- What an inquiry is answered with sends notices alone. -/
theorem handle_answer_serves {atoms : Atoms} {sel : Selection} {p : Post}
    (hp : p ∈ sel.answer atoms q) (s : Server) (i : Nat) :
    Serves (·.isNotice = true) s (s.handle i p) := by
  have hform : (∃ w property value, p = .store w property value) ∨ ∃ r, p = .reply r := by
    unfold Selection.answer at hp
    split at hp
    · simp only [List.mem_cons, List.not_mem_nil, or_false] at hp
      rcases hp with rfl | rfl
      · exact .inl ⟨_, _, _, rfl⟩
      · exact .inr ⟨_, rfl⟩
    · exact .inr ⟨_, List.mem_singleton.mp hp⟩
  rcases hform with ⟨w, property, value, rfl⟩ | ⟨r, rfl⟩
  · unfold handle
    dsimp only
    split
    · exact put_serves (E := (·.isNotice = true)) rfl value
    · exact ⟨rfl, rfl, fun _ => .refl _⟩
  · unfold handle
    dsimp only
    split
    · exact deliver_serves (E := (·.isNotice = true)) rfl s _
    · exact ⟨rfl, rfl, fun _ => .refl _⟩

end Serves

end Server

/-! ## What goes on -/

/-- What a client holds, and what has been sent to it. -/
def Client.mailbox (c : Client) : Mailbox := ⟨c.selection, c.pending, c.inbox⟩

/-- A client before and after something that is none of its own doing, unless it loses its
connection: it may have dealt with events and been sent others, but no dispossession. -/
structure Client.Keeps (w : Window) (t : Timestamp) (hung : Prop) (c c' : Client) : Prop where
  fares : c'.connected = true →
    c.connected = true ∧
      ∃ looked, Mailbox.Fares (·.SentAt t) Server.atoms w looked c.mailbox c'.mailbox
  alive : c'.selection.alive = true →
    c.selection.alive = true ∧ (c.connected = true → c'.connected = true)
  stays : ¬ hung → c'.connected = c.connected

namespace Client.Keeps

variable {w : Window} {t : Timestamp} {hung : Prop} {c c' c'' : Client}

theorem of_fares (looked : List Notice) (hconn : c'.connected = c.connected)
    (h : Mailbox.Fares (·.SentAt t) Server.atoms w looked c.mailbox c'.mailbox) :
    Keeps w t hung c c' where
  fares hc := ⟨hconn ▸ hc, looked, h⟩
  alive ha := ⟨h.alive ▸ ha, fun hc => hconn.trans hc⟩
  stays _ := hconn

theorem refl (c : Client) : Keeps w t hung c c := of_fares [] rfl (.refl _)

theorem trans (h : Keeps w t hung c c') (h' : Keeps w t hung c' c'') : Keeps w t hung c c'' where
  fares hc := by
    obtain ⟨hc', looked', hlater⟩ := h'.fares hc
    obtain ⟨hconn, looked, hfirst⟩ := h.fares hc'
    exact ⟨hconn, looked ++ looked', hfirst.trans hlater⟩
  alive ha :=
    ⟨(h.alive (h'.alive ha).1).1, fun hc => (h'.alive ha).2 ((h.alive (h'.alive ha).1).2 hc)⟩
  stays hh := (h'.stays hh).trans (h.stays hh)

theorem of_gone (hconn : c'.connected = false) (hcut : c'.selection = Selection.cutOff {})
    (hhung : hung) : Keeps w t hung c c' where
  fares h := by simp [hconn] at h
  alive h := by
    rw [hcut] at h
    cases h
  stays h := absurd hhung h

theorem of_served (h : Served (·.SentAt t) c c') : Keeps w t hung c c' := by
  obtain ⟨es, hes, hsort⟩ := h.pending
  refine of_fares [] h.connected ⟨[], es, hes.symm, hsort, h.selection, ?_⟩
  exact (List.append_nil _).trans h.inbox.symm

/-- Dealing with the oldest event. -/
theorem of_dealt {e : Event} {rest : List Event} (hpending : c.pending = e :: rest)
    (hconn : c'.connected = c.connected) (hrest : c'.pending = rest)
    (hheld : c'.selection = c.selection.learn Server.atoms w e)
    (hinbox : c'.inbox = c.inbox ++ e.notice?.toList) : Keeps w t hung c c' := by
  refine of_fares [] hconn ⟨[e], [], ?_, by simp, hheld, ?_⟩
  · show c.pending ++ [] = [e] ++ c'.pending
    rw [hpending, hrest, List.append_nil]
    rfl
  · show c.inbox ++ [e].filterMap Event.notice? = [] ++ c'.inbox
    rw [hinbox]
    cases e <;> rfl

end Client.Keeps

namespace Server

/-- What a client will hold when it has dealt with all that it has been sent. -/
def destined (s : Server) (i : Nat) : Selection :=
  (s.client i).mailbox.destined atoms (windowOf i)

/-- A server before and after something that takes nobody's ownership and changes
nobody's content.  Names may have been added, as long as there were numbers for them. -/
structure Steady (s s' : Server) : Prop where
  frame : s' = { s with clients := s'.clients, mail := s'.mail, names := s'.names }
  names : s.names <+: s'.names
  numbered : s'.names.length ≤ max s.names.length nameCapacity
  size : s'.clients.length = s.clients.length
  keeps : ∀ k, Client.Keeps (windowOf k) s.stamp (s.hangsUpOn ≠ none) (s.client k) (s'.client k)

namespace Steady

variable {s s' s'' : Server}

theorem refl (s : Server) : Steady s s :=
  ⟨rfl, List.prefix_rfl, Nat.le_max_left _ _, rfl, fun _ => .refl _⟩

theorem owner (h : Steady s s') : s'.owner = s.owner := by rw [h.frame]
theorem ownerSince (h : Steady s s') : s'.ownerSince = s.ownerSince := by rw [h.frame]
theorem stamp (h : Steady s s') : s'.stamp = s.stamp := by rw [h.frame]; rfl
theorem takesOver (h : Steady s s') : s'.takesOver = s.takesOver := by rw [h.frame]
theorem hidesOwner (h : Steady s s') : s'.hidesOwner = s.hidesOwner := by rw [h.frame]
theorem hangsUpOn (h : Steady s s') : s'.hangsUpOn = s.hangsUpOn := by rw [h.frame]

theorem trans (h : Steady s s') (h' : Steady s' s'') : Steady s s'' where
  frame := by rw [h'.frame, h.frame]
  names := h.names.trans h'.names
  numbered := by
    have hfirst := h.numbered
    have hthen := h'.numbered
    omega
  size := h'.size.trans h.size
  keeps k := (h.keeps k).trans (by rw [← h.hangsUpOn, ← h.stamp]; exact h'.keeps k)

theorem destined (h : Steady s s') {k : Nat} (hk : (s'.client k).connected = true) :
    s'.destined k = s.destined k := by
  obtain ⟨-, looked, hfares⟩ := (h.keeps k).fares hk
  exact hfares.destined fun e he => he.not_loss

end Steady

variable {s : Server}

theorem Serves.steady {s' : Server} (h : Serves (·.SentAt s.stamp) s s') : Steady s s' where
  frame := by rw [h.frame]
  names := by
    have hnames : s'.names = s.names := by rw [h.frame]
    exact hnames ▸ List.prefix_rfl
  numbered := by
    have hnames : s'.names = s.names := by rw [h.frame]
    exact hnames ▸ Nat.le_max_left _ _
  size := h.size
  keeps k := .of_served (h.each k)

theorem steady_amend {i : Nat} {f : Client → Client}
    (h : Client.Keeps (windowOf i) s.stamp (s.hangsUpOn ≠ none) (s.client i) (f (s.client i))) :
    Steady s (s.amend i f) where
  frame := rfl
  names := List.prefix_rfl
  numbered := Nat.le_max_left _ _
  size := length_amend s i f
  keeps := client_amend_rel (fun _ => .refl) h

/-- A client looks at the oldest of its notices. -/
theorem look_steady {i : Nat} {looked rest : List Notice}
    (h : (s.client i).inbox = looked ++ rest) :
    Steady s (s.amend i fun c => { c with inbox := rest }) := by
  refine steady_amend (.of_fares looked rfl ⟨[], [], ?_, by simp, rfl, ?_⟩)
  · exact List.append_nil _
  · exact (List.append_nil _).trans h

theorem discard_steady (s : Server) (i : Nat) :
    Steady s (s.amend i fun c => { c with inbox := [] }) :=
  look_steady (List.append_nil _).symm

theorem disconnect_steady (h : s.hangsUpOn ≠ none) (i : Nat) : Steady s (s.disconnect i) :=
  steady_amend (.of_gone rfl rfl h)

theorem hangsUp_of_refuses {r : Request} (h : s.refuses r = true) : s.hangsUpOn ≠ none := by
  intro hnone
  simp [refuses, hnone] at h

theorem post_steady {p : Post} (hp : p.isClaim = false) (s : Server) (i : Nat) :
    Steady s (s.post i p) := by
  unfold post
  split
  · split
    · next hr => exact disconnect_steady (hangsUp_of_refuses hr) i
    · exact (handle_serves hp s i).steady
  · exact .refl s

theorem posts_steady {posts : List Post} (h : ∀ p ∈ posts, p.isClaim = false) (s : Server)
    (i : Nat) : Steady s (posts.foldl (fun s p => s.post i p) s) := by
  induction posts generalizing s with
  | nil => exact .refl s
  | cons p rest ih =>
      have hp := h p List.mem_cons_self
      exact (post_steady hp s i).trans (ih (fun p' hp' => h p' (List.mem_cons_of_mem _ hp')) _)

/-- Whatever an inquiry is answered with, it is no claim. -/
theorem isClaim_of_mem_answer {atoms : Atoms} {sel : Selection} {q : Inquiry} {p : Post}
    (hp : p ∈ sel.answer atoms q) : p.isClaim = false := by
  unfold Selection.answer at hp
  split at hp <;> simp at hp <;> rcases hp with rfl | rfl <;> rfl

theorem advance_of_cons {i : Nat} {e : Event} {rest : List Event}
    (h : (s.client i).pending = e :: rest) :
    s.advance i = (s.amend i fun c => { c with pending := rest }).dealWith i e := by
  rw [advance, h]

theorem advance_of_nil {i : Nat} (h : (s.client i).pending = []) : s.advance i = s := by
  rw [advance, h]

theorem advance_steady (s : Server) (i : Nat) : Steady s (s.advance i) := by
  cases hpending : (s.client i).pending with
  | nil => rw [advance_of_nil hpending]; exact .refl s
  | cons e rest =>
      rw [advance_of_cons hpending]
      have htaken (he : e.isLoss = false) (hn : e.notice? = none) :
          Steady s (s.amend i fun c => { c with pending := rest }) := by
        refine steady_amend (.of_dealt hpending rfl rfl ?_ ?_)
        · exact (Selection.learn_of_not_loss he _ _ _).symm
        · rw [hn]
          exact (List.append_nil _).symm
      cases e with
      | inquired q =>
          exact (htaken rfl rfl).trans (posts_steady (fun p hp => isClaim_of_mem_answer hp) _ i)
      | other => exact htaken rfl rfl
      | noticed n =>
          -- Taking the event and dealing with it are steady together, not one by one.
          have htwice : (s.amend i fun c => { c with pending := rest }).dealWith i (.noticed n) =
              s.amend i fun c => { c with pending := rest, inbox := c.inbox ++ [n] } := by
            simp only [dealWith, amend, List.modify_modify_eq]
            rfl
          rw [htwice]
          exact steady_amend (.of_dealt hpending rfl rfl rfl rfl)
      | dispossessed d =>
          have htwice : (s.amend i fun c => { c with pending := rest }).dealWith i
              (.dispossessed d) = s.amend i fun c =>
                { c with pending := rest, selection := c.selection.hear atoms (windowOf i) d } := by
            simp only [dealWith, amend, List.modify_modify_eq]
            rfl
          rw [htwice]
          exact steady_amend (.of_dealt hpending rfl rfl rfl (List.append_nil _).symm)

/-- What every client keeps that deals with an event is kept when all clients deal
with theirs. -/
theorem settle_induction {P : Server → Prop} (hadvance : ∀ s k, P s → P (s.advance k))
    (h : P s) : P s.settle := by
  have hby (k n : Nat) : ∀ s, P s → P (s.advanceBy k n) := by
    induction n with
    | zero => exact fun s hs => hs
    | succ n ih => exact fun s hs => ih _ (hadvance s k hs)
  have hround (l : List Nat) : ∀ s, P s → P (l.foldl catchUp s) := by
    induction l with
    | nil => exact fun s hs => hs
    | cons k rest ih => exact fun s hs => ih _ (hby k _ s hs)
  exact hround _ _ (hround _ _ h)

theorem settle_steady (s : Server) : Steady s s.settle :=
  settle_induction (P := Steady s) (fun _ k h => h.trans (advance_steady _ k)) (.refl s)

end Server

end Clipboard.X11
