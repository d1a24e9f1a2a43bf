import Clipboard.X11.Connection

/-!
# What is on its way to a client

A client is sent events, deals with them one after the other, and looks at the notices among them
later.  What it holds of the selection changes only when it deals with a dispossession.  So what it
is destined to hold, once it has dealt with all that it has been sent, stays the same for as long
as no further dispossession is sent.

* `Selection.learn`: what a client holds after an event;
* `Mailbox.Fares`: some events have been dealt with, and others have been sent;
* `Mailbox.Fares.destined`: what is destined to be held stays the same.
-/

namespace Clipboard.X11

namespace Event

/-- News of a dispossession. -/
def isLoss : Event → Bool
  | .dispossessed _ => true
  | _ => false

/-- A notice. -/
def isNotice : Event → Bool
  | .noticed _ => true
  | _ => false

/-- An inquiry. -/
def isInquiry : Event → Bool
  | .inquired _ => true
  | _ => false

/-- The notice that an event is, if it is one. -/
def notice? : Event → Option Notice
  | .noticed n => some n
  | _ => none

theorem not_inquiry_of_notice {e : Event} (h : e.isNotice = true) : e.isInquiry = false := by
  cases e with
  | noticed n => rfl
  | _ => cases h

theorem notice?_eq_some {e : Event} {n : Notice} (h : e.notice? = some n) : e = .noticed n := by
  cases e with
  | noticed m =>
      cases h
      rfl
  | _ => cases h

/-- An event that is no dispossession, and was sent at a time that is told if it tells one. -/
def SentAt (t : Timestamp) : Event → Prop
  | .dispossessed _ => False
  | .noticed (.changed c) => c.time = t
  | _ => True

/-- An event that is no dispossession, and if it tells a time, tells one that was issued between two
instants. -/
def Issued (first last : Nat) : Event → Prop
  | .dispossessed _ => False
  | .noticed (.changed c) => c.time ≠ 0 ∧ ∃ n, c.time = .ofNat n ∧ first ≤ n ∧ n ≤ last
  | _ => True

theorem SentAt.issued {first last n : Nat} {e : Event} (h : e.SentAt (.ofNat n))
    (hzero : (.ofNat n : Timestamp) ≠ 0) (hfirst : first ≤ n) (hlast : n ≤ last) :
    e.Issued first last := by
  cases e with
  | dispossessed d => exact h
  | noticed m =>
      cases m with
      | changed c => exact ⟨fun hc => hzero (h.symm.trans hc), n, h, hfirst, hlast⟩
      | replied r => trivial
  | _ => trivial

theorem Issued.mono {first first' last last' : Nat} {e : Event} (h : e.Issued first last)
    (hfirst : first' ≤ first) (hlast : last ≤ last') : e.Issued first' last' := by
  cases e with
  | dispossessed d => exact h
  | noticed m =>
      cases m with
      | changed c =>
          obtain ⟨hzero, n, hn, hbefore, hafter⟩ := h
          exact ⟨hzero, n, hn, by omega, by omega⟩
      | replied r => trivial
  | _ => trivial

theorem SentAt.not_loss {t : Timestamp} {e : Event} (h : e.SentAt t) : e.isLoss = false := by
  cases e with
  | dispossessed d => exact h.elim
  | _ => rfl

theorem Issued.not_loss {first last : Nat} {e : Event} (h : e.Issued first last) :
    e.isLoss = false := by
  cases e with
  | dispossessed d => exact h.elim
  | _ => rfl

end Event

/-! ## Learning from events -/

namespace Selection

/-- What a client holds after one more event. -/
def learn (atoms : Atoms) (w : Window) (s : Selection) : Event → Selection
  | .dispossessed d => s.hear atoms w d
  | _ => s

variable {atoms : Atoms} {w : Window} {s : Selection}

theorem learn_of_not_loss {e : Event} (h : e.isLoss = false) (atoms : Atoms) (w : Window)
    (s : Selection) : s.learn atoms w e = s := by
  cases e with
  | dispossessed d => cases h
  | _ => rfl

theorem foldl_learn_of_not_loss {es : List Event} (h : ∀ e ∈ es, e.isLoss = false)
    (atoms : Atoms) (w : Window) (s : Selection) : es.foldl (learn atoms w) s = s := by
  induction es with
  | nil => rfl
  | cons e rest ih =>
      rw [List.foldl_cons, learn_of_not_loss (h e List.mem_cons_self)]
      exact ih fun e' he' => h e' (List.mem_cons_of_mem _ he')

theorem alive_hear (atoms : Atoms) (w : Window) (s : Selection) (d : Dispossession) :
    (s.hear atoms w d).alive = s.alive := by
  unfold hear yieldTo
  split
  · split
    · split <;> rfl
    · rfl
  · rfl

/-- No event brings a client to life, and none cuts it off. -/
theorem alive_foldl_learn (es : List Event) (s : Selection) :
    (es.foldl (learn atoms w) s).alive = s.alive := by
  induction es generalizing s with
  | nil => rfl
  | cons e rest ih =>
      have hfirst : (s.learn atoms w e).alive = s.alive := by
        cases e with
        | dispossessed d => exact alive_hear _ w _ d
        | _ => rfl
      rw [List.foldl_cons, ih, hfirst]

/-- Hearing of a dispossession leaves a claim as it is, or ends it. -/
theorem claim_hear (atoms : Atoms) (w : Window) (s : Selection) (d : Dispossession) :
    (s.hear atoms w d).claim = s.claim ∨ (s.hear atoms w d).claim = none := by
  unfold hear yieldTo
  split
  · split
    · split
      · exact .inl rfl
      · exact .inr rfl
    · exact .inl rfl
  · exact .inl rfl

/-- Where nothing is held, nothing is learned that would be. -/
theorem claim_foldl_learn_of_none (es : List Event) (h : s.claim = none) :
    (es.foldl (learn atoms w) s).claim = none := by
  induction es generalizing s with
  | nil => exact h
  | cons e rest ih =>
      refine ih ?_
      cases e with
      | dispossessed d =>
          rcases claim_hear atoms w s d with hsame | hnone
          · exact hsame.trans h
          · exact hnone
      | _ => exact h

end Selection

/-! ## Mailboxes -/

/-- What a client holds of the selection, and what has been sent to it. -/
structure Mailbox where
  held : Selection
  /-- Events that it has not dealt with, oldest first. -/
  queue : List Event
  /-- Notices that it has not looked at, oldest first. -/
  inbox : List Notice

namespace Mailbox

/-- What a client will hold when it has dealt with all that it has been sent. -/
def destined (atoms : Atoms) (w : Window) (m : Mailbox) : Selection :=
  m.queue.foldl (Selection.learn atoms w) m.held

/-- A client has dealt with some events and has been sent others, of a sort.  It has looked at some
notices. -/
def Fares (sort : Event → Prop) (atoms : Atoms) (w : Window) (looked : List Notice)
    (m m' : Mailbox) : Prop :=
  ∃ dealt sent, m.queue ++ sent = dealt ++ m'.queue ∧ (∀ e ∈ sent, sort e) ∧
    m'.held = dealt.foldl (Selection.learn atoms w) m.held ∧
    m.inbox ++ dealt.filterMap Event.notice? = looked ++ m'.inbox

variable {sort sort' : Event → Prop} {atoms : Atoms} {w : Window} {looked later : List Notice}
  {m m' m'' : Mailbox}

namespace Fares

theorem refl (m : Mailbox) : Fares sort atoms w [] m m :=
  ⟨[], [], by simp, by simp, rfl, by simp⟩

theorem trans (h : Fares sort atoms w looked m m') (h' : Fares sort atoms w later m' m'') :
    Fares sort atoms w (looked ++ later) m m'' := by
  obtain ⟨dealt, sent, hqueue, hsent, hheld, hinbox⟩ := h
  obtain ⟨dealt', sent', hqueue', hsent', hheld', hinbox'⟩ := h'
  refine ⟨dealt ++ dealt', sent ++ sent', ?_, List.forall_mem_append.mpr ⟨hsent, hsent'⟩, ?_, ?_⟩
  · rw [← List.append_assoc, hqueue, List.append_assoc, hqueue', List.append_assoc]
  · rw [hheld', hheld, List.foldl_append]
  · rw [List.filterMap_append, ← List.append_assoc, hinbox, List.append_assoc, hinbox',
      List.append_assoc]

theorem mono (h : Fares sort atoms w looked m m') (hsort : ∀ e, sort e → sort' e) :
    Fares sort' atoms w looked m m' := by
  obtain ⟨dealt, sent, hqueue, hsent, hrest⟩ := h
  exact ⟨dealt, sent, hqueue, fun e he => hsort e (hsent e he), hrest⟩

theorem alive (h : Fares sort atoms w looked m m') : m'.held.alive = m.held.alive := by
  obtain ⟨dealt, sent, -, -, hheld, -⟩ := h
  rw [hheld, Selection.alive_foldl_learn]

/-- What is destined to be held stays the same. -/
theorem destined (h : Fares sort atoms w looked m m') (hsort : ∀ e, sort e → e.isLoss = false) :
    m'.destined atoms w = m.destined atoms w := by
  obtain ⟨dealt, sent, hqueue, hsent, hheld, -⟩ := h
  have hall : (m.queue ++ sent).foldl (Selection.learn atoms w) m.held = m.destined atoms w := by
    rw [List.foldl_append,
      Selection.foldl_learn_of_not_loss fun e he => hsort e (hsent e he)]
    rfl
  rw [← hall, hqueue, List.foldl_append, ← hheld]
  rfl

/-- Where no dispossession is left to be dealt with, none is later on. -/
theorem settled (h : Fares sort atoms w looked m m') (hsort : ∀ e, sort e → e.isLoss = false)
    (hm : ∀ e ∈ m.queue, e.isLoss = false) : ∀ e ∈ m'.queue, e.isLoss = false := by
  obtain ⟨dealt, sent, hqueue, hsent, -, -⟩ := h
  have hall : ∀ e ∈ dealt ++ m'.queue, e.isLoss = false := by
    rw [← hqueue]
    exact List.forall_mem_append.mpr ⟨hm, fun e he => hsort e (hsent e he)⟩
  exact (List.forall_mem_append.mp hall).2

/-- A client that has looked at all notices from before, and at one that was not among the first
events on their way, has dealt with these.  What it has not dealt with is of the sort of the
others. -/
theorem fresh {m₀ : Notice} {before after : List Event}
    (h : Fares sort atoms w (m.inbox ++ looked ++ [m₀]) m m') (hqueue : m.queue = before ++ after)
    (hbefore : .noticed m₀ ∉ before) (hafter : ∀ e ∈ after, sort e) :
    sort (.noticed m₀) ∧ ∀ e ∈ m'.queue, sort e := by
  obtain ⟨dealt, sent, hdealt, hsent, -, hinbox⟩ := h
  have hall : ∀ e ∈ after ++ sent, sort e := List.forall_mem_append.mpr ⟨hafter, hsent⟩
  have hlooked : dealt.filterMap Event.notice? = looked ++ [m₀] ++ m'.inbox := by
    refine (List.append_right_inj m.inbox).mp ?_
    rw [hinbox]
    simp only [List.append_assoc]
  have hmem : .noticed m₀ ∈ dealt := by
    have hm₀ : m₀ ∈ dealt.filterMap Event.notice? := by
      rw [hlooked]
      simp
    obtain ⟨e, he, hem⟩ := List.mem_filterMap.mp hm₀
    exact Event.notice?_eq_some hem ▸ he
  rw [hqueue, List.append_assoc] at hdealt
  rcases List.append_eq_append_iff.mp hdealt with ⟨more, rfl, hmore⟩ | ⟨rest, rfl, -⟩
  · have hnew : .noticed m₀ ∈ more := (List.mem_append.mp hmem).resolve_left hbefore
    rw [hmore, List.forall_mem_append] at hall
    exact ⟨hall.1 _ hnew, hall.2⟩
  · exact absurd (List.mem_append_left rest hmem) hbefore

end Fares

/-- A client to which no dispossession is on its way holds what it is destined to hold. -/
theorem destined_of_settled (h : ∀ e ∈ m.queue, e.isLoss = false) :
    m.destined atoms w = m.held := Selection.foldl_learn_of_not_loss h atoms w m.held

end Mailbox

end Clipboard.X11
