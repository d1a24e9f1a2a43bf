import Clipboard.Proofs.X11.Claiming

/-!
# News

While a client makes a call, news may come in, of another owner or of the end of its connection.
News ends what the client holds and never brings anything new.  Nor does anybody but the client
make it the owner.  How much may come is up to the server: on one that neither hangs up nor lets
the selection be taken away, nothing does.

* `Outside`: what may come while a call is made;
* `Connection.Hears`, `Connection.Befalls`: no more than that has come;
* `Connection.Serviced`: what a client relies on;
* `Server.connection_serviced`: what it relies on, it gets.
-/

namespace Clipboard.X11

/-- News comes from outside: of another owner, or of the end of the connection. -/
def Turn.IsNews : Turn → Prop
  | .told .. => True
  | .cutOff => True
  | _ => False

theorem Turn.IsNews.not_taking {t : Turn} (h : t.IsNews) : ¬ t.IsTaking := by
  cases t with
  | taken items instant => exact h.elim
  | released => exact h.elim
  | cutOff => exact id
  | told instant owner selection => exact id

/-- What may come from outside to the client with a window: news, and the windows that may come to
own the selection, or none. -/
structure Outside (window : Window) where
  news : Turn → Prop
  isNews : ∀ t, news t → t.IsNews
  rivals : Window → Prop
  /-- Nobody but the client makes it the owner. -/
  apart : ¬ rivals window

namespace Outside

/-- Nothing comes from outside. -/
def nothing (window : Window) : Outside window where
  news _ := False
  isNews _ := False.elim
  rivals _ := False
  apart := id

/-- Any news may come, and any other window may come to own the selection. -/
def anything (window : Window) : Outside window where
  news := Turn.IsNews
  isNews _ := id
  rivals := (· ≠ window)
  apart h := h rfl

/-- Nothing comes from outside. -/
def Silent {window : Window} (o : Outside window) : Prop :=
  (∀ t, ¬ o.news t) ∧ ∀ w, ¬ o.rivals w

theorem silent_nothing (window : Window) : (nothing window).Silent := ⟨fun _ => id, fun _ => id⟩

end Outside

/-- A claim outlives news that does not end it. -/
def Claim.Outlives (atoms : Atoms) (window : Window) (news : List Turn) (c : Claim) : Prop :=
  ∀ t ∈ news, ¬ t.Ends atoms window c.since.toNat

instance (atoms : Atoms) (window : Window) (news : List Turn) :
    DecidablePred (Claim.Outlives atoms window news) :=
  fun c => List.decidableBAll (fun t : Turn => ¬ t.Ends atoms window c.since.toNat) news

/-- News ends what is held or leaves it as it is. -/
theorem Selection.claim_after_news {atoms : Atoms} {window : Window} {s : Selection}
    {news : List Turn} (h : ∀ t ∈ news, t.IsNews) :
    (s.after atoms window news).claim = s.claim.filter (Claim.Outlives atoms window news) := by
  have hturns : ∀ t ∈ news, ¬ t.IsTaking := fun t ht => (h t ht).not_taking
  cases hc : s.claim with
  | none => exact after_of_none hc hturns
  | some c =>
      have hsince : c.since = .ofNat c.since.toNat := UInt32.ofNat_toNat.symm
      have hends : (∃ t ∈ news, t.Ends atoms window c.since.toNat) ↔
          ¬ c.Outlives atoms window news := by simp [Claim.Outlives]
      rw [after_of_held hc hsince hturns, if_congr hends rfl rfl, ite_not, Option.filter_some]
      simp only [decide_eq_true_eq]

/-- Without news, what is held is held. -/
theorem Claim.filter_outlives_nil (atoms : Atoms) (window : Window) (held : Option Claim) :
    held.filter (Claim.Outlives atoms window []) = held := by
  cases held with
  | none => rfl
  | some c => simp [Claim.Outlives]

namespace Connection

open Action

variable {σ α : Type} {c : Connection σ} {o : Outside c.window} {holder : σ → Window}
  {here : σ → Prop} {s s' t u : σ}

/-! ## What comes from outside -/

section

variable (c) (o : Outside c.window) (holder : σ → Window) (here : σ → Prop)

/-- What a client holds has changed by news alone. -/
def Hears (s s' : σ) : Prop :=
  ∃ news : List Turn, (∀ t ∈ news, o.news t) ∧
    c.selection s' = (c.selection s).after c.atoms c.window news

/-- Something has come from outside: news, or another owner. -/
structure Befalls (s s' : σ) : Prop where
  hears : c.Hears o s s'
  owner : holder s' = holder s ∨ o.rivals (holder s')

/-- A client that is there stays there, whatever has come from outside. -/
def Weathers (s s' : σ) : Prop := here s → here s' ∧ c.Befalls o holder s s'

end

theorem Hears.refl (s : σ) : c.Hears o s s := ⟨[], by simp, rfl⟩

theorem Hears.trans (h : c.Hears o s t) (h' : c.Hears o t u) : c.Hears o s u := by
  obtain ⟨news, hnews, ht⟩ := h
  obtain ⟨later, hlater, hu⟩ := h'
  refine ⟨news ++ later, List.forall_mem_append.mpr ⟨hnews, hlater⟩, ?_⟩
  rw [Selection.after_append, ← ht, hu]

theorem Hears.claim (h : c.Hears o s s') : ∃ news : List Turn, (∀ t ∈ news, o.news t) ∧
    (c.selection s').claim =
      (c.selection s).claim.filter (Claim.Outlives c.atoms c.window news) := by
  obtain ⟨news, hnews, hsame⟩ := h
  refine ⟨news, hnews, ?_⟩
  rw [hsame, Selection.claim_after_news fun t ht => o.isNews t (hnews t ht)]

theorem bounds_befalls : Bounds (c.Befalls o holder) where
  refl s := ⟨.refl s, .inl rfl⟩
  trans h h' := by
    refine ⟨h.hears.trans h'.hears, ?_⟩
    rcases h'.owner with hsame | hother
    · rw [hsame]
      exact h.owner
    · exact .inr hother

theorem bounds_weathers : Bounds (c.Weathers o holder here) where
  refl s hs := ⟨hs, bounds_befalls.refl s⟩
  trans h h' hs := by
    obtain ⟨ht, hfirst⟩ := h hs
    obtain ⟨hu, hthen⟩ := h' ht
    exact ⟨hu, bounds_befalls.trans hfirst hthen⟩

/-- What a client relies on while it is there: its small calls keep to themselves, what it puts in
place is in place, and whom the server names as the owner is the owner at some moment of the
call. -/
structure Serviced (c : Connection σ) (o : Outside c.window) (holder : σ → Window)
    (here : σ → Prop) : Prop where
  abides : c.Abides (c.Weathers o holder here)
  placed : ∀ sel s, here s →
    here (c.setSelection sel s) ∧ c.selection (c.setSelection sel s) = sel
  claims : ∀ since s, here s →
    here (c.send [.claim c.window c.atoms.clipboard since] s).2 ∧
      c.Hears o s (c.send [.claim c.window c.atoms.clipboard since] s).2
  named : ∀ s w s', here s → c.owner s = (.done w, s') →
    ∃ t, c.Befalls o holder s t ∧ holder t = w ∧ c.Befalls o holder t s'
  sends : ∀ posts s, (c.send posts s).1 ≠ .unwound
  answers : ∀ s, (c.owner s).1 ≠ .unwound

end Connection

/-! ## What a server does -/

namespace Server

open Action

variable {s s' : Server} {i j k : Nat}

/-- All that comes to a client of a server is allowed for: what is on its way to the client, the end
of a connection if the server hangs up, and the foreign client if it takes over. -/
structure Covers (o : Outside (windowOf i)) (s : Server) : Prop where
  there : i < s.clients.length
  told : ∀ d, .dispossessed d ∈ (s.client i).pending →
    o.news (.told d.time.toNat d.owner d.selection)
  hung : s.hangsUpOn ≠ none → o.news .cutOff ∧ o.rivals 0
  taken : s.takesOver = true →
    o.news (.told s.stamp.toNat (windowOf i) atoms.clipboard) ∧ o.rivals foreignWindow

/-- Whatever goes on, it is allowed for if anything is. -/
theorem covers_anything (hi : i < capacity) (hthere : i < s.clients.length) :
    Covers (.anything (windowOf i)) s where
  there := hthere
  told _ _ := trivial
  hung _ := ⟨trivial, (windowOf_ne_zero hi).symm⟩
  taken _ := ⟨trivial, (windowOf_ne_foreign i).symm⟩

/-- If the server neither hangs up nor lets the selection be taken, and no dispossession is on its
way to the client, nothing comes from outside. -/
theorem covers_nothing (hthere : i < s.clients.length)
    (htold : ∀ e ∈ (s.client i).pending, e.isLoss = false) (hhang : s.hangsUpOn = none)
    (htakes : s.takesOver = false) : Covers (.nothing (windowOf i)) s where
  there := hthere
  told d hd := by
    have hloss := htold _ hd
    cases hloss
  hung h := absurd hhang h
  taken h := by
    rw [htakes] at h
    cases h

section

variable {o : Outside (windowOf i)}

theorem Covers.of_same (h : Covers o s)
    (hframe : s' = { s with
      names := s'.names, clients := s'.clients, owner := s'.owner, mail := s'.mail,
      ownerSince := s'.ownerSince })
    (hsize : s'.clients.length = s.clients.length)
    (hpending : ∀ d, .dispossessed d ∈ (s'.client i).pending →
      .dispossessed d ∈ (s.client i).pending ∨ o.news (.told d.time.toNat d.owner d.selection)) :
    Covers o s' where
  there := hsize.symm ▸ h.there
  told d hd := (hpending d hd).elim (h.told d) id
  hung := by
    have hhangs : s'.hangsUpOn = s.hangsUpOn := by rw [hframe]
    rw [hhangs]
    exact h.hung
  taken := by
    have htakes : s'.takesOver = s.takesOver := by rw [hframe]
    have hstamp : s'.stamp = s.stamp := by
      rw [hframe]
      rfl
    rw [htakes, hstamp]
    exact h.taken

/-- The client that loses the selection is told, and nobody else. -/
theorem dispossessed_passTo {next : Owner} {time : Nat} {d : Dispossession}
    (hd : .dispossessed d ∈ ((s.passTo next time).client k).pending) :
    .dispossessed d ∈ (s.client k).pending ∨
      next ≠ .client k ∧ d = ⟨.ofNat time, windowOf k, atoms.clipboard⟩ := by
  rw [client_passTo] at hd
  split at hd
  · next hloses =>
      have hserved := deliver_serves (E := (· = .dispossessed
        ⟨.ofNat time, windowOf k, atoms.clipboard⟩)) rfl s k
      obtain ⟨es, hes, hall⟩ := (hserved.each k).pending
      rw [hes] at hd
      rcases List.mem_append.mp hd with hearlier | hnew
      · exact .inl hearlier
      · exact .inr ⟨hloses.2, Event.dispossessed.inj (hall _ hnew)⟩
  · exact .inl hd

theorem Covers.passTo {next : Owner} {time : Nat} (h : Covers o s)
    (hnext : next = .client i ∨
      o.news (.told (UInt32.ofNat time).toNat (windowOf i) atoms.clipboard)) :
    Covers o (s.passTo next time) := by
  refine h.of_same (by rw [frame_passTo]) (length_passTo s next time) fun d hd => ?_
  rcases dispossessed_passTo hd with hearlier | ⟨hother, rfl⟩
  · exact .inl hearlier
  · exact .inr (hnext.resolve_left hother)

end

/-! ## What spares a client -/

section

variable (o : Outside (windowOf i)) (longest : Nat) (patience : Duration)

/-- What has happened to a client of a server has come from outside. -/
def Spares : Server → Server → Prop :=
  (connection i longest patience).Weathers o ownerWindow (Covers o)

end

variable {o : Outside (windowOf i)} {longest : Nat} {patience : Duration}

theorem bounds_spares : Bounds (Spares o longest patience) := Connection.bounds_weathers

theorem ownerWindow_congr (howner : s'.owner = s.owner)
    (hconn : ∀ k, (s'.client k).connected = (s.client k).connected) :
    s'.ownerWindow = s.ownerWindow := by
  simp only [ownerWindow, ownerClient?, howner, hconn]

/-- A client is spared by what is no news to it, if all stay connected and nobody else becomes the
owner. -/
theorem spares_of_same
    (hframe : s' = { s with names := s'.names, clients := s'.clients, mail := s'.mail })
    (hsize : s'.clients.length = s.clients.length)
    (hconn : ∀ k, (s'.client k).connected = (s.client k).connected)
    (hpending : ∀ d, .dispossessed d ∈ (s'.client i).pending →
      .dispossessed d ∈ (s.client i).pending)
    (hsame : (s'.client i).selection = (s.client i).selection) :
    Spares o longest patience s s' := by
  have howner : s'.owner = s.owner := by rw [hframe]
  intro hs
  have hsince : s'.ownerSince = s.ownerSince := by rw [hframe]
  refine ⟨hs.of_same (hframe.trans (by rw [howner, hsince])) hsize
    fun d hd => .inl (hpending d hd), ?_⟩
  exact ⟨⟨[], by simp, hsame⟩, .inl (ownerWindow_congr howner hconn)⟩

theorem Serves.spares (h : Serves (·.isLoss = false) s s') : Spares o longest patience s s' := by
  have howner : s'.names = s.names := by rw [h.frame]
  refine spares_of_same (h.frame.trans (by rw [howner])) h.size (fun k => (h.each k).connected)
    (fun d hd => ?_) (h.each i).selection
  obtain ⟨es, hes, hloss⟩ := (h.each i).pending
  rw [hes] at hd
  exact (List.mem_append.mp hd).resolve_right fun hnew => nomatch hloss _ hnew

/-- What is done to one client is done to no other. -/
theorem spares_amend {f : Client → Client}
    (hconn : (f (s.client k)).connected = (s.client k).connected)
    (hpending : ∀ e ∈ (f (s.client k)).pending, e ∈ (s.client k).pending)
    (hsame : (f (s.client k)).selection = (s.client k).selection) :
    Spares o longest patience s (s.amend k f) := by
  have hkept := client_amend_rel (s := s) (i := k) (f := f)
    (R := fun _ c c' => c'.connected = c.connected ∧ (∀ e ∈ c'.pending, e ∈ c.pending) ∧
      c'.selection = c.selection)
    (fun _ _ => ⟨rfl, fun _ => id, rfl⟩) ⟨hconn, hpending, hsame⟩
  exact spares_of_same rfl (length_amend s k f) (fun j => (hkept j).1)
    (fun d => (hkept i).2.1 (.dispossessed d)) (hkept i).2.2

/-- What comes to a client is news to it and nothing to any other. -/
theorem hears_amend {f : Client → Client} (news : List Turn)
    (hnews : k = i → ∀ t ∈ news, o.news t)
    (hf : (f (s.client k)).selection = (s.client k).selection.after atoms (windowOf k) news) :
    (connection i longest patience).Hears o s (s.amend k f) := by
  by_cases hk : k = i
  · subst hk
    exact client_amend_rel (R := fun _ c c' => ∃ news : List Turn, (∀ t ∈ news, o.news t) ∧
        c'.selection = c.selection.after atoms (windowOf k) news)
      (fun _ _ => ⟨[], by simp, rfl⟩) ⟨news, hnews rfl, hf⟩ k
  · exact ⟨[], by simp, congrArg Client.selection (client_amend_of_ne hk s f)⟩

/-- A client that is told of a dispossession has news. -/
theorem spares_told {d : Dispossession}
    (hnews : k = i → o.news (.told d.time.toNat d.owner d.selection)) :
    Spares o longest patience s (s.dealWith k (.dispossessed d)) := by
  have hkept := client_amend_rel (s := s) (i := k)
    (f := fun c => { c with selection := c.selection.hear atoms (windowOf k) d })
    (R := fun _ c c' => c'.connected = c.connected ∧ c'.pending = c.pending)
    (fun _ _ => ⟨rfl, rfl⟩) ⟨rfl, rfl⟩
  intro hs
  refine ⟨hs.of_same rfl (length_amend s k _) fun d' hd' => .inl ((hkept i).2 ▸ hd'), ?_, ?_⟩
  · refine hears_amend [.told d.time.toNat d.owner d.selection] (by simpa using hnews) ?_
    simp [Selection.after, Selection.turn]
  · exact .inl (ownerWindow_congr rfl fun j => (hkept j).1)

/-- So has one that loses its connection, and its window does not own the selection any more. -/
theorem spares_disconnect (hhang : s.hangsUpOn ≠ none) (k : Nat) :
    Spares o longest patience s (s.disconnect k) := by
  have hclient (j : Nat) :
      (((s.disconnect k).client j).connected = (s.client j).connected ∨
        ((s.disconnect k).client j).connected = false) ∧
      ∀ e ∈ ((s.disconnect k).client j).pending, e ∈ (s.client j).pending :=
    client_amend_rel (R := fun _ c c' => (c'.connected = c.connected ∨ c'.connected = false) ∧
        ∀ e ∈ c'.pending, e ∈ c.pending)
      (fun _ _ => ⟨.inl rfl, fun _ => id⟩) ⟨.inr rfl, fun _ he => (List.not_mem_nil he).elim⟩ j
  intro hs
  obtain ⟨hcut, hzero⟩ := hs.hung hhang
  refine ⟨hs.of_same rfl (length_amend s k _) fun d hd => .inl ((hclient i).2 _ hd), ?_, ?_⟩
  · exact hears_amend [.cutOff] (by simpa using fun _ => hcut) rfl
  · have howner : (s.disconnect k).owner = s.owner := rfl
    cases hwho : s.owner with
    | nobody => simp [ownerWindow, ownerClient?, howner, hwho]
    | foreign => simp [ownerWindow, howner, hwho]
    | client j =>
        rcases (hclient j).1 with hsame | hgone
        · simp [ownerWindow, ownerClient?, howner, hwho, hsame]
        · have hnone : (s.disconnect k).ownerWindow = 0 := by
            simp [ownerWindow, ownerClient?, howner, hwho, hgone]
          exact .inr (hnone ▸ hzero)

theorem spares_post {p : Post} (hp : p.isClaim = false) (s : Server) (k : Nat) :
    Spares o longest patience s (s.post k p) := by
  unfold post
  split
  · split
    · next hrefused => exact spares_disconnect (hangsUp_of_refuses hrefused) k
    · exact ((handle_serves hp s k).mono fun _ he => he.not_loss).spares
  · exact bounds_spares.refl s

theorem spares_posts {posts : List Post} (hposts : ∀ p ∈ posts, p.isClaim = false) (s : Server)
    (k : Nat) : Spares o longest patience s (posts.foldl (fun s p => s.post k p) s) := by
  induction posts generalizing s with
  | nil => exact bounds_spares.refl s
  | cons p rest ih =>
      obtain ⟨hp, hrest⟩ := List.forall_mem_cons.mp hposts
      exact bounds_spares.trans (spares_post hp s k) (ih hrest _)

theorem spares_advance (s : Server) (k : Nat) : Spares o longest patience s (s.advance k) := by
  cases hpending : (s.client k).pending with
  | nil =>
      rw [advance_of_nil hpending]
      exact bounds_spares.refl s
  | cons e rest =>
      rw [advance_of_cons hpending]
      have htaken : Spares o longest patience s (s.amend k fun c => { c with pending := rest }) :=
        spares_amend rfl (fun e' he' => hpending ▸ List.mem_cons_of_mem e he') rfl
      cases e with
      | inquired q =>
          exact bounds_spares.trans htaken (spares_posts (fun p hp => isClaim_of_mem_answer hp) _ k)
      | noticed n => exact bounds_spares.trans htaken (spares_amend rfl (fun _ => id) rfl)
      | other => exact htaken
      | dispossessed d =>
          -- That the event was on its way has to be said before it is taken.
          intro hs
          have hnews : k = i → o.news (.told d.time.toNat d.owner d.selection) := by
            rintro rfl
            exact hs.told d (hpending ▸ List.mem_cons_self)
          exact bounds_spares.trans htaken (spares_told hnews) hs

theorem spares_settle (s : Server) : Spares o longest patience s s.settle :=
  settle_induction (P := Spares o longest patience s)
    (fun _ k h => bounds_spares.trans h (spares_advance _ k)) (bounds_spares.refl s)

theorem spares_listen (s : Server) (k : Nat) :
    Spares o longest patience s (s.listen k).2 := by
  obtain ⟨t, looked, rest, ht, -, hafter, -⟩ := listen_cases s k
  rw [hafter]
  rcases ht with ⟨rfl, -⟩ | ⟨rfl, -⟩
  · exact spares_amend rfl (fun _ => id) rfl
  · exact bounds_spares.trans (spares_settle s) (spares_amend rfl (fun _ => id) rfl)

theorem spares_request {α : Type} {r : Request} {answer : Action Server Fault α}
    (h : ∀ s, Spares o longest patience s (answer s).2) (s : Server) (k : Nat) :
    Spares o longest patience s (request k r answer s).2 := by
  unfold request
  split
  · split
    · next hrefused => exact spares_disconnect (hangsUp_of_refuses hrefused) k
    · exact h s
  · exact bounds_spares.refl s

/-- When the foreign client takes over, nobody has heard of it yet. -/
theorem spares_foreign (htakes : s.takesOver = true) :
    Spares o longest patience s (s.passTo .foreign s.time) := by
  intro hs
  obtain ⟨htold, hforeign⟩ := hs.taken htakes
  have howner : (s.passTo .foreign s.time).ownerWindow = foreignWindow := by
    rw [frame_passTo]
    rfl
  exact ⟨hs.passTo (.inr htold), ⟨[], by simp, (kept_passTo s .foreign s.time i).2⟩,
    .inr (howner ▸ hforeign)⟩

theorem spares_requestOwner (s : Server) :
    Spares o longest patience s (requestOwner i s).2 := by
  refine spares_request (fun s => ?_) s i
  split
  · exact bounds_spares.refl s
  · dsimp only
    split
    · next htakes => exact spares_foreign htakes.1
    · exact bounds_spares.refl s

theorem spares_intern (name : String) (s : Server) :
    Spares o longest patience s (s.intern name).2 := by
  unfold intern
  split
  · exact bounds_spares.refl s
  · exact spares_of_same rfl rfl (fun _ => rfl) (fun _ => id) rfl

theorem spares_abides : (connection i longest patience).Abides (Spares o longest patience) where
  bounds := bounds_spares
  send posts hposts s := by
    show Spares o longest patience s
      (if (s.client i).connected then _ else _ : Outcome Hitch Unit × Server).2
    split
    · refine spares_posts (fun p hp => ?_) s i
      cases p with
      | claim w a t => exact absurd rfl (hposts _ hp w a t)
      | _ => rfl
    · exact bounds_spares.refl s
  intern name := fun s => spares_request (fun s => by
    split
    · exact bounds_spares.refl s
    · exact spares_intern name s) s i
  owner := spares_requestOwner
  collect := fun s => spares_request
    (fun s => (drop_serves (E := (·.isLoss = false)) fun _ => rfl).spares) s i
  listen s := spares_listen s i
  discard _ := spares_amend rfl (fun _ => id) rfl

/-! ## What a client relies on -/

/-- A claim that has been sent is news to nobody yet. -/
theorem hears_claim (hs : Covers o s) (since : Timestamp) :
    let s' := s.post i (.claim (windowOf i) atoms.clipboard since)
    Covers o s' ∧ (connection i longest patience).Hears o s s' := by
  intro s'
  by_cases hconn : (s.client i).connected = true
  · let claim : Post := .claim (windowOf i) atoms.clipboard since
    by_cases hrefused : s.refuses claim.request = true
    · have hspares : Spares o longest patience s (s.disconnect i) :=
        spares_disconnect (hangsUp_of_refuses hrefused) i
      rw [show s' = s.disconnect i from post_of_refused hconn hrefused]
      exact ⟨(hspares hs).1, (hspares hs).2.hears⟩
    · rw [show s' = _ from post_of_accepted hconn (by simpa using hrefused), handle]
      split
      · split
        · exact ⟨hs, .refl s⟩
        · exact ⟨hs.passTo (.inl rfl), [], by simp, (kept_passTo s _ _ i).2⟩
      · exact ⟨hs, .refl s⟩
  · rw [show s' = s from post_of_lost (by simpa using hconn)]
    exact ⟨hs, .refl s⟩

theorem send_claim (s : Server) (since : Timestamp) :
    ((connection i longest patience).send [.claim (connection i longest patience).window
      (connection i longest patience).atoms.clipboard since] s).2 =
        s.post i (.claim (windowOf i) atoms.clipboard since) := by
  show (if (s.client i).connected then (.done (), s.post i _)
    else (.failed ⟨none, "connection closed"⟩, s) : Outcome Hitch Unit × Server).2 = _
  split
  · rfl
  · next hlost => exact (post_of_lost (by simpa using hlost)).symm

/-- The window that is named is the one that owns the selection when the question comes to the
server. -/
theorem requestOwner_eq_done {w : Window} (h : requestOwner i s = (.done w, s')) :
    s.ownerWindow = w := by
  have hanswer := request_eq_done h
  split at hanswer
  · cases hanswer
  · exact Outcome.done.inj (congrArg Prod.fst hanswer)

theorem requestOwner_ne_unwound (s : Server) : (requestOwner i s).1 ≠ .unwound := by
  unfold requestOwner request
  split
  · split
    · exact nofun
    · dsimp only
      split <;> exact nofun
  · exact nofun

/-- A client of a server gets what it relies on. -/
theorem connection_serviced (o : Outside (windowOf i)) (longest : Nat) (patience : Duration) :
    (connection i longest patience).Serviced o ownerWindow (Covers o) where
  abides := spares_abides
  placed sel s hs := by
    have hkept := client_amend_rel (s := s) (i := i) (f := fun c => { c with selection := sel })
      (R := fun _ c c' => c'.pending = c.pending) (fun _ _ => rfl) rfl
    refine ⟨hs.of_same rfl (length_amend s i _) fun d hd => .inl (hkept i ▸ hd), ?_⟩
    show ((s.amend i fun c => { c with selection := sel }).client i).selection = sel
    rw [client_amend_self hs.there]
  claims since s hs := by
    rw [send_claim]
    exact hears_claim hs since
  named s w s' hs h :=
    ⟨s, Connection.bounds_befalls.refl s, requestOwner_eq_done h,
      (congrArg Prod.snd h ▸ spares_requestOwner s hs).2⟩
  sends posts s := by
    show (if (s.client i).connected then _ else _ : Outcome Hitch Unit × Server).1 ≠ _
    split <;> exact nofun
  answers := requestOwner_ne_unwound

end Server

end Clipboard.X11
