import Clipboard.Proofs.X11.News

/-!
# Replacing content

A client that offers new content has it in place before the server has agreed, and may fail at
every step before and after.  It fails early, when an item cannot be offered or the time is not
to be learned, with what it held before; it fails late with nothing.  In the meantime there may be
news, as far as the server lets it come.

* `Replaces`: what comes of offering new content;
* `Replaces.undisturbed`: what it comes to when nothing comes from outside;
* `Serviced.claim_replaces`, `write_replaces`: nothing else does.
-/

namespace Clipboard.X11

namespace Connection

open Action

variable {σ α : Type} {c : Connection σ} {o : Outside c.window} {holder : σ → Window}
  {here : σ → Prop} {items : List (Format × Payload)} {content : List (Atom × Octets)}
  {since : Timestamp} {s s' s₁ t u : σ}

/-! ## Content that can be offered -/

/-- All items can be offered: they fit into a message, and their formats are numbers. -/
def Fits (c : Connection σ) (items : List (Format × Payload)) : Prop :=
  ∀ i ∈ items, i.2.bytes.length ≤ c.longest - 24 ∧ ∃ a, i.1.id = .number a

theorem fits_iff : c.Fits items ↔ ∃ content, c.contentOf items = .ok content := by
  induction items with
  | nil => simp [Fits, contentOf]
  | cons i rest ih =>
      obtain ⟨f, payload⟩ := i
      rw [Fits, List.forall_mem_cons, ← Fits, ih, contentOf, limit]
      by_cases hlarge : c.longest - 24 < payload.bytes.length
      · have hnot : ¬ payload.bytes.length ≤ c.longest - 24 := by omega
        simp [hlarge, hnot]
      · have hle : payload.bytes.length ≤ c.longest - 24 := by omega
        rw [if_neg hlarge]
        cases hid : f.id with
        | named name => simp [target]
        | number a => cases c.contentOf rest <;> simp [target, Except.map, hle]

/-- Some item cannot be offered, or the time is not to be learned. -/
def Unready (c : Connection σ) (items : List (Format × Payload)) (s : σ) : Prop :=
  ¬ c.Fits items ∨ ∃ e, (c.learnTime s).1 = .failed e

theorem not_unready (hfits : c.Fits items) (htime : (c.learnTime s).1 = .done since) :
    ¬ c.Unready items s := by
  rintro (hnot | ⟨e, hfailed⟩)
  · exact hnot hfits
  · cases htime.symm.trans hfailed

/-! ## What comes of it -/

section

variable (c) (o : Outside c.window) (holder : σ → Window)

/-- The state of things when new content is in place and the claim has been sent. -/
def claimed (content : List (Atom × Octets)) (since : Timestamp) (s : σ) : σ :=
  (c.send [.claim c.window c.atoms.clipboard since] (c.amend (·.take content since) s).2).2

/-- What comes of offering new content. -/
inductive Replaces (items : List (Format × Payload)) (s : σ) : Outcome Failure Unit → σ → Prop
  /-- Some item cannot be offered, and nothing is done. -/
  | rejected {reason : String} (hfits : ¬ c.Fits items) :
      Replaces items s (.failed (.rejected reason)) s
  /-- The time is not to be learned.  What was held is held if it has outlived the news, and the
  owner is who it was, if nobody else has become it. -/
  | untimed {e : Failure} {s' : σ} {news : List Turn} (hfits : c.Fits items)
      (htime : (c.learnTime s).1 = .failed e) (hnews : ∀ n ∈ news, o.news n)
      (hheld : (c.selection s').claim =
        (c.selection s).claim.filter (Claim.Outlives c.atoms c.window news))
      (howner : holder s' = holder s ∨ o.rivals (holder s')) :
      Replaces items s (.failed e) s'
  /-- The claim is refused, or nobody says whether it is, and nothing is held. -/
  | withdrawn {e : Failure} {since : Timestamp} {s' : σ} (hfits : c.Fits items)
      (htime : (c.learnTime s).1 = .done since) (hblank : (c.selection s').claim = none) :
      Replaces items s (.failed e) s'
  /-- The client is the owner at a moment after it has sent the claim, and the new content is held
  if it has outlived the news. -/
  | made {content : List (Atom × Octets)} {since : Timestamp} {s₁ t s' : σ} {news : List Turn}
      (hfits : c.Fits items) (htime : c.learnTime s = (.done since, s₁))
      (hcontent : (Claim.mk content since).Offers items)
      (hsent : c.Befalls o holder (c.claimed content since s₁) t) (howner : holder t = c.window)
      (hsince : c.Befalls o holder t s') (hnews : ∀ n ∈ news, o.news n)
      (hheld : (c.selection s').claim =
        (some ⟨content, since⟩ : Option Claim).filter
          (Claim.Outlives c.atoms c.window news)) :
      Replaces items s (.done ()) s'

end

/-- What is held is what was held before, if the content has not been replaced, and the new content
if it has. -/
theorem Replaces.held {r : Outcome Failure Unit} {held : Claim}
    (h : c.Replaces o holder items s r s') (hheld : (c.selection s').claim = some held) :
    r = .done () ∧ held.Offers items ∨ r ≠ .done () ∧ (c.selection s).claim = some held := by
  cases h with
  | rejected hfits => exact .inr ⟨by simp, hheld⟩
  | untimed hfits htime hnews hafter howner =>
      rw [hafter] at hheld
      exact .inr ⟨by simp, (Option.filter_eq_some_iff.mp hheld).1⟩
  | withdrawn hfits htime hblank =>
      rw [hblank] at hheld
      cases hheld
  | made hfits htime hcontent hsent howner hsince hnews hafter =>
      rw [hafter] at hheld
      obtain ⟨hmade, -⟩ := Option.filter_eq_some_iff.mp hheld
      cases hmade
      exact .inl ⟨rfl, hcontent⟩

/-- A client that does not get as far as the claim does not become the owner. -/
theorem Replaces.owner_of_unready {r : Outcome Failure Unit}
    (h : c.Replaces o holder items s r s') (hunready : c.Unready items s)
    (howns : holder s' = c.window) : holder s = c.window := by
  cases h with
  | rejected hfits => exact howns
  | untimed hfits htime hnews hheld howner =>
      rw [howns] at howner
      exact (howner.resolve_right o.apart).symm
  | withdrawn hfits htime hblank => exact absurd hunready (not_unready hfits htime)
  | made hfits htime hcontent hsent howner hsince hnews hheld =>
      exact absurd hunready (not_unready hfits (congrArg Prod.fst htime))

/-- If nothing comes from outside, all is as it was before when the client does not get as far as
the claim, and the client is the owner with the new content when it succeeds. -/
theorem Replaces.undisturbed {r : Outcome Failure Unit} (h : c.Replaces o holder items s r s')
    (hsilent : o.Silent) :
    (c.Unready items s →
      (c.selection s').claim = (c.selection s).claim ∧ holder s' = holder s) ∧
    (r = .done () → holder s' = c.window ∧
      ∃ held, (c.selection s').claim = some held ∧ held.Offers items) := by
  obtain ⟨hnone, hnobody⟩ := hsilent
  have hempty {news : List Turn} (hnews : ∀ n ∈ news, o.news n) : news = [] :=
    List.eq_nil_iff_forall_not_mem.mpr fun n hn => hnone n (hnews n hn)
  have hsameOwner {v w : σ} (howner : holder w = holder v ∨ o.rivals (holder w)) :
      holder w = holder v := howner.resolve_right (hnobody _)
  cases h with
  | rejected hfits => exact ⟨fun _ => ⟨rfl, rfl⟩, nofun⟩
  | untimed hfits htime hnews hheld howner =>
      rw [hempty hnews, Claim.filter_outlives_nil] at hheld
      exact ⟨fun _ => ⟨hheld, hsameOwner howner⟩, nofun⟩
  | withdrawn hfits htime hblank =>
      exact ⟨fun hunready => absurd hunready (not_unready hfits htime), nofun⟩
  | made hfits htime hcontent hsent howner hsince hnews hheld =>
      rw [hempty hnews, Claim.filter_outlives_nil] at hheld
      exact ⟨fun hunready => absurd hunready (not_unready hfits (congrArg Prod.fst htime)),
        fun _ => ⟨(hsameOwner hsince.owner).trans howner, _, hheld, hcontent⟩⟩

namespace Serviced

variable (h : c.Serviced o holder here)
include h

theorem learnTime_ne_unwound (s : σ) : (c.learnTime s).1 ≠ .unwound := by
  have hsend := h.sends [.touch c.window c.atoms.timestamp] (c.discard s)
  rcases hrun : c.send [.touch c.window c.atoms.timestamp] (c.discard s) with ⟨_ | hitch | _, s'⟩
  · rw [show c.learnTime s = c.awaitNotice c.stamped s' from bind_done (mapCause_of_done hrun) _]
    exact awaitAmong_ne_unwound _ _ s'
  · rw [show c.learnTime s = (.failed hitch.failure, s') from
      bind_failed (mapCause_of_failed hrun) _]
    simp
  · rw [hrun] at hsend
    exact absurd rfl hsend

/-- A client that contends for the selection fails, or is told who has been the owner since. -/
theorem contended (hs : here s) (since : Timestamp) :
    (∃ e u, c.contend since s = (.failed e, u) ∧ here u) ∨
      ∃ w t u, c.contend since s = (.done w, u) ∧ here u ∧ c.Hears o s u ∧
        c.Befalls o holder (c.send [.claim c.window c.atoms.clipboard since] s).2 t ∧
        holder t = w ∧ c.Befalls o holder t u := by
  obtain ⟨hhere, hhears⟩ := h.claims since s hs
  rcases contend_cases since s (h.sends _ s) with ⟨e, hcontend⟩ | ⟨-, hcontend⟩
  · exact .inl ⟨e, _, hcontend, hhere⟩
  · generalize (c.send [.claim c.window c.atoms.clipboard since] s).2 = v at *
    have howner := h.answers v
    have hafter := (h.abides.owner v hhere).1
    rcases hanswer : c.owner v with ⟨w | fault | _, u⟩ <;> rw [hanswer] at howner hafter
    · obtain ⟨t, hsent, hw, hsince⟩ := h.named v w u hhere hanswer
      exact .inr ⟨w, t, u, hcontend.trans (mapCause_of_done hanswer), hafter,
        hhears.trans (hsent.hears.trans hsince.hears), hsent, hw, hsince⟩
    · exact .inl ⟨_, u, hcontend.trans (mapCause_of_failed hanswer), hafter⟩
    · exact absurd rfl howner

/-- A client that gives up what it has in place holds nothing. -/
theorem released (hu : here u) : (c.selection (c.amend Selection.release u).2).claim = none := by
  show (c.selection (c.setSelection (c.selection u).release u)).claim = none
  rw [(h.placed _ u hu).2]
  rfl

/-- Content that can be offered replaces what was held, or the client fails. -/
theorem claim_replaces (hs : here s) (hcontent : c.contentOf items = .ok content) :
    c.Replaces o holder items s (c.claim content s).1 (c.claim content s).2 := by
  have hfits : c.Fits items := fits_iff.mpr ⟨content, hcontent⟩
  have hlearn := h.abides.learnTime s hs
  have hends := h.learnTime_ne_unwound s
  rcases htime : c.learnTime s with ⟨since | e | _, s₁⟩ <;> rw [htime] at hlearn hends
  · have hlearned : (c.learnTime s).1 = .done since := congrArg Prod.fst htime
    obtain ⟨hplaced, htaken⟩ := h.placed ((c.selection s₁).take content since) s₁ hlearn.1
    rcases h.contended hplaced since with
      ⟨e, u, hcontend, hu⟩ | ⟨w, t, u, hcontend, hu, hhears, hsent, hw, hsince⟩
    -- The content is in place by now, so whoever fails has to give it up.
    · rw [claim_of_contend_failed htime hcontend]
      exact .withdrawn hfits hlearned (h.released hu)
    · rw [claim_of_contend_done htime hcontend]
      split
      · next howner =>
          obtain ⟨news, hnews, hheld⟩ := hhears.claim
          refine .made hfits htime (contentOf_offers hcontent since) hsent (hw.trans howner) hsince
            hnews ?_
          rw [hheld, htaken]
          rfl
      · exact .withdrawn hfits hlearned (h.released hu)
  · rw [show c.claim content s = (.failed e, s₁) from bind_failed htime _]
    obtain ⟨-, hbefalls⟩ := hlearn
    obtain ⟨news, hnews, hheld⟩ := hbefalls.hears.claim
    exact .untimed hfits (congrArg Prod.fst htime) hnews hheld hbefalls.owner
  · exact absurd rfl hends

end Serviced

/-- **Content is replaced as a whole or not at all.**  A client that is there offers new content,
whatever it holds and whatever the server does.  If some item is too large for a message or its
format has a name, the client says so and nothing has changed.  If the time is not to be learned,
it holds what it held before and the owner is who it was; only what the server lets come from
outside makes a difference, which is news that ends what is held and an owner that is not the
client.  If the claim fails after that, nothing is held.  If it does not, the server has named the
client as the owner after the claim, and what is held is exactly the items in their order, unless
news has ended it since.  So content that was rejected is never held, and no part of any content is.
Clearing is offering no items. -/
theorem write_replaces (h : c.Serviced o holder here) (hs : here s)
    (items : List (Format × Payload)) :
    let r := c.backend.write items s
    c.Replaces o holder items s r.1 r.2 ∧
      (c.Unready items s → holder r.2 = c.window → holder s = c.window) ∧
      (o.Silent →
        (c.Unready items s →
          (c.selection r.2).claim = (c.selection s).claim ∧ holder r.2 = holder s) ∧
        (r.1 = .done () → holder r.2 = c.window ∧
          ∃ held, (c.selection r.2).claim = some held ∧ held.Offers items)) ∧
      (∀ held, (c.selection r.2).claim = some held →
        r.1 = .done () ∧ held.Offers items ∨
          r.1 ≠ .done () ∧ (c.selection s).claim = some held) ∧
      c.backend.clear s = c.backend.write [] s := by
  intro r
  -- What is too large or has a name is found out before anything is done.
  have hreplaces : c.Replaces o holder items s r.1 r.2 := by
    cases hcontent : c.contentOf items with
    | error e =>
        obtain ⟨reason, rfl⟩ := contentOf_error hcontent
        have hfits : ¬ c.Fits items := by
          rw [fits_iff, hcontent]
          rintro ⟨_, hok⟩
          cases hok
        rw [show r = _ from write_of_error hcontent s]
        exact .rejected hfits
    | ok content =>
        rw [show r = _ from write_eq_claim hcontent s]
        exact h.claim_replaces hs hcontent
  exact ⟨hreplaces, hreplaces.owner_of_unready, hreplaces.undisturbed, fun held => hreplaces.held,
    (write_eq_claim rfl s).symm⟩

end Connection

namespace Server

/-- A server whose only client owns the selection, with a word. -/
def owned : Server :=
  { start with
    clients := [{ selection := { claim := some ⟨[(atoms.utf8, [97])], 1000⟩ } }]
    owner := .client 0 }

/-- The connection of that client. -/
def sole : Connection Server := connection 0 16384 (.ofMillis 50)

/-- Another word. -/
def word : List (Format × Payload) := [(⟨.number atoms.utf8, .utf8, true⟩, ⟨[98], .utf8⟩)]

/-- One word replaces another, and the client is the owner as long as nobody takes the selection.
If the foreign client does, the word has been replaced all the same. -/
theorem write_replaces_word :
    (sole.Replaces (.nothing (windowOf 0)) ownerWindow word owned (.done ())
        (sole.backend.write word owned).2 ∧
      (sole.backend.write word owned).2.ownerWindow = sole.window ∧
      ∃ held, (sole.selection (sole.backend.write word owned).2).claim = some held ∧
        held.Offers word) ∧
    sole.Replaces (.anything (windowOf 0)) ownerWindow word { owned with takesOver := true }
      (.done ()) (sole.backend.write word { owned with takesOver := true }).2 := by
  have hdone : (sole.backend.write word owned).1 = .done () := by decide
  have htaken : (sole.backend.write word { owned with takesOver := true }).1 = .done () := by
    decide
  have hserviced (o : Outside (windowOf 0)) : sole.Serviced o ownerWindow (Covers o) :=
    connection_serviced o 16384 (.ofMillis 50)
  have hquiet : Covers (.nothing (windowOf 0)) owned :=
    covers_nothing (by decide) (by decide) rfl rfl
  have hany : Covers (.anything (windowOf 0)) { owned with takesOver := true } :=
    covers_anything (by decide) (by decide)
  obtain ⟨hreplaces, -, hsilent, -⟩ :=
    Connection.write_replaces (hserviced (.nothing _)) hquiet word
  obtain ⟨hrivalled, -⟩ := Connection.write_replaces (hserviced (.anything _)) hany word
  exact ⟨⟨hdone ▸ hreplaces, (hsilent (Outside.silent_nothing _)).2 hdone⟩, htaken ▸ hrivalled⟩

/-- If the connection is closed while the client waits to learn the time, nothing is held any more.
If the foreign client takes the selection as soon as the client has been named, the client that has
made a claim does not own the selection. -/
theorem write_interrupted :
    ((sole.learnTime { owned with hangsUpOn := some .changeProperty }).1 =
        .failed Connection.stopped ∧
      (sole.backend.write word { owned with hangsUpOn := some .changeProperty }).1 =
        .failed Connection.stopped ∧
      (sole.selection { owned with hangsUpOn := some .changeProperty }) =
        { claim := some ⟨[(atoms.utf8, [97])], 1000⟩, alive := true } ∧
      (sole.selection
        (sole.backend.write word { owned with hangsUpOn := some .changeProperty }).2).claim =
          none) ∧
    (sole.backend.write word { owned with takesOver := true }).1 = .done () ∧
      (sole.backend.write word { owned with takesOver := true }).2.ownerWindow ≠ sole.window := by
  decide

end Server

end Clipboard.X11
