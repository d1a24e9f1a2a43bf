import Clipboard.Proofs.X11.Scripts

/-!
# Whom an answer answers

A client has everything that it asks for put in the same place, and takes the next reply about the
clipboard for the answer to its last question.  What it has asked for earlier, and has given up
waiting for, may still come.  So it may take for an answer what answers an earlier question, as
long as something is owed to that one; but nothing else.

* `Ledger`: what has been stored for a client, in answer to which questions, and what is owed;
* `Ledger.Run`: one conversion after the other, with anything in between;
* `Connection.convert_answers`: what a conversion comes to after any run.
-/

namespace Clipboard.X11

open Action

/-- What is known of values that are stored where a client looks for them. -/
structure Records (σ : Type) where
  /-- A value has been stored in answer to an inquiry for a target. -/
  stored : σ → Atom → Property → Prop
  /-- Such a value lies there. -/
  lying : σ → Atom → Property → Prop
  /-- Something may still be stored in answer to an inquiry for a target: its owner has not
  answered yet, or has not come to the end of its answer. -/
  owed : σ → Atom → Prop

namespace Records

variable {σ : Type} {r : Records σ} {fresh : Atom → Prop} {s t u : σ}

/-- Values that were owed may have been stored.  Nothing else comes to be owed but answers to
fresh inquiries. -/
structure Goes (r : Records σ) (fresh : Atom → Prop) (s t : σ) : Prop where
  stored : ∀ {a v}, r.stored s a v → r.stored t a v
  lying : ∀ {a v}, r.lying t a v → r.lying s a v ∨ r.owed s a ∨ fresh a
  owed : ∀ {a}, r.owed t a → r.owed s a ∨ fresh a

/-- No inquiry is fresh. -/
abbrev GoesOn (r : Records σ) (s t : σ) : Prop := r.Goes (fun _ => False) s t

theorem bounds_goes (r : Records σ) (fresh : Atom → Prop) : Bounds (r.Goes fresh) where
  refl s := ⟨id, .inl, .inl⟩
  trans {s t u} h h' := by
    refine ⟨fun hv => h'.stored (h.stored hv), fun hv => ?_, fun ha => ?_⟩
    · rcases h'.lying hv with hlying | howed | hfresh
      · exact h.lying hlying
      · exact .inr (h.owed howed)
      · exact .inr (.inr hfresh)
    · rcases h'.owed ha with howed | hfresh
      · exact h.owed howed
      · exact .inr hfresh

theorem GoesOn.goes (h : r.GoesOn s t) (fresh : Atom → Prop) : r.Goes fresh s t where
  stored := h.stored
  lying hv := (h.lying hv).imp_right fun hrest => .inl (hrest.resolve_right id)
  owed ha := .inl ((h.owed ha).resolve_right id)

/-- All that lies there or may still be stored is for targets of some kind. -/
structure Within (r : Records σ) (P : Atom → Prop) (s : σ) : Prop where
  lying : ∀ {a v}, r.lying s a v → P a
  owed : ∀ {a}, r.owed s a → P a

theorem Within.goesOn {P : Atom → Prop} (hs : r.Within P s) (h : r.GoesOn s t) :
    r.Within P t where
  lying hv := by
    rcases h.lying hv with hlying | howed | hfresh
    · exact hs.lying hlying
    · exact hs.owed howed
    · exact hfresh.elim
  owed ha := hs.owed ((h.owed ha).resolve_right id)

/-- A value has been stored in answer to inquiries for targets of some kind: as one, or in parts.
Where nothing lay when the client looked, it is the absent one. -/
inductive Answers (r : Records σ) (P : Atom → Prop) (s : σ) : Property → Prop
  | absent : Answers r P s .absent
  | whole {a : Atom} {v : Property} (ha : P a) (hv : r.stored s a v) : Answers r P s v
  | parts {list : List Property} (hlist : ∀ part ∈ list, ∃ a, P a ∧ r.stored s a part) :
      Answers r P s ⟨Connection.typeAfter 0 list, .octets (list.flatMap (·.data.bytes))⟩

end Records

variable {σ : Type} {c : Connection σ} {s t u : σ} {P : Atom → Prop} {v : Property}
  {target : Atom} {targets : List Atom}

/-- Records that are kept right: values are stored in answer to inquiries alone, the client takes
what lies there, and whatever lies there when it asks anew is removed. -/
structure Ledger (c : Connection σ) extends Records σ where
  listen : ∀ s, toRecords.GoesOn s (c.listen s).2
  discard : ∀ s, toRecords.GoesOn s (c.discard s)
  collect : ∀ s, toRecords.GoesOn s (c.collect s).2
  /-- What is taken lay there, or has been stored since. -/
  taken : ∀ {s v t}, c.collect s = (.done v, t) →
    v = .absent ∨ ∃ a, stored t a v ∧ (lying s a v ∨ owed s a)
  asks : ∀ target s, toRecords.Goes (· = target) s (c.send (c.asking target) s).2
  removes : ∀ {target s t}, c.send (c.asking target) s = (.done (), t) →
    ∀ {a v}, lying t a v → owed s a ∨ a = target

namespace Ledger

variable (L : Ledger c)

theorem awaitNotice_goesOn {α : Type} (accept : Notice → Option α) :
    Confined L.GoesOn (c.awaitNotice accept) := fun s =>
  Connection.confined_awaitAmong (L.bounds_goes _) L.listen accept (c.horizon s) s

/-- While a client has the selection converted to a target, nothing else comes to be owed. -/
theorem convert_goes (target : Atom) : Confined (L.Goes (· = target)) (c.convert target) := by
  have hb := L.bounds_goes (· = target)
  have hawait {α : Type} (accept : Notice → Option α) :
      Confined (L.Goes (· = target)) (c.awaitNotice accept) :=
    fun s => (L.awaitNotice_goesOn accept s).goes _
  have htake : Confined (L.Goes (· = target)) c.take := fun s => (L.collect s).goes _
  rw [Connection.convert]
  refine Confined.bind hb (confined_update fun s => (L.discard s).goes _) fun _ => ?_
  refine Confined.bind hb (Confined.mapCause (L.asks target) _) fun _ => ?_
  exact Confined.bind hb (hawait _) fun place =>
    Connection.confined_fetch hb (hawait _) htake place

/-- One conversion after the other, to some targets, and anything in between in which the client
asks for none. -/
inductive Run (L : Ledger c) (s : σ) : List Atom → σ → Prop
  | start : Run L s [] s
  | meanwhile {targets : List Atom} {t u : σ} (hrun : Run L s targets t) (h : L.GoesOn t u) :
      Run L s targets u
  | converts {targets : List Atom} {t : σ} (hrun : Run L s targets t) (target : Atom) :
      Run L s (targets ++ [target]) (c.convert target t).2

variable {L}

/-- Whatever is owed after a run was owed before it, or has been asked for in it. -/
theorem Run.owed (hrun : L.Run s targets t) {a : Atom} (ha : L.owed t a) :
    L.owed s a ∨ a ∈ targets := by
  induction hrun with
  | start => exact .inl ha
  | meanwhile _ h ih => exact ih ((h.owed ha).resolve_right id)
  | @converts targets t _ target ih =>
      rcases (L.convert_goes target t).owed ha with howed | rfl
      · exact (ih howed).imp_right (List.mem_append_left _)
      · exact .inr (List.mem_append_right _ List.mem_cons_self)

/-! ## What is taken -/

/-- What a client takes is absent, or answers what it has asked for. -/
theorem collect_answers (hs : L.Within P s) (h : c.collect s = (.done v, t)) :
    v = .absent ∨ ∃ a, P a ∧ L.stored t a v := by
  rcases L.taken h with habsent | ⟨a, hstored, hlying | howed⟩
  · exact .inl habsent
  · exact .inr ⟨a, hs.lying hlying, hstored⟩
  · exact .inr ⟨a, hs.owed howed, hstored⟩

theorem within_collect (hs : L.Within P s) {r : Outcome Fault Property}
    (h : c.collect s = (r, t)) : L.GoesOn s t ∧ L.Within P t := by
  have hgoes := L.collect s
  rw [h] at hgoes
  exact ⟨hgoes, hs.goesOn hgoes⟩

theorem within_listen (hs : L.Within P s) {heard : Heard} (h : c.listen s = (heard, t)) :
    L.GoesOn s t ∧ L.Within P t := by
  have hgoes := L.listen s
  rw [h] at hgoes
  exact ⟨hgoes, hs.goesOn hgoes⟩

/-- So is every part of what comes in parts. -/
theorem transfers_answers {list : List Property} (h : c.Transfers s list t)
    (hs : L.Within P s) (hfull : ∀ part ∈ list, part.data.bytes ≠ []) :
    L.GoesOn s t ∧ L.Within P t ∧ ∀ part ∈ list, ∃ a, P a ∧ L.stored t a part := by
  have hb := L.bounds_goes fun _ => False
  induction h with
  | nil s => exact ⟨hb.refl s, hs, by simp⟩
  | other hheard _ _ ih =>
      obtain ⟨hgoes, ht⟩ := within_listen hs hheard
      obtain ⟨hlater, hu, hparts⟩ := ih ht hfull
      exact ⟨hb.trans hgoes hlater, hu, hparts⟩
  | @cons time part s t u v list hheard htaken _ ih =>
      obtain ⟨hpart, hrest⟩ := List.forall_mem_cons.mp hfull
      obtain ⟨hgoes, ht⟩ := within_listen hs hheard
      obtain ⟨hgoes', hu⟩ := within_collect ht htaken
      obtain ⟨hlater, hv, hparts⟩ := ih hu hrest
      refine ⟨hb.trans hgoes (hb.trans hgoes' hlater), hv, List.forall_mem_cons.mpr ⟨?_, hparts⟩⟩
      -- An absent part would be an empty one.
      rcases collect_answers ht htaken with rfl | ⟨a, ha, hstored⟩
      · exact absurd rfl hpart
      · exact ⟨a, ha, hlater.stored hstored⟩

theorem receive_answers (hs : L.Within P s) (h : c.receive s = (.done v, u)) :
    L.Answers P u v := by
  obtain ⟨list, t, htransfers, hfull, rfl, time, t', last, hheard, hlast, -⟩ :=
    Connection.completes_of_receiveFrom _ h
  obtain ⟨-, ht, hparts⟩ := transfers_answers htransfers hs hfull
  obtain ⟨hgoes, ht'⟩ := within_listen ht hheard
  obtain ⟨hgoes', -⟩ := within_collect ht' hlast
  rw [Connection.flatten_contentsAfter]
  refine .parts fun part hpart => ?_
  obtain ⟨a, ha, hstored⟩ := hparts part hpart
  exact ⟨a, ha, hgoes'.stored (hgoes.stored hstored)⟩

/-- What a client fetches once it has been told where it is. -/
theorem fetch_answers {place : Atom} (hs : L.Within P s)
    (h : c.fetch place s = (.done (some v), u)) : L.Answers P u v := by
  rw [Connection.fetch] at h
  split at h
  · cases h
  · obtain ⟨value, t, htake, hrest⟩ := bind_eq_done h
    have htaken : c.collect s = (.done value, t) := mapCause_eq_done htake
    split at hrest
    · obtain ⟨whole, u', hreceive, hend⟩ := bind_eq_done hrest
      cases hend
      exact receive_answers (within_collect hs htaken).2 hreceive
    · cases hrest
      rcases collect_answers hs htaken with rfl | ⟨a, ha, hstored⟩
      · exact .absent
      · exact .whole ha hstored

end Ledger

namespace Connection

/-- **A conversion comes to what answers it, or what is owed to an earlier one.**  A client to which
nothing is owed has the selection converted to one target after the other, and whatever happens in
between, whoever owns the selection, and however late or in whatever order the answers come.  What
is owed to it after that is owed for targets that it has asked for.  If it then has the selection
converted to a target, what it finds has been stored in answer to an inquiry for that target, or
for one that something is owed for by then; if it is owed nothing but for that target, what it
finds answers that target.  The same is true of each part of what comes in parts. -/
theorem convert_answers (L : Ledger c) (hclear : ∀ a, ¬ L.owed s a) (hrun : L.Run s targets t)
    (target : Atom) :
    (∀ a, L.owed t a → a ∈ targets) ∧
    ∀ v u, c.convert target t = (.done (some v), u) →
      L.Answers (fun a => a = target ∨ a ∈ targets ∧ L.owed t a) u v ∧
      ((∀ a, L.owed t a → a = target) → L.Answers (· = target) u v) := by
  have howed (a : Atom) (ha : L.owed t a) : a ∈ targets :=
    (hrun.owed ha).resolve_left (hclear a)
  have hanswers {P : Atom → Prop} (htarget : P target) (hP : ∀ a, L.owed t a → P a) {v : Property}
      {u : σ} (h : c.convert target t = (.done (some v), u)) : L.Answers P u v := by
    obtain ⟨_, t₀, hdiscarded, hrest⟩ := bind_eq_done h
    cases hdiscarded
    obtain ⟨_, t₁, hsent, hrest⟩ := bind_eq_done hrest
    have hsend : c.send (c.asking target) (c.discard t) = (.done (), t₁) := mapCause_eq_done hsent
    obtain ⟨place, t₂, hawaited, hfetch⟩ := bind_eq_done hrest
    -- What lay there is removed, and so all is within what is owed or has been asked for.
    have hasked := L.asks target (c.discard t)
    rw [hsend] at hasked
    have hdue {a : Atom} (ha : L.owed (c.discard t) a ∨ a = target) : P a := by
      rcases ha with ha | rfl
      · exact hP a (((L.discard t).owed ha).resolve_right id)
      · exact htarget
    have hwithin : L.Within P t₁ :=
      ⟨fun hv => hdue (L.removes hsend hv), fun ha => hdue (hasked.owed ha)⟩
    have hgoes := L.awaitNotice_goesOn c.replied t₁
    rw [hawaited] at hgoes
    exact Ledger.fetch_answers (hwithin.goesOn hgoes) hfetch
  refine ⟨howed, fun v u h => ⟨?_, fun honly => ?_⟩⟩
  · exact hanswers (.inl rfl) (fun a ha => .inr ⟨howed a ha, ha⟩) h
  · exact hanswers (P := (· = target)) rfl honly h

end Connection

namespace Script

variable {atoms : Atoms}

/-- What a script says of the values that it stores. -/
def records : Records Script where
  stored s a v := (a, v) ∈ s.stored
  lying s a v := s.found = some (a, v)
  owed s a := ∃ v m, (a, .news (some v) m) ∈ s.coming

section

variable {s t : Script} {a : Atom} {stored : Option Property} {rest : List (Atom × Happening)}

/-- What happens next is stored, if anything is. -/
theorem goesOn_store {m : Notice} (h : (a, .news stored m) ∈ s.coming)
    (hrest : ∀ x ∈ rest, x ∈ s.coming) :
    records.GoesOn s { s.store a stored with coming := rest } where
  stored hv := List.mem_append_left _ hv
  lying {b v} hv := by
    cases stored with
    | none => exact .inl (by simpa [records, found, store] using hv)
    | some value =>
        obtain ⟨rfl, rfl⟩ : a = b ∧ value = v := by simpa [records, found, store] using hv
        exact .inr (.inl ⟨value, m, h⟩)
  owed := fun ⟨v, m', hnews⟩ => .inl ⟨v, m', hrest _ hnews⟩

/-- What does not happen any more is not owed any more. -/
theorem goesOn_skip (h : ∀ x ∈ rest, x ∈ s.coming) :
    records.GoesOn s { s with coming := rest } :=
  ⟨id, .inl, fun ⟨v, m, hnews⟩ => .inl ⟨v, m, h _ hnews⟩⟩

theorem goesOn_hear {coming : List (Atom × Happening)} (h : ∀ x ∈ coming, x ∈ s.coming) :
    records.GoesOn s (s.hear coming).2 := by
  induction coming with
  | nil => exact goesOn_skip h
  | cons x rest ih =>
      obtain ⟨hx, hrest⟩ := List.forall_mem_cons.mp h
      obtain ⟨a, happening⟩ := x
      cases happening with
      | news stored m => exact goesOn_store hx hrest
      | pause => exact goesOn_skip hrest
      | later => exact ih hrest

theorem goesOn_passOver {coming : List (Atom × Happening)} (h : ∀ x ∈ coming, x ∈ s.coming) :
    records.GoesOn s (s.passOver coming) := by
  induction coming generalizing s with
  | nil => exact goesOn_skip h
  | cons x rest ih =>
      obtain ⟨hx, hrest⟩ := List.forall_mem_cons.mp h
      obtain ⟨a, happening⟩ := x
      cases happening with
      | news stored m =>
          have hstored : records.GoesOn s { s.store a stored with coming := rest } :=
            goesOn_store hx hrest
          exact (records.bounds_goes _).trans hstored (ih fun _ hy => hy)
      | pause => exact goesOn_skip h
      | later => exact goesOn_skip h

theorem nothing_lies {v : Property} (h : s.lying = false) : ¬ records.lying s a v := by
  simp [records, found, h]

end

/-- A client that asks has nothing lying there, and is owed for what it has asked for. -/
theorem send_asking (atoms : Atoms) (target : Atom) (s : Script) :
    (connection atoms).send ((connection atoms).asking target) s =
      (.done (), { s with
        lying := false
        coming := s.coming ++ (s.answers target).map (target, ·) }) := rfl

/-- The records of a script are kept right. -/
def ledger (atoms : Atoms) : Ledger (connection atoms) where
  toRecords := records
  listen s := goesOn_hear fun _ h => h
  discard s := goesOn_passOver fun _ h => h
  collect s := ⟨id, fun hv => (nothing_lies rfl hv).elim, .inl⟩
  taken {s v t} h := by
    cases hfound : s.found with
    | none =>
        have hv : (connection atoms).collect s = (.done .absent, { s with lying := false }) := by
          show (Outcome.done ((s.found.map Prod.snd).getD Property.absent), _) = _
          rw [hfound]
          rfl
        rw [hv] at h
        cases h
        exact .inl rfl
    | some entry =>
        obtain ⟨a, value⟩ := entry
        rw [collect_of_found hfound] at h
        cases h
        have hlast : s.lying = true ∧ s.stored.getLast? = some (a, v) := by
          simpa [found] using hfound
        exact .inr ⟨a, List.mem_of_getLast? hlast.2, .inl hfound⟩
  asks target s := by
    rw [send_asking]
    refine ⟨id, fun hv => (nothing_lies rfl hv).elim, fun ⟨v, m, hnews⟩ => ?_⟩
    rcases List.mem_append.mp hnews with hold | hnew
    · exact .inl ⟨v, m, hold⟩
    · obtain ⟨happening, -, heq⟩ := List.mem_map.mp hnew
      cases heq
      exact .inr rfl
  removes h := by
    rw [send_asking] at h
    cases h
    exact fun hv => (nothing_lies rfl hv).elim

end Script

namespace Connection

/-- A client asks for a target and waits in vain, since the answer comes late, and then asks for
another, which is answered at once.  It finds what answers the first.  If the first answer
comes in time, it finds what answers the second. -/
theorem convert_answers_late :
    let a := Server.atoms
    let c := Script.connection a
    let L := Script.ledger a
    let value (target : Atom) : Property := ⟨target, .octets []⟩
    let answer (target : Atom) := Script.telling a target (.whole (value target))
    let late : Script := { answers := fun target =>
      if target = a.utf8 then .pause :: .later :: answer target else answer target }
    let prompt : Script := { answers := answer }
    (c.convert a.utf8 late).1 = .failed c.noAnswer ∧
      (c.convert a.latin1 (c.convert a.utf8 late).2).1 = .done (some (value a.utf8)) ∧
      L.Answers (fun b => b = a.latin1 ∨ b ∈ [a.utf8] ∧ L.owed (c.convert a.utf8 late).2 b)
        (c.convert a.latin1 (c.convert a.utf8 late).2).2 (value a.utf8) ∧
      L.Answers (· = a.latin1) (c.convert a.latin1 (c.convert a.utf8 prompt).2).2
        (value a.latin1) := by
  intro a c L value answer late prompt
  have hclear (s : Script) (h : s.coming = []) (b : Atom) : ¬ L.owed s b := by
    rintro ⟨v, m, hnews⟩
    rw [h] at hnews
    cases hnews
  have hlate : (c.convert a.latin1 (c.convert a.utf8 late).2).1 = .done (some (value a.utf8)) := by
    decide +kernel
  have hprompt : (c.convert a.latin1 (c.convert a.utf8 prompt).2).1 =
      .done (some (value a.latin1)) := by decide +kernel
  have hnone (b : Atom) : ¬ L.owed (c.convert a.utf8 prompt).2 b := hclear _ rfl b
  refine ⟨by decide +kernel, hlate, ?_, ?_⟩
  · exact ((convert_answers L (hclear late rfl) (.converts .start a.utf8) a.latin1).2 _ _
      (Prod.ext hlate rfl)).1
  · exact ((convert_answers L (hclear prompt rfl) (.converts .start a.utf8) a.latin1).2 _ _
      (Prod.ext hprompt rfl)).2 fun b hb => absurd hb (hnone b)

/-- What answers one target is found in answer to another: the answer comes late, or the value goes
on after an empty part.  Nothing like it has been stored in answer to the other target. -/
theorem convert_mistaken :
    let a := Server.atoms
    let c := Script.connection a
    let value : Property := ⟨a.utf8, .octets [97]⟩
    let told (target : Atom) : Happening := .news none (Script.answered a target a.transfer)
    let late : List Happening := [.pause, .later, Script.stores a value, told a.utf8]
    let broken : List Happening := Script.telling a a.utf8 (.parts [value]) ++
      [.later, Script.stores a value]
    ∀ first ∈ [late, broken],
      let s : Script := { answers := fun target =>
        if target = a.utf8 then first else [told target] }
      let s' := (c.convert a.utf8 s).2
      (c.convert a.latin1 s').1 = .done (some value) ∧
        (c.convert a.latin1 s').2.stored.all (·.1 = a.utf8) := by
  decide +kernel

end Connection

end Clipboard.X11
