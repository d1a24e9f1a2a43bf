import Clipboard.Proofs.X11.Horizons

/-!
# Values in parts, whatever comes in between

A client that receives a value in parts waits until the next part is announced, passes over all
else that it hears, and takes the part.  It is done when it has taken a part that is empty.  When
nothing is announced any more it has waited in vain, and what it has taken is lost.

* `Connection.counting`: a connection on which it is counted how often the property is taken;
* `Connection.receiving_transferred`: all parts that come are taken, and no more than that is heard;
* `Connection.receive_eq_done_iff`: nothing is received whose end has not been announced and taken;
* `Connection.receive_transferred`: what receiving comes to, and how often the property is taken.
-/

namespace Clipboard.X11

namespace Connection

open Action

variable {σ : Type} {c : Connection σ} {type : Atom} {done : List Octets} {parts : List Property}
  {n m : Nat} {s t u : σ}

/-! ## Counting -/

/-- The connection on which it is counted how often the transfer property is taken. -/
def counting (c : Connection σ) : Connection (σ × Nat) :=
  { c.zoom Prod.fst (fun s t => (s, t.2)) with
    collect := fun t => ((c.collect t.1).1, (c.collect t.1).2, t.2 + 1) }

theorem counting_views (c : Connection σ) : Views c.counting c Prod.fst where
  announcement := rfl
  listen _ := rfl
  collect _ := rfl
  horizon _ := rfl

theorem counting_listen {heard : Heard} (h : c.listen s = (heard, t)) (k : Nat) :
    c.counting.listen (s, k) = (heard, (t, k)) := by
  show ((c.listen s).1, (c.listen s).2, k) = _
  rw [h]

theorem counting_collect {r : Outcome Fault Property} (h : c.collect s = (r, t)) (k : Nat) :
    c.counting.collect (s, k) = (r, (t, k + 1)) := by
  show ((c.collect s).1, (c.collect s).2, k + 1) = _
  rw [h]

/-- Each value that comes is counted. -/
theorem Transfers.counting (h : c.Transfers s parts t) (k : Nat) :
    c.counting.Transfers (s, k) parts (t, k + parts.length) := by
  induction h generalizing k with
  | nil s => exact .nil _
  | other hheard hother _ ih => exact .other (counting_listen hheard k) hother (ih k)
  | cons hheard htaken _ ih =>
      have hlater := ih (k + 1)
      rw [Nat.add_assoc, Nat.add_comm 1] at hlater
      exact .cons (counting_listen hheard k) (counting_collect htaken k) hlater

/-! ## Room -/

namespace Room

/-- There is room to hear one thing more, whether or not anything comes in. -/
theorem exists_succ (h : c.Room n m s) : ∃ n', n = n' + 1 :=
  Nat.exists_eq_succ_of_ne_zero (Nat.ne_of_gt (h.notices 0 trivial))

theorem other {x : Notice} (h : c.Room (n + 1) m s) (hheard : c.listen s = (.notice x, t))
    (hother : ∀ time, x ≠ c.announcement time) : c.Room n m t where
  notices k hcomes := Nat.lt_of_succ_lt_succ (h.notices (k + 1) ⟨x, t, hheard, hcomes⟩)
  values parts u htransfers := h.values parts u (.other hheard hother htransfers)

theorem part {time : Timestamp} {part : Property} (h : c.Room n m s)
    (hheard : c.listen s = (.notice (c.announcement time), t))
    (htaken : c.collect t = (.done part, u)) (hc : c.Foresees) :
    ∃ m', m = m' + 1 ∧ c.Room (c.horizon u) m' u := by
  have hone := h.values [part] u (.cons hheard htaken (.nil u))
  obtain ⟨m', rfl⟩ : ∃ m', m = m' + 1 := Nat.exists_eq_succ_of_ne_zero (Nat.ne_of_gt hone)
  refine ⟨m', rfl, (hc u).notices, fun parts v htransfers => ?_⟩
  exact Nat.le_of_succ_le_succ (h.values (part :: parts) v (.cons hheard htaken htransfers))

end Room

/-! ## One part after the other -/

theorem delivered_of_other {x : Notice} (h : ∀ time, x ≠ c.announcement time) :
    c.delivered x = none := by
  cases x with
  | replied r => rfl
  | changed x =>
      refine if_neg fun hnew => h x.time ?_
      obtain ⟨hwindow, hproperty, hremoved⟩ := hnew
      rw [announcement, ← hwindow, ← hproperty, ← hremoved]

theorem delivered_announcement (time : Timestamp) :
    c.delivered (c.announcement time) = some () := if_pos ⟨rfl, rfl, rfl⟩

/-- The type of a value of which some parts have been taken.  It is the first that is not zero, that
which it had before included. -/
def typeAfter (type : Atom) (parts : List Property) : Atom :=
  parts.foldl (fun type part => if type = 0 then part.type else type) type

theorem typeAfter_of_ne (h : type ≠ 0) (parts : List Property) : typeAfter type parts = type := by
  induction parts with
  | nil => rfl
  | cons part rest ih =>
      rw [typeAfter, List.foldl_cons, if_neg h]
      exact ih

/-- If no part is without a type, it is that of the first. -/
theorem typeAfter_zero (h : ∀ part ∈ parts, part.type ≠ 0) :
    typeAfter 0 parts = (parts.head?.map (·.type)).getD 0 := by
  cases parts with
  | nil => rfl
  | cons part rest => exact typeAfter_of_ne (h part List.mem_cons_self) rest

/-- The contents of the parts that have been taken, latest first. -/
def contentsAfter (done : List Octets) (parts : List Property) : List Octets :=
  (parts.map (·.data.bytes)).reverse ++ done

theorem contentsAfter_cons (done : List Octets) (part : Property) (parts : List Property) :
    contentsAfter done (part :: parts) = contentsAfter (part.data.bytes :: done) parts := by
  simp [contentsAfter]

theorem flatten_contentsAfter (parts : List Property) :
    (contentsAfter [] parts).reverse.flatten = parts.flatMap (·.data.bytes) := by
  simp [contentsAfter, List.flatMap_def]

/-- What a client does when it is waiting for the next part, with so many notices and so many parts
to go. -/
def receiving (c : Connection σ) (type : Atom) (done : List Octets) (n m : Nat) :
    Action σ Failure Property := do
  c.awaitAmong c.delivered n
  let part ← c.take
  if part.data.bytes.isEmpty then return ⟨type, .octets done.reverse.flatten⟩
  else c.receiveFrom (if type = 0 then part.type else type) (part.data.bytes :: done) m

theorem receiveFrom_succ (type : Atom) (done : List Octets) (m : Nat) (s : σ) :
    c.receiveFrom type done (m + 1) s = c.receiving type done (c.horizon s) m s := rfl

theorem receive_eq_receiving (s : σ) :
    c.receive s = c.receiving 0 [] (c.horizon s) (c.horizon s) s := rfl

/-- Something else that is heard is passed over. -/
theorem receiving_other {x : Notice} (hheard : c.listen s = (.notice x, t))
    (hother : ∀ time, x ≠ c.announcement time) :
    c.receiving type done (n + 1) m s = c.receiving type done n m t := by
  have hpassed : c.awaitAmong c.delivered (n + 1) s = c.awaitAmong c.delivered n t :=
    awaitAmong_of_other hheard (delivered_of_other hother)
  rw [receiving, receiving, bind_apply, bind_apply, hpassed]

/-- A part that is announced is taken, and ends the value if it is empty. -/
theorem receiving_part {time : Timestamp} {part : Property}
    (hheard : c.listen s = (.notice (c.announcement time), t))
    (htaken : c.collect t = (.done part, u)) :
    c.receiving type done (n + 1) m s =
      if part.data.bytes = [] then (.done ⟨type, .octets done.reverse.flatten⟩, u)
      else c.receiveFrom (if type = 0 then part.type else type) (part.data.bytes :: done) m u := by
  have hawaited : c.awaitAmong c.delivered (n + 1) s = (.done (), t) :=
    awaitAmong_of_accepted hheard (delivered_announcement time)
  have htake : c.take t = (.done part, u) := mapCause_of_done htaken
  refine (bind_done hawaited _).trans ((bind_done htake _).trans ?_)
  by_cases hend : part.data.bytes = []
  · rw [if_pos hend, if_pos (List.isEmpty_iff.mpr hend)]
    rfl
  · rw [if_neg hend, if_neg (mt List.isEmpty_iff.mp hend)]

/-- The failure of a client that hears no notice. -/
def failure? (c : Connection σ) : Heard → Option Failure
  | .notice _ => none
  | .silence => some c.noAnswer
  | .hangup => some stopped

theorem awaitAmong_of_ended {α : Type} {accept : Notice → Option α} {heard : Heard} {e : Failure}
    (hheard : c.listen s = (heard, t)) (hend : c.failure? heard = some e) (n : Nat) :
    c.awaitAmong accept (n + 1) s = (.failed e, t) := by
  cases heard with
  | notice x => cases hend
  | silence =>
      cases hend
      simp [awaitAmong, hheard]
  | hangup =>
      cases hend
      simp [awaitAmong, hheard]

theorem receiving_failed {heard : Heard} {e : Failure} (hheard : c.listen s = (heard, t))
    (hend : c.failure? heard = some e) :
    c.receiving type done (n + 1) m s = (.failed e, t) :=
  bind_failed (awaitAmong_of_ended hheard hend n) _

/-- **All parts that come are taken.**  A client that has room for what is to come takes the parts
that come and are not empty, and then waits for the next, with room for that. -/
theorem receiving_transferred (hc : c.Foresees) (h : c.Transfers s parts t)
    (hfull : ∀ part ∈ parts, part.data.bytes ≠ []) (hroom : c.Room n m s) (type : Atom)
    (done : List Octets) :
    ∃ n' m', c.Room n' m' t ∧
      c.receiving type done n m s =
        c.receiving (typeAfter type parts) (contentsAfter done parts) n' m' t := by
  induction h generalizing n m type done with
  | nil s => exact ⟨n, m, hroom, rfl⟩
  | other hheard hother _ ih =>
      obtain ⟨n, rfl⟩ := hroom.exists_succ
      rw [receiving_other hheard hother]
      exact ih hfull (hroom.other hheard hother) type done
  | @cons time part s t u v parts hheard htaken _ ih =>
      obtain ⟨hpart, hrest⟩ := List.forall_mem_cons.mp hfull
      obtain ⟨n, rfl⟩ := hroom.exists_succ
      obtain ⟨m, rfl, hlater⟩ := hroom.part hheard htaken hc
      rw [receiving_part hheard htaken, if_neg hpart, receiveFrom_succ, contentsAfter_cons]
      exact ih hrest hlater _ _

/-! ## What receiving comes to -/

/-- After what has been taken before, a value comes to its end: parts that are not empty come, and
then an empty one is announced and taken. -/
def Completes (c : Connection σ) (type : Atom) (done : List Octets) (s : σ) (v : Property)
    (u : σ) : Prop :=
  ∃ parts t, c.Transfers s parts t ∧ (∀ part ∈ parts, part.data.bytes ≠ []) ∧
    v = ⟨typeAfter type parts, .octets (contentsAfter done parts).reverse.flatten⟩ ∧
    ∃ time t' last, c.listen t = (.notice (c.announcement time), t') ∧
      c.collect t' = (.done last, u) ∧ last.data.bytes = []

theorem Completes.other {x : Notice} {v : Property} (hheard : c.listen s = (.notice x, t))
    (hother : ∀ time, x ≠ c.announcement time) (h : c.Completes type done t v u) :
    c.Completes type done s v u := by
  obtain ⟨parts, t', htransfers, hrest⟩ := h
  exact ⟨parts, t', .other hheard hother htransfers, hrest⟩

theorem Completes.cons {time : Timestamp} {part v : Property} {s' : σ}
    (hheard : c.listen s = (.notice (c.announcement time), s'))
    (htaken : c.collect s' = (.done part, t)) (hpart : part.data.bytes ≠ [])
    (h : c.Completes (if type = 0 then part.type else type) (part.data.bytes :: done) t v u) :
    c.Completes type done s v u := by
  obtain ⟨parts, t', htransfers, hfull, hv, hend⟩ := h
  refine ⟨part :: parts, t', .cons hheard htaken htransfers, ?_, ?_, hend⟩
  · exact List.forall_mem_cons.mpr ⟨hpart, hfull⟩
  · rw [contentsAfter_cons]
    exact hv

/-- What is received while a client waits for the next part has come to its end, if what is
received after that part has. -/
theorem completes_of_receiving {v : Property} (n : Nat)
    (hlater : ∀ {type done s}, c.receiveFrom type done m s = (.done v, u) →
      c.Completes type done s v u) :
    ∀ s, c.receiving type done n m s = (.done v, u) → c.Completes type done s v u := by
  induction n with
  | zero =>
      intro s h
      cases h
  | succ n ih =>
      intro s h
      rcases hheard : c.listen s with ⟨x | _ | _, t⟩
      · by_cases hnew : ∃ time, x = c.announcement time
        · obtain ⟨time, rfl⟩ := hnew
          obtain ⟨_, s', hawaited, hrest⟩ := bind_eq_done h
          rw [awaitAmong_of_accepted hheard (delivered_announcement time)] at hawaited
          cases hawaited
          obtain ⟨part, t', htake, -⟩ := bind_eq_done hrest
          have htaken : c.collect t = (.done part, t') := mapCause_eq_done htake
          rw [receiving_part hheard htaken] at h
          by_cases hpart : part.data.bytes = []
          · rw [if_pos hpart] at h
            cases h
            exact ⟨[], s, .nil s, by simp, rfl, time, t, part, hheard, htaken, hpart⟩
          · rw [if_neg hpart] at h
            exact .cons hheard htaken hpart (hlater h)
        · have hother : ∀ time, x ≠ c.announcement time := fun time hx => hnew ⟨time, hx⟩
          rw [receiving_other hheard hother] at h
          exact (ih t h).other hheard hother
      · rw [receiving_failed hheard rfl] at h
        cases h
      · rw [receiving_failed hheard rfl] at h
        cases h

theorem completes_of_receiveFrom {v : Property} (m : Nat) :
    ∀ {type done s}, c.receiveFrom type done m s = (.done v, u) →
      c.Completes type done s v u := by
  induction m with
  | zero =>
      intro type done s h
      cases h
  | succ m ih =>
      intro type done s h
      exact completes_of_receiving (c.horizon s) ih s h

/-- **A value is received if and only if it comes to its end.** -/
theorem receive_eq_done_iff (hc : c.Foresees) {v : Property} :
    c.receive s = (.done v, u) ↔ c.Completes 0 [] s v u := by
  constructor
  · exact fun h => completes_of_receiveFrom _ h
  · rintro ⟨parts, t, htransfers, hfull, rfl, time, t', last, hheard, htaken, hlast⟩
    obtain ⟨n, m, hroom, hrun⟩ := receiving_transferred hc htransfers hfull (hc s) 0 []
    obtain ⟨n, rfl⟩ := hroom.exists_succ
    rw [receive_eq_receiving, hrun, receiving_part hheard htaken, if_pos hlast]

/-- If nothing is announced any more before an empty part, nothing is received. -/
theorem receive_eq_failed {heard : Heard} {e : Failure} (hc : c.Foresees)
    (h : c.Transfers s parts t) (hfull : ∀ part ∈ parts, part.data.bytes ≠ [])
    (hheard : c.listen t = (heard, u))
    (hend : c.failure? heard = some e) :
    c.receive s = (.failed e, u) := by
  obtain ⟨n, m, hroom, hrun⟩ := receiving_transferred hc h hfull (hc s) 0 []
  obtain ⟨n, rfl⟩ := hroom.exists_succ
  rw [receive_eq_receiving, hrun, receiving_failed hheard hend]

/-- What receiving comes to, and what it leaves behind, when the property is taken so many times. -/
def Receives (c : Connection σ) (s : σ) (r : Outcome Failure Property) (u : σ) (k : Nat) : Prop :=
  c.receive s = (r, u) ∧ c.counting.receive (s, 0) = (r, (u, k))

/-- The empty part at the end is counted with the others. -/
theorem receives_done {time : Timestamp} {last : Property} {t' : σ} (hc : c.Foresees)
    (h : c.Transfers s parts t) (hfull : ∀ part ∈ parts, part.data.bytes ≠ [])
    (hheard : c.listen t = (.notice (c.announcement time), t'))
    (htaken : c.collect t' = (.done last, u)) (hlast : last.data.bytes = []) :
    c.Receives s (.done ⟨typeAfter 0 parts, .octets (parts.flatMap (·.data.bytes))⟩) u
      (parts.length + 1) := by
  rw [← flatten_contentsAfter]
  constructor
  · exact (receive_eq_done_iff hc).mpr
      ⟨parts, t, h, hfull, rfl, time, t', last, hheard, htaken, hlast⟩
  · have hcounted := h.counting 0
    rw [Nat.zero_add] at hcounted
    exact (receive_eq_done_iff (c.counting_views.foresees hc)).mpr
      ⟨parts, _, hcounted, hfull, rfl, time, _, last, counting_listen hheard _,
        counting_collect htaken _, hlast⟩

theorem receives_failed {heard : Heard} {e : Failure} (hc : c.Foresees)
    (h : c.Transfers s parts t) (hfull : ∀ part ∈ parts, part.data.bytes ≠ [])
    (hheard : c.listen t = (heard, u))
    (hend : c.failure? heard = some e) :
    c.Receives s (.failed e) u parts.length := by
  constructor
  · exact receive_eq_failed hc h hfull hheard hend
  · have hcounted := h.counting 0
    rw [Nat.zero_add] at hcounted
    exact receive_eq_failed (c.counting_views.foresees hc) hcounted hfull
      (counting_listen hheard _) hend

/-- **A value comes in parts, whatever comes in between.**  A client that is brought parts with a
type, none of them empty, each announced once among any other notices, and then an empty one,
receives what they contain one after the other, under the type of the first.  It takes the property
once for each part and once for the empty one, and leaves alone whatever comes after that.  If
nothing is announced any more before an empty part, it fails, and nothing is received. -/
theorem receive_transferred (hc : c.Foresees) (h : c.Transfers s parts t)
    (hparts : ∀ part ∈ parts, part.type ≠ 0 ∧ part.data.bytes ≠ []) :
    (∀ time last u v, c.listen t = (.notice (c.announcement time), u) →
      c.collect u = (.done last, v) → last.data.bytes = [] →
        c.Receives s (.done ⟨(parts.head?.map (·.type)).getD 0,
          .octets (parts.flatMap (·.data.bytes))⟩) v (parts.length + 1)) ∧
    (∀ u, c.listen t = (.silence, u) → c.Receives s (.failed c.noAnswer) u parts.length) ∧
    (∀ u, c.listen t = (.hangup, u) → c.Receives s (.failed stopped) u parts.length) := by
  have htyped : ∀ part ∈ parts, part.type ≠ 0 := fun part hpart => (hparts part hpart).1
  have hfull : ∀ part ∈ parts, part.data.bytes ≠ [] := fun part hpart => (hparts part hpart).2
  refine ⟨fun time last u v hheard htaken hlast => ?_, fun u hsilent => ?_, fun u hlost => ?_⟩
  · rw [← typeAfter_zero htyped]
    exact receives_done hc h hfull hheard htaken hlast
  · exact receives_failed hc h hfull hsilent rfl
  · exact receives_failed hc h hfull hlost rfl

end Connection

namespace Server

/-- The connection of a client. -/
def hearer : Connection Server := connection 0 16384 (.ofMillis 50)

/-- The client is told of another selection. -/
def elsewhere : Notice := .replied ⟨0, windowOf 0, primary, atoms.utf8, atoms.transfer⟩

/-- The client is told that it has been answered. -/
def answered : Notice := .replied ⟨0, windowOf 0, atoms.clipboard, atoms.utf8, atoms.transfer⟩

/-- The client is told that a property has changed. -/
def changed (property : Atom) (removed : Bool) : Notice :=
  .changed ⟨1000, windowOf 0, property, removed⟩

/-- The client has been told of the first part of a value and of other things, and is being fed
another part, and others after that. -/
def fed (others : List Property) : Server :=
  { start with
    clients := [
      { inbox := [elsewhere]
        pending := [.noticed (changed atoms.timestamp false), .other,
          .noticed (changed atoms.transfer false), .noticed answered]
        properties := [(atoms.transfer, ⟨atoms.utf8, .octets [104]⟩)]
        feed := ⟨atoms.latin1, .octets [105]⟩ :: others
        feedPlace := atoms.transfer }] }

/-- What is left when the client has heard of one thing more. -/
def hears (s : Server) : Server := (hearer.listen s).2

/-- What is left when the client has taken the property. -/
def takes (s : Server) : Server := (hearer.collect s).2

/-- What is left when the client has taken two parts and has heard what there is besides. -/
def takesTwo (s : Server) : Server :=
  s.hears.hears.hears.takes.hears.hears.hears.takes.hears

theorem listen_eq_hears {s : Server} {r : Heard} (h : (hearer.listen s).1 = r) :
    hearer.listen s = (r, s.hears) := Prod.ext h rfl

theorem collect_eq_takes {s : Server} {part : Property} (h : (hearer.collect s).1 = .done part) :
    hearer.collect s = (.done part, s.takes) := Prod.ext h rfl

theorem fed_transfers {others : List Property} (h : others ∈ [[⟨atoms.utf8, .octets []⟩], []]) :
    hearer.Transfers (fed others) [⟨atoms.utf8, .octets [104]⟩, ⟨atoms.latin1, .octets [105]⟩]
      (fed others).takesTwo := by
  have hreplied (r : Reply) (time : Timestamp) : Notice.replied r ≠ hearer.announcement time := by
    intro h
    cases h
  have htouched (time : Timestamp) : changed atoms.timestamp false ≠ hearer.announcement time := by
    simp [changed, Connection.announcement, hearer, connection, atoms]
  have hgone (time : Timestamp) : changed atoms.transfer true ≠ hearer.announcement time := by
    simp [changed, Connection.announcement]
  refine .other (m := elsewhere) (listen_eq_hears (by revert others; decide +kernel))
    (hreplied _) ?_
  refine .other (listen_eq_hears (r := .notice (changed atoms.timestamp false))
    (by revert others; decide +kernel)) htouched ?_
  refine .cons (listen_eq_hears (r := .notice (hearer.announcement 1000))
    (by revert others; decide +kernel)) (collect_eq_takes (by revert others; decide +kernel)) ?_
  refine .other (m := answered) (listen_eq_hears (by revert others; decide +kernel)) (hreplied _) ?_
  refine .other (listen_eq_hears (r := .notice (changed atoms.transfer true))
    (by revert others; decide +kernel)) hgone ?_
  refine .cons (listen_eq_hears (r := .notice (hearer.announcement 1000))
    (by revert others; decide +kernel)) (collect_eq_takes (by revert others; decide +kernel)) ?_
  exact .other (listen_eq_hears (r := .notice (changed atoms.transfer true))
    (by revert others; decide +kernel)) hgone (.nil _)

/-- The two parts are received if an empty one follows, and nothing if nothing does. -/
theorem receive_transferred_noisy :
    let parts : List Property := [⟨atoms.utf8, .octets [104]⟩, ⟨atoms.latin1, .octets [105]⟩]
    let whole := fed [⟨atoms.utf8, .octets []⟩]
    let broken := fed []
    hearer.Foresees ∧ (∀ part ∈ parts, part.type ≠ 0 ∧ part.data.bytes ≠ []) ∧
      hearer.Transfers whole parts whole.takesTwo ∧ hearer.Transfers broken parts broken.takesTwo ∧
      hearer.Receives whole (.done ⟨atoms.utf8, .octets [104, 105]⟩) whole.takesTwo.hears.takes 3 ∧
      hearer.Receives broken (.failed hearer.noAnswer) broken.takesTwo.hears 2 := by
  intro parts whole broken
  have hforesees : hearer.Foresees := connection_foresees 0 16384 _
  have hparts : ∀ part ∈ parts, part.type ≠ 0 ∧ part.data.bytes ≠ [] := by decide
  have hwhole : hearer.Transfers whole parts whole.takesTwo :=
    fed_transfers List.mem_cons_self
  have hbroken : hearer.Transfers broken parts broken.takesTwo :=
    fed_transfers (List.mem_cons_of_mem _ List.mem_cons_self)
  have hlast : hearer.listen whole.takesTwo =
      (.notice (hearer.announcement 1000), whole.takesTwo.hears) :=
    listen_eq_hears (by decide +kernel)
  have htaken : hearer.collect whole.takesTwo.hears =
      (.done ⟨atoms.utf8, .octets []⟩, whole.takesTwo.hears.takes) :=
    collect_eq_takes (by decide +kernel)
  have hsilent : hearer.listen broken.takesTwo = (.silence, broken.takesTwo.hears) :=
    listen_eq_hears (by decide +kernel)
  exact ⟨hforesees, hparts, hwhole, hbroken,
    (Connection.receive_transferred hforesees hwhole hparts).1 _ _ _ _ hlast htaken rfl,
    (Connection.receive_transferred hforesees hbroken hparts).2.1 _ hsilent⟩

end Server

end Clipboard.X11
