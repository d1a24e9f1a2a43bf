import Clipboard.Proofs.X11.Transfers

/-!
# What an inquiry brings

A client that has asked for a conversion waits until it is told what became of it, and then takes
what it was told of.  What its owner does in the meantime, and how long the client has to wait, may
be anything; it is told here by what the client hears and finds.

* `Connection.Waits`: what waiting for a notice comes to;
* `Connection.Brings`: how an inquiry is refused, answered with one value, or answered in parts;
* `Connection.convert_of_brings`: a conversion comes to what its inquiry brings.
-/

namespace Clipboard.X11

/-- What an owner tells a client that has asked for a target. -/
inductive Tidings where
  | refusal
  | whole (value : Property)
  /-- The parts that are not empty, one after the other. -/
  | parts (list : List Property)

namespace Tidings

/-- One value, or a refusal where there is none. -/
def single : Option Property → Tidings
  | none => refusal
  | some value => whole value

/-- What a client is left with when it has taken all that there is. -/
def value? : Tidings → Option Property
  | refusal => none
  | whole value => some value
  | parts list => some ⟨Connection.typeAfter 0 list, .octets (list.flatMap (·.data.bytes))⟩

theorem value?_single (value : Option Property) : (single value).value? = value := by
  cases value <;> rfl

/-- Tidings that there can be: what comes as one value is not announced, and no part is empty. -/
def Proper (incremental : Atom) : Tidings → Prop
  | refusal => True
  | whole value => value.type ≠ incremental
  | parts list => ∀ part ∈ list, part.data.bytes ≠ []

end Tidings

namespace Connection

open Action

variable {σ α : Type} {c : Connection σ} {s t u v : σ}

/-! ## Waiting -/

/-- A client that waits for a notice of some kind passes over what it hears, until it hears such a
notice or nothing more. -/
inductive Waits (c : Connection σ) (accept : Notice → Option α) : σ → Outcome Failure α → σ → Prop
  | accepted {m : Notice} {a : α} {s t : σ} (hheard : c.listen s = (.notice m, t))
      (hm : accept m = some a) : Waits c accept s (.done a) t
  | other {m : Notice} {r : Outcome Failure α} {s t u : σ} (hheard : c.listen s = (.notice m, t))
      (hm : accept m = none) (hlater : Waits c accept t r u) : Waits c accept s r u
  | ended {heard : Heard} {e : Failure} {s t : σ} (hheard : c.listen s = (heard, t))
      (hend : c.failure? heard = some e) : Waits c accept s (.failed e) t

/-- Where there is room for all notices that come in, waiting goes on until it has an end. -/
theorem awaitAmong_of_waits {accept : Notice → Option α} {r : Outcome Failure α} {n : Nat}
    (h : c.Waits accept s r u) (hroom : ∀ k, c.Comes k s → k < n) :
    c.awaitAmong accept n s = (r, u) := by
  induction h generalizing n with
  | accepted hheard hm =>
      obtain ⟨n, rfl⟩ := Nat.exists_eq_succ_of_ne_zero (Nat.ne_of_gt (hroom 0 trivial))
      exact awaitAmong_of_accepted hheard hm
  | other hheard hm _ ih =>
      obtain ⟨n, rfl⟩ := Nat.exists_eq_succ_of_ne_zero (Nat.ne_of_gt (hroom 0 trivial))
      rw [awaitAmong_of_other hheard hm]
      exact ih fun k hk => Nat.lt_of_succ_lt_succ (hroom (k + 1) ⟨_, _, hheard, hk⟩)
  | ended hheard hend =>
      obtain ⟨n, rfl⟩ := Nat.exists_eq_succ_of_ne_zero (Nat.ne_of_gt (hroom 0 trivial))
      exact awaitAmong_of_ended hheard hend n

theorem awaitNotice_of_waits {accept : Notice → Option α} {r : Outcome Failure α}
    (hc : c.Foresees) (h : c.Waits accept s r u) : c.awaitNotice accept s = (r, u) :=
  awaitAmong_of_waits h (hc s).notices

/-! ## Inquiries -/

/-- An inquiry for a target has been sent, and its client has been told where to find the answer. -/
def Told (c : Connection σ) (target : Atom) (place : Atom) (s u : σ) : Prop :=
  ∃ t, c.send (c.asking target) (c.discard s) = (.done (), t) ∧
    c.Waits c.replied t (.done place) u

/-- An inquiry for a target brings the client the tidings of its owner. -/
inductive Brings (c : Connection σ) (target : Atom) : Tidings → σ → σ → Prop
  | refusal {s u : σ} (htold : c.Told target 0 s u) : Brings c target .refusal s u
  | whole {place : Atom} {value : Property} {s t u : σ} (htold : c.Told target place s t)
      (hplace : place ≠ 0) (htaken : c.collect t = (.done value, u))
      (htype : value.type ≠ c.atoms.incremental) : Brings c target (.whole value) s u
  /-- The value that is found first announces the parts.  They end with one that is empty. -/
  | parts {place : Atom} {time : Timestamp} {announced last : Property} {list : List Property}
      {s t t' u u' v : σ} (htold : c.Told target place s t) (hplace : place ≠ 0)
      (htaken : c.collect t = (.done announced, t'))
      (htype : announced.type = c.atoms.incremental) (htransfers : c.Transfers t' list u)
      (hfull : ∀ part ∈ list, part.data.bytes ≠ [])
      (hheard : c.listen u = (.notice (c.announcement time), u'))
      (hlast : c.collect u' = (.done last, v)) (hempty : last.data.bytes = []) :
      Brings c target (.parts list) s v

theorem convert_of_told {target place : Atom} (hc : c.Foresees) (h : c.Told target place s u) :
    c.convert target s = c.fetch place u := by
  obtain ⟨t, hsent, hwaits⟩ := h
  rw [convert_of_sent hsent]
  exact bind_done (awaitNotice_of_waits hc hwaits) _

/-- **A conversion comes to what its inquiry brings.** -/
theorem convert_of_brings {target : Atom} {tidings : Tidings} (hc : c.Foresees)
    (h : c.Brings target tidings s u) : c.convert target s = (.done tidings.value?, u) := by
  cases h with
  | refusal htold => exact convert_of_told hc htold
  | whole htold hplace htaken htype =>
      rw [convert_of_told hc htold]
      exact fetch_whole hplace (mapCause_of_done htaken) htype
  | parts htold hplace htaken htype htransfers hfull hheard hlast hempty =>
      rw [convert_of_told hc htold, fetch_parts hplace (mapCause_of_done htaken) htype]
      exact bind_done (receives_done hc htransfers hfull hheard hlast hempty).1 _

end Connection

end Clipboard.X11
