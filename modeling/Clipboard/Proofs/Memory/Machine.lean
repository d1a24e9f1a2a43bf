import Clipboard.Proofs.Memory.Serving
import Clipboard.Proofs.Session.Operations
import Clipboard.Proofs.Session.Within

/-!
# Clipboards in memory as a simple machine

Seen from outside, a clipboard in memory is a machine whose state is what it
holds, nothing or octets in one format, and how many openings it will still
refuse.  An operation that is refused in all of its tries uses up as many
refusals and leaves the content alone.  Any other uses up all that are left and
acts on the content.

Several clipboards in memory may live next to each other in one program, and then
what one of them has been asked for is remembered for all of its name.

* `MemoryMachine.step`: what the machine does;
* `perform_agrees`: a clipboard and its machine answer a request alike;
* `outcomes_eq_answers`: so do any clipboards in any run of requests.
-/

namespace Clipboard

variable {σ α : Type}

/-- What is done with a clipboard in memory. -/
inductive Request where
  | operate (op : Operation)
  /-- Another owner puts its content there. -/
  | inject (id : Format.Id) (bytes : Octets)
  /-- Another owner will hold the clipboard for so many openings. -/
  | hold (openings : Nat)
  deriving DecidableEq, Repr

/-- A request made of a clipboard.  What another owner does goes past the sessions,
straight to the memory, which `touch` changes. -/
def Request.perform (c : Board σ) (touch : (Memory → Memory) → σ → σ) :
    Request → Action (Host σ) AccessError Reply
  | .operate op => op.perform c
  | .inject id bytes =>
    (fun _ => .done) <$> Host.on (Action.update (touch (·.inject id bytes)))
  | .hold openings => (fun _ => .done) <$> Host.on (Action.update (touch (·.hold openings)))

/-- The outcomes of some calls made one after the other, whatever each comes to. -/
def Action.outcomes {ε : Type} : List (Action σ ε α) → σ → List (Outcome ε α)
  | [], _ => []
  | x :: rest, s => (x s).1 :: outcomes rest (x s).2

/-- The state of a clipboard in memory, as far as it can be told from outside. -/
structure MemoryMachine where
  content : Content := none
  /-- Openings that will still be refused. -/
  refusals : Nat := 0
  deriving DecidableEq, Repr

namespace MemoryMachine

/-- The answer to an operation that is given access, and the content it leaves. -/
def act (layout : MemoryLayout) (content : Content) :
    Operation → Except AccessError Reply × Content
  | .setText text =>
    ((content.writeText layout text).1.map fun _ => .done, (content.writeText layout text).2)
  | .getText => ((content.readText layout).map .text, content)
  | .hasText => (.ok (.flag (content.readText layout).isOk), content)
  | .setContents kind bytes => (.ok .done, some ((layout.formatOf kind).id, bytes))
  | .getContents kind => ((content.read layout kind).map fun p => .octets p.bytes, content)
  | .clear => (.ok .done, none)

/-- The answer to an operation that is refused in all of its tries. -/
def refusal (tries : Nat) : Operation → Except AccessError Reply
  | .hasText => .ok (.flag false)
  | _ => .error (.acquireFailed tries "clipboard busy: held by another owner")

/-- The answer of the machine to a request, and its next state. -/
def step (layout : MemoryLayout) (p : Policy) (m : MemoryMachine) :
    Request → Except AccessError Reply × MemoryMachine
  | .operate op =>
    if max 1 p.attempts ≤ m.refusals then
      (refusal (max 1 p.attempts) op, { m with refusals := m.refusals - max 1 p.attempts })
    else ((act layout m.content op).1, ⟨(act layout m.content op).2, 0⟩)
  | .inject id bytes => (.ok .done, { m with content := some (id, bytes) })
  | .hold openings => (.ok .done, { m with refusals := openings })

/-- The answers of some machines to requests, each made of one of them. -/
def answers {ι : Type} [DecidableEq ι] (layout : ι → MemoryLayout) (policy : ι → Policy) :
    List (ι × Request) → (ι → MemoryMachine) → List (Outcome AccessError Reply)
  | [], _ => []
  | (i, request) :: rest, machines =>
    .ofExcept (step (layout i) (policy i) (machines i) request).1 ::
      answers layout policy rest
        (Function.update machines i (step (layout i) (policy i) (machines i) request).2)

end MemoryMachine

namespace Memory

/-- A clipboard in memory is in the state of a machine. -/
def Agrees (d : Host Memory) (m : MemoryMachine) : Prop := Resting d m.content m.refusals

section Alone

variable {p : Policy} {d d' : Host Memory} {content : Content} {refusals : Nat}

theorem map_ofExcept {x : Action (Host Memory) AccessError α} {r : Except AccessError α}
    (hrun : x d = (.ofExcept r, d')) (f : α → Reply) :
    (f <$> x) d = (.ofExcept (r.map f), d') := by
  rw [Action.map_apply, hrun]
  cases r <;> rfl

theorem operate_held (layout : MemoryLayout) (hd : Resting d content refusals)
    (hheld : p.tries ≤ refusals) (op : Operation) :
    ∃ d', op.perform ⟨backend layout, p⟩ d = (.ofExcept (MemoryMachine.refusal p.tries op), d') ∧
      Resting d' content (refusals - p.tries) := by
  cases op with
  | setText text =>
      obtain ⟨d', hrun, hd'⟩ := session_held (·.writeText text) layout hd hheld
      exact ⟨d', map_ofExcept (r := .error _) hrun _, hd'⟩
  | getText =>
      obtain ⟨d', hrun, hd'⟩ := session_held (·.readText) layout hd hheld
      exact ⟨d', map_ofExcept (r := .error _) hrun _, hd'⟩
  | hasText =>
      obtain ⟨d', hrun, hd'⟩ := session_held (·.hasText) layout hd hheld
      exact ⟨d', map_ofExcept (r := .ok false) (Action.recover_failed hrun _) _, hd'⟩
  | setContents kind bytes =>
      obtain ⟨d', hrun, hd'⟩ := session_held (·.write kind bytes) layout hd hheld
      exact ⟨d', map_ofExcept (r := .error _) hrun _, hd'⟩
  | getContents kind =>
      obtain ⟨d', hrun, hd'⟩ := session_held
        (fun h => return (← h.read kind).bytes) layout hd hheld
      exact ⟨d', map_ofExcept (r := .error _) hrun _, hd'⟩
  | clear =>
      obtain ⟨d', hrun, hd'⟩ := session_held (·.clear) layout hd hheld
      exact ⟨d', map_ofExcept (r := .error _) hrun _, hd'⟩

theorem operate_free (layout : MemoryLayout) (hd : Resting d content refusals)
    (hheld : refusals < p.tries) (op : Operation) :
    ∃ d', op.perform ⟨backend layout, p⟩ d =
        (.ofExcept (MemoryMachine.act layout content op).1, d') ∧
      Resting d' (MemoryMachine.act layout content op).2 0 := by
  cases op with
  | setText text =>
      obtain ⟨d', hrun, hd'⟩ :=
        Serves.session (·.writeText text) (serves_writeText layout content text) hd hheld
      exact ⟨d', map_ofExcept hrun _, hd'⟩
  | getText =>
      obtain ⟨d', hrun, hd'⟩ :=
        Serves.session (·.readText) (serves_readText layout content) hd hheld
      exact ⟨d', map_ofExcept hrun _, hd'⟩
  | hasText =>
      obtain ⟨d', hrun, hd'⟩ :=
        Serves.session (·.hasText) (serves_hasText layout content) hd hheld
      exact ⟨d', map_ofExcept (r := .ok _) (Action.recover_done hrun _) _, hd'⟩
  | setContents kind bytes =>
      obtain ⟨d', hrun, hd'⟩ :=
        Serves.session (·.write kind bytes) (serves_write layout content kind bytes) hd hheld
      exact ⟨d', map_ofExcept (r := .ok ()) hrun _, hd'⟩
  | getContents kind =>
      obtain ⟨d', hrun, hd'⟩ :=
        Serves.session (fun h => return (← h.read kind).bytes)
          (serves_bytes layout content kind) hd hheld
      refine ⟨d', (map_ofExcept hrun _).trans ?_, hd'⟩
      rw [MemoryMachine.act]
      cases content.read layout kind <;> rfl
  | clear =>
      obtain ⟨d', hrun, hd'⟩ := Serves.session (·.clear) (serves_clear layout content) hd hheld
      exact ⟨d', map_ofExcept (r := .ok ()) hrun _, hd'⟩

/-- A clipboard answers a request as its machine does, and agrees with it from then
on as before. -/
theorem perform_agrees (layout : MemoryLayout) (p : Policy) {m : MemoryMachine}
    (hd : Agrees d m) (request : Request) :
    ∃ d', request.perform ⟨backend layout, p⟩ (fun change => change) d =
        (.ofExcept (MemoryMachine.step layout p m request).1, d') ∧
      Agrees d' (MemoryMachine.step layout p m request).2 := by
  cases request with
  | operate op =>
      by_cases hheld : max 1 p.attempts ≤ m.refusals
      · rw [MemoryMachine.step, if_pos hheld]
        exact operate_held layout hd hheld op
      · rw [MemoryMachine.step, if_neg hheld]
        exact operate_free layout hd (Nat.lt_of_not_le hheld) op
  | inject id bytes =>
      exact ⟨{ d with world := d.world.inject id bytes }, rfl, hd.closed, hd.held, rfl,
        hd.remembered⟩
  | hold openings =>
      exact ⟨{ d with world := d.world.hold openings }, rfl, hd.closed, rfl, hd.stored,
        hd.remembered⟩

end Alone

section Family

variable {ι : Type} [DecidableEq ι] (layout : ι → MemoryLayout) (policy : ι → Policy)

/-- One of several clipboards in memory. -/
def member (i : ι) : Board (ι → Memory) :=
  (⟨backend (layout i), policy i⟩ : Board Memory).zoom (fun w => w i)
    fun m w => Function.update w i m

/-- A change to one of several memories. -/
def touch (i : ι) (change : Memory → Memory) (w : ι → Memory) : ι → Memory :=
  Function.update w i (change (w i))

/-- A request to one of several clipboards. -/
def demand (r : ι × Request) : Action (Host (ι → Memory)) AccessError Reply :=
  r.2.perform (member layout policy r.1) (touch r.1)

/-- What is asked of one clipboard is done on its own memory alone. -/
theorem demand_eq (i : ι) (request : Request) :
    demand layout policy (i, request) =
      (request.perform ⟨backend (layout i), policy i⟩ fun change => change).zoom
        (Host.viewing fun w => w i) (Host.putting fun m w => Function.update w i m) := by
  cases request with
  | operate op => exact op.perform_zoom (component_update (fun _ => Memory) i) _
  | inject id bytes => rfl
  | hold openings => rfl

variable {d : Host (ι → Memory)} {machines : ι → MemoryMachine}

/-- One request keeps all clipboards in agreement with their machines. -/
theorem demand_agrees (hd : ∀ i, Agrees (Host.viewing (fun w => w i) d) (machines i))
    (i : ι) (request : Request) :
    ∃ d', demand layout policy (i, request) d =
        (.ofExcept (MemoryMachine.step (layout i) (policy i) (machines i) request).1, d') ∧
      ∀ j, Agrees (Host.viewing (fun w => w j) d') (Function.update machines i
        (MemoryMachine.step (layout i) (policy i) (machines i) request).2 j) := by
  obtain ⟨d', hrun, hd'⟩ := perform_agrees (layout i) (policy i) (hd i) request
  refine ⟨Host.putting (fun m w => Function.update w i m) d' d, ?_, fun j => ?_⟩
  · rw [demand_eq, Action.zoom, hrun]
  · by_cases hj : j = i
    · subst hj
      rw [(component_update (fun _ => Memory) j).host.view_put, Function.update_self]
      exact hd'
    · rw [Function.update_of_ne hj]
      have hworld : (Host.putting (fun m w => Function.update w i m) d' d).world j = d.world j :=
        Function.update_of_ne hj _ _
      obtain ⟨hclosed, hheld, hstored, -⟩ := hd j
      constructor
      · rw [Host.viewing, hworld]; exact hclosed
      · rw [Host.viewing, hworld]; exact hheld
      · rw [Host.viewing, hworld]; exact hstored
      · exact hd'.remembered

/-- Any run of requests keeps them in agreement and is answered alike. -/
theorem outcomes_of_agrees (requests : List (ι × Request))
    (hd : ∀ i, Agrees (Host.viewing (fun w => w i) d) (machines i)) :
    Action.outcomes (requests.map (demand layout policy)) d =
      MemoryMachine.answers layout policy requests machines := by
  induction requests generalizing d machines with
  | nil => rfl
  | cons r rest ih =>
      obtain ⟨i, request⟩ := r
      obtain ⟨d', hrun, hd'⟩ := demand_agrees layout policy hd i request
      rw [List.map_cons, Action.outcomes, MemoryMachine.answers, hrun, ih hd']

/-- **Clipboards in memory are simple machines.**  Any number of clipboards in
memory, of either layout and under any policies, are used in one program that
starts with nothing remembered and all of them empty.  Whatever is asked of them,
and in whatever order, the answers are those of the machines. -/
theorem outcomes_eq_answers (requests : List (ι × Request)) :
    Action.outcomes (requests.map (demand layout policy)) { world := fun _ => {} } =
      MemoryMachine.answers layout policy requests fun _ => {} :=
  outcomes_of_agrees layout policy requests fun _ => ⟨rfl, rfl, rfl, Registry.ofMemory_empty⟩

/-- Three refusals span two operations that try twice each. -/
example : MemoryMachine.answers (fun _ : Unit => .windows) (fun _ => { attempts := 2 })
    [((), .operate (.setText "a\r")), ((), .hold 3), ((), .operate .hasText),
      ((), .operate .getText)] (fun _ => {}) =
    [.done .done, .done .done, .done (.flag false), .done (.text "a\n")] := by
  decide

end Family

end Memory

end Clipboard
