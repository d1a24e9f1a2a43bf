import Clipboard.InMemory
import Clipboard.Proofs.Session.Access
import Clipboard.Proofs.Session.Resolving

/-!
# Sessions on a clipboard in memory

What the calls of a session do on a clipboard in memory that holds nothing or the
content of one format.  Its formats may have been remembered before, by this
clipboard or by another one in memory.

* `openHandle_held`, `openHandle_free`: an opening uses up refusals, and gives
  access if there are too few of them;
* `serves_read`, `serves_writeText` and others: the calls of an open session;
* `session_held`, `Serves.session`: a session as a whole.
-/

namespace Clipboard

variable {ε α β : Type}

namespace MemoryLayout

/-- The one format of a kind. -/
def formatOf (layout : MemoryLayout) : Kind → Format
  | .text => layout.textFormat
  | .custom name => ⟨.named name, .opaqueData, true⟩

theorem formatsFor_eq (layout : MemoryLayout) (kind : Kind) :
    layout.formatsFor kind = [layout.formatOf kind] := by
  cases kind <;> rfl

theorem formatOf_writable (layout : MemoryLayout) (kind : Kind) :
    (layout.formatOf kind).writable = true := by
  cases kind with
  | text => cases layout <;> rfl
  | custom name => rfl

theorem name_injective {layout layout' : MemoryLayout} (h : layout.name = layout'.name) :
    layout = layout' := by
  cases layout <;> cases layout' <;> first | rfl | exact absurd h (by decide)

end MemoryLayout

/-- Whatever is remembered of clipboards in memory, they have named. -/
def Registry.OfMemory (r : Registry) : Prop :=
  ∀ (layout : MemoryLayout) (kind : Kind) (kept : List Format),
    r.find? layout.name kind = some kept → kept = layout.formatsFor kind

theorem Registry.ofMemory_empty : ({} : Registry).OfMemory := by
  intro layout kind kept hkept
  simp [Registry.find?] at hkept

theorem Registry.OfMemory.keep {r : Registry} {layout : MemoryLayout} {kind : Kind}
    (h : r.OfMemory) (hnew : r.find? layout.name kind = none) :
    (r.keep layout.name kind (layout.formatsFor kind)).OfMemory := by
  intro layout' kind' kept hkept
  by_cases hkey : (layout.name, kind) = (layout'.name, kind')
  · obtain ⟨hname, rfl⟩ := Prod.mk.inj hkey
    obtain rfl := MemoryLayout.name_injective hname
    rw [Registry.find?_keep_self hnew] at hkept
    exact (Option.some.inj hkept).symm
  · rw [Registry.find?_keep_of_ne hkey] at hkept
    exact h layout' kind' kept hkept

/-- Nothing, or octets in one format. -/
abbrev Content : Type := Option (Format.Id × Octets)

/-- The octets in a format, if that is the one. -/
def Content.octets? (content : Content) (id : Format.Id) : Option Octets :=
  match content with
  | some (id', bytes) => if id' = id then some bytes else none
  | none => none

theorem contentOf?_toList (content : Content) (id : Format.Id) :
    contentOf? content.toList id = content.octets? id := by
  rcases content with _ | ⟨id', bytes⟩
  · rfl
  · by_cases hid : id' = id <;> simp [contentOf?, Content.octets?, hid]

/-- The content of a kind, which is there if it is in the format of that kind. -/
def Content.read (content : Content) (layout : MemoryLayout) (kind : Kind) :
    Except AccessError Payload :=
  match content.octets? (layout.formatOf kind).id with
  | some bytes => .ok ⟨bytes, (layout.formatOf kind).encoding⟩
  | none => .error (.absent kind)

/-- The content as text. -/
def Content.readText (content : Content) (layout : MemoryLayout) : Except AccessError String :=
  match content.read layout .text with
  | .ok p => (p.text layout.convention).mapError .ofText
  | .error e => .error e

/-- What becomes of the content when a text is put in its place, which must be one
that the layout can write. -/
def Content.writeText (content : Content) (layout : MemoryLayout) (text : String) :
    Except AccessError Unit × Content :=
  match Payload.ofText text layout.textFormat.encoding layout.convention with
  | .ok p => (.ok (), some (layout.textFormat.id, p.bytes))
  | .error fault => (.error (.ofText fault), content)

namespace Memory

/-- A clipboard in memory within a session. -/
structure Serving (d : Host Memory) (content : Content) : Prop where
  opened : d.world.isOpen = true
  free : d.world.held = 0
  stored : d.world.entries = content.toList
  remembered : d.registry.OfMemory

/-- A clipboard in memory between sessions, with the refusals that are left. -/
structure Resting (d : Host Memory) (content : Content) (refusals : Nat) : Prop where
  closed : d.world.isOpen = false
  held : d.world.held = refusals
  stored : d.world.entries = content.toList
  remembered : d.registry.OfMemory

section Opening

variable {p : Policy} {m : Memory}

/-- The clipboard after some refusals. -/
def refuse (m : Memory) (openings : Nat) : Memory :=
  { m with held := m.held - openings, attempts := m.attempts + openings }

/-- The clipboard once opened, after its last refusals. -/
def enter (m : Memory) : Memory :=
  { m with held := 0, attempts := m.attempts + m.held + 1, isOpen := true }

theorem acquire_of_held (hheld : 0 < m.held) :
    acquire m = (.failed (.busy "held by another owner"), m.refuse 1) := by
  simp [acquire, refuse, hheld]

theorem acquire_of_free (hfree : m.held = 0) (hclosed : m.isOpen = false) :
    acquire m = (.done (), m.enter) := by
  simp [acquire, enter, hfree, hclosed]

/-- As long as refusals are left, every try is refused. -/
theorem openingFrom_held (layout : MemoryLayout) (p : Policy) (n left : Nat)
    (hheld : left < m.held) :
    ∃ pauses, (backend layout).openingFrom p n left m =
      (⟨n + left, pauses, .failed (.busy "held by another owner")⟩, m.refuse (left + 1)) := by
  have hpos : 0 < m.held := by omega
  have hacq : (backend layout).acquire m = _ := acquire_of_held hpos
  induction left generalizing n m with
  | zero => exact ⟨[], by rw [Backend.openingFrom, hacq]; rfl⟩
  | succ left ih =>
      have hheld' : left < (m.refuse 1).held := by
        simp only [refuse]
        omega
      have hpos' : 0 < (m.refuse 1).held := by omega
      obtain ⟨pauses, hrest⟩ := ih (n + 1) hheld' hpos' (acquire_of_held hpos')
      have hstate : (m.refuse 1).refuse (left + 1) = m.refuse (left + 1 + 1) := by
        simp only [refuse, Memory.mk.injEq, true_and]
        omega
      refine ⟨p.pause n :: pauses, ?_⟩
      rw [Backend.openingFrom, hacq]
      dsimp only
      rw [hrest, hstate, Nat.add_right_comm n 1 left, Nat.add_assoc n left 1]

/-- With fewer refusals than tries, one try gives access. -/
theorem openingFrom_free (layout : MemoryLayout) (p : Policy) (n left : Nat)
    (hheld : m.held ≤ left) (hclosed : m.isOpen = false) :
    ∃ tries pauses,
      (backend layout).openingFrom p n left m = (⟨tries, pauses, .done ()⟩, m.enter) := by
  induction left generalizing n m with
  | zero =>
      have hacq : (backend layout).acquire m = _ := acquire_of_free (by omega) hclosed
      exact ⟨n, [], by rw [Backend.openingFrom, hacq]⟩
  | succ left ih =>
      by_cases hpos : 0 < m.held
      · have hacq : (backend layout).acquire m = _ := acquire_of_held hpos
        have hheld' : (m.refuse 1).held ≤ left := by
          simp only [refuse]
          omega
        obtain ⟨tries, pauses, hrest⟩ := ih (n + 1) hheld' hclosed
        have hstate : (m.refuse 1).enter = m.enter := by
          simp only [refuse, enter, Memory.mk.injEq, true_and]
          omega
        refine ⟨tries, p.pause n :: pauses, ?_⟩
        rw [Backend.openingFrom, hacq]
        dsimp only
        rw [hrest, hstate]
      · have hacq : (backend layout).acquire m = _ := acquire_of_free (by omega) hclosed
        exact ⟨n, [], by rw [Backend.openingFrom, hacq]⟩

variable {d : Host Memory} {content : Content} {refusals : Nat}

/-- An opening that is refused until the end uses up as many refusals as tries. -/
theorem openHandle_held (layout : MemoryLayout) (hd : Resting d content refusals)
    (hheld : p.tries ≤ refusals) :
    ∃ d', (backend layout).openHandle p d =
        (.failed (.acquireFailed p.tries "clipboard busy: held by another owner"), d') ∧
      Resting d' content (refusals - p.tries) := by
  have hpos : 1 ≤ p.tries := Nat.le_max_left 1 p.attempts
  have hleft : p.tries - 1 + 1 = p.tries := Nat.sub_add_cancel hpos
  have hlt : p.tries - 1 < d.world.held := by
    rw [hd.held]
    omega
  obtain ⟨pauses, hrun⟩ := openingFrom_held layout p 1 (p.tries - 1) hlt
  rw [hleft, Nat.add_comm 1, hleft] at hrun
  refine ⟨{ d with world := d.world.refuse p.tries }, ?_, hd.closed, ?_, hd.stored, hd.remembered⟩
  · rw [Backend.openHandle, Backend.opening, hrun]
    rfl
  · rw [← hd.held]
    rfl

/-- An opening with fewer refusals than tries uses them up and gives access. -/
theorem openHandle_free (layout : MemoryLayout) (hd : Resting d content refusals)
    (hheld : refusals < p.tries) :
    ∃ d', (backend layout).openHandle p d = (.done ⟨backend layout, true⟩, d') ∧
      Serving d' content := by
  have hle : d.world.held ≤ p.tries - 1 := by
    rw [hd.held]
    omega
  obtain ⟨tries, pauses, hrun⟩ := openingFrom_free layout p 1 (p.tries - 1) hle hd.closed
  exact ⟨{ d with world := d.world.enter }, Backend.openHandle_of_granted hrun, rfl, rfl,
    hd.stored, hd.remembered⟩

end Opening

/-- Within a session, a call comes to this outcome and leaves this content. -/
def Serves (x : Action (Host Memory) ε α) (content : Content) (o : Outcome ε α)
    (content' : Content) : Prop :=
  ∀ d, Serving d content → ∃ d', x d = (o, d') ∧ Serving d' content'

section Serves

variable {x : Action (Host Memory) ε α} {f : α → Action (Host Memory) ε β} {a : α} {e : ε}
  {o : Outcome ε β} {content content₁ content₂ : Content}

theorem serves_pure (a : α) :
    Serves (pure a : Action (Host Memory) ε α) content (.done a) content :=
  fun d hd => ⟨d, rfl, hd⟩

theorem serves_fail (e : ε) :
    Serves (.fail e : Action (Host Memory) ε α) content (.failed e) content :=
  fun d hd => ⟨d, rfl, hd⟩

theorem serves_ofExcept (r : Except ε α) : Serves (.ofExcept r) content (.ofExcept r) content :=
  fun d hd => ⟨d, rfl, hd⟩

theorem Serves.bind (hx : Serves x content (.done a) content₁)
    (hf : Serves (f a) content₁ o content₂) : Serves (x >>= f) content o content₂ := by
  intro d hd
  obtain ⟨d₁, hrun, hd₁⟩ := hx d hd
  rw [Action.bind_done hrun]
  exact hf d₁ hd₁

theorem Serves.bind_failed (hx : Serves x content (.failed e) content₁) :
    Serves (x >>= f) content (.failed e) content₁ := by
  intro d hd
  obtain ⟨d₁, hrun, hd₁⟩ := hx d hd
  exact ⟨d₁, Action.bind_failed hrun f, hd₁⟩

theorem Serves.mapCause {δ : Type} {o : Outcome ε α} (g : ε → δ)
    (hx : Serves x content o content₁) : Serves (x.mapCause g) content (o.mapCause g) content₁ := by
  intro d hd
  obtain ⟨d₁, hrun, hd₁⟩ := hx d hd
  exact ⟨d₁, by rw [Action.mapCause_apply, hrun], hd₁⟩

theorem Serves.recover_done (g : ε → α) (hx : Serves x content (.done a) content₁) :
    Serves (x.recover g) content (.done a) content₁ := by
  intro d hd
  obtain ⟨d₁, hrun, hd₁⟩ := hx d hd
  exact ⟨d₁, Action.recover_done hrun g, hd₁⟩

theorem Serves.recover_failed (g : ε → α) (hx : Serves x content (.failed e) content₁) :
    Serves (x.recover g) content (.done (g e)) content₁ := by
  intro d hd
  obtain ⟨d₁, hrun, hd₁⟩ := hx d hd
  exact ⟨d₁, Action.recover_failed hrun g, hd₁⟩

end Serves

section Calls

variable (layout : MemoryLayout) (content : Content)

/-- Formats of memory are those of its layout, remembered or not. -/
theorem serves_resolve (kind : Kind) :
    Serves ((backend layout).resolve kind) content (.done [layout.formatOf kind]) content := by
  intro d hd
  rw [← layout.formatsFor_eq kind]
  cases hfind : d.registry.find? layout.name kind with
  | some kept =>
      obtain rfl := hd.remembered layout kind kept hfind
      exact ⟨d, Backend.resolve_of_find? hfind, hd⟩
  | none =>
      have hne : layout.formatsFor kind ≠ [] := by
        rw [layout.formatsFor_eq]
        exact List.cons_ne_nil _ _
      exact ⟨_, Backend.resolve_of_formats hfind rfl hne, hd.opened, hd.free, hd.stored,
        hd.remembered.keep hfind⟩

/-- Only the format of the content is on offer. -/
theorem serves_pick (f : Format) :
    Serves ((⟨backend layout, true⟩ : Handle Memory).pick [f]) content
      (.done (if (content.octets? f.id).isSome then some f else none)) content := by
  intro d hd
  have hoffers : (backend layout).offers f.id d.world =
      (.done (content.octets? f.id).isSome, d.world) := by
    simp [backend, whileOpen, peek, hd.opened, hd.stored, contentOf?_toList]
  have hpick : (backend layout).pick [f] d.world =
      (.done (if (content.octets? f.id).isSome then some f else none), d.world) := by
    show probe (backend layout).offers [f] d.world = _
    rw [probe_cons, hoffers]
    cases (content.octets? f.id).isSome <;> rfl
  exact ⟨d, Action.mapCause_of_done (Host.on_done hpick), hd⟩

theorem serves_take (f : Format) :
    Serves (Host.on ((backend layout).read f)) content
      (.done ((content.octets? f.id).map (⟨·, f.encoding⟩))) content := by
  intro d hd
  have hread : (backend layout).read f d.world =
      (.done ((content.octets? f.id).map (⟨·, f.encoding⟩)), d.world) := by
    simp [backend, whileOpen, peek, hd.opened, hd.stored, contentOf?_toList]
  exact ⟨d, Host.on_done hread, hd⟩

theorem serves_offers (kind : Kind) :
    Serves ((⟨backend layout, true⟩ : Handle Memory).offers kind) content
      (.done (content.octets? (layout.formatOf kind).id).isSome) content := by
  refine (serves_pure ()).bind (((serves_resolve layout content kind).mapCause _).bind
    ((serves_pick layout content _).bind ?_))
  cases (content.octets? (layout.formatOf kind).id).isSome <;> exact serves_pure _

/-- Content is read if it is in the format of the kind that is asked for. -/
theorem serves_read (kind : Kind) :
    Serves ((⟨backend layout, true⟩ : Handle Memory).read kind) content
      (.ofExcept (content.read layout kind)) content := by
  refine (serves_pure ()).bind (((serves_resolve layout content kind).mapCause _).bind
    ((serves_pick layout content _).bind ?_))
  have htake := (serves_take layout content (layout.formatOf kind)).mapCause
    AccessError.ofReading
  unfold Content.read
  cases hoctets : content.octets? (layout.formatOf kind).id with
  | none => exact serves_fail _
  | some bytes =>
      rw [hoctets] at htake
      exact htake.bind (serves_pure _)

theorem serves_bytes (kind : Kind) :
    Serves (do return (← (⟨backend layout, true⟩ : Handle Memory).read kind).bytes) content
      (.ofExcept ((content.read layout kind).map (·.bytes))) content := by
  have hread := serves_read layout content kind
  cases hcontent : content.read layout kind with
  | error e =>
      rw [hcontent] at hread
      exact hread.bind_failed
  | ok p =>
      rw [hcontent] at hread
      exact hread.bind (serves_pure _)

theorem serves_readText :
    Serves (⟨backend layout, true⟩ : Handle Memory).readText content
      (.ofExcept (content.readText layout)) content := by
  have hread := serves_read layout content .text
  unfold Content.readText
  cases hcontent : content.read layout .text with
  | error e =>
      rw [hcontent] at hread
      exact hread.bind_failed
  | ok p =>
      rw [hcontent] at hread
      exact hread.bind (serves_ofExcept _)

theorem serves_hasText :
    Serves (⟨backend layout, true⟩ : Handle Memory).hasText content
      (.done (content.readText layout).isOk) content := by
  have hoffers := serves_offers layout content .text
  cases hoctets : content.octets? (layout.formatOf .text).id with
  | none =>
      have hnone : (content.readText layout).isOk = false := by
        simp [Content.readText, Content.read, hoctets, Except.isOk, Except.toBool]
      rw [hoctets] at hoffers
      rw [hnone]
      exact Serves.recover_done _ (hoffers.bind (serves_pure false))
  | some bytes =>
      have htext := serves_readText layout content
      rw [hoctets] at hoffers
      cases hread : content.readText layout with
      | error e =>
          rw [hread] at htext
          exact Serves.recover_failed _ (hoffers.bind htext.bind_failed)
      | ok text =>
          rw [hread] at htext
          exact Serves.recover_done _ (hoffers.bind (htext.bind (serves_pure true)))

theorem serves_store (f : Format) (p : Payload) :
    Serves ((⟨backend layout, true⟩ : Handle Memory).store [(f, p)]) content (.done ())
      (some (f.id, p.bytes)) := by
  intro d hd
  have hwrite : (backend layout).write [(f, p)] d.world =
      (.done (), { d.world with entries := [(f.id, p.bytes)] }) := by
    simp [backend, whileOpen, hd.opened]
  refine ⟨{ d with world := { d.world with entries := [(f.id, p.bytes)] } }, ?_, hd.opened,
    hd.free, rfl, hd.remembered⟩
  exact Action.mapCause_of_done (Host.on_done hwrite)

/-- Octets are kept as they are, in the format of their kind. -/
theorem serves_write (kind : Kind) (bytes : Octets) :
    Serves ((⟨backend layout, true⟩ : Handle Memory).write kind bytes) content (.done ())
      (some ((layout.formatOf kind).id, bytes)) := by
  have hitems : Handle.itemsOfOctets bytes [layout.formatOf kind] =
      [(layout.formatOf kind, ⟨bytes, (layout.formatOf kind).encoding⟩)] := by
    simp [Handle.itemsOfOctets, layout.formatOf_writable kind]
  refine (serves_pure ()).bind (((serves_resolve layout content kind).mapCause _).bind ?_)
  rw [hitems]
  exact serves_store layout content _ _

theorem serves_encode (text : String) :
    Serves (.ofExcept ((Handle.itemsOfText text layout.convention
        [layout.formatOf .text]).mapError AccessError.ofText)) content
      (.ofExcept (((Payload.ofText text layout.textFormat.encoding layout.convention).map
        fun p => [(layout.textFormat, p)]).mapError AccessError.ofText)) content := by
  have htakes : [layout.formatOf .text].filter (·.takesText) = [layout.textFormat] := by
    cases layout <;> rfl
  rw [Handle.itemsOfText, htakes, Handle.encodeEach]
  cases Payload.ofText text layout.textFormat.encoding layout.convention <;>
    exact serves_ofExcept _

/-- A text is kept as the layout writes it, or changes nothing. -/
theorem serves_writeText (text : String) :
    Serves ((⟨backend layout, true⟩ : Handle Memory).writeText text) content
      (.ofExcept (content.writeText layout text).1) (content.writeText layout text).2 := by
  have hencode := serves_encode layout content text
  refine (serves_pure ()).bind (((serves_resolve layout content .text).mapCause _).bind ?_)
  unfold Content.writeText
  cases hp : Payload.ofText text layout.textFormat.encoding layout.convention with
  | error fault =>
      rw [hp] at hencode
      exact hencode.bind_failed
  | ok p =>
      rw [hp] at hencode
      exact hencode.bind (serves_store layout content _ p)

theorem serves_clear :
    Serves (⟨backend layout, true⟩ : Handle Memory).clear content (.done ()) none := by
  intro d hd
  have hclear : (backend layout).clear d.world = (.done (), { d.world with entries := [] }) := by
    simp [backend, whileOpen, hd.opened]
  refine ⟨{ d with world := { d.world with entries := [] } }, ?_, hd.opened, hd.free, rfl,
    hd.remembered⟩
  rw [Handle.clear, Handle.ensureOpen_of_open, pure_bind]
  exact Action.mapCause_of_done (Host.on_done hclear)

end Calls

section Session

variable {layout : MemoryLayout} {p : Policy} {d : Host Memory} {content content' : Content}
  {refusals : Nat} {o : Outcome AccessError α}
  (body : Handle Memory → Action (Host Memory) AccessError α)

/-- A session that is refused until the end leaves the content alone. -/
theorem session_held (layout : MemoryLayout) (hd : Resting d content refusals)
    (hheld : p.tries ≤ refusals) :
    ∃ d', (⟨backend layout, p⟩ : Board Memory).session body d =
        (.failed (.acquireFailed p.tries "clipboard busy: held by another owner"), d') ∧
      Resting d' content (refusals - p.tries) := by
  obtain ⟨d', hopen, hd'⟩ := openHandle_held layout hd hheld
  exact ⟨d', Board.session_of_failed hopen, hd'⟩

/-- Any other session does what its body does, and no refusals are left. -/
theorem Serves.session (hbody : Serves (body ⟨backend layout, true⟩) content o content')
    (hd : Resting d content refusals) (hheld : refusals < p.tries) :
    ∃ d', (⟨backend layout, p⟩ : Board Memory).session body d = (o, d') ∧
      Resting d' content' 0 := by
  obtain ⟨d₁, hopen, hd₁⟩ := openHandle_free layout hd hheld
  obtain ⟨d₂, hrun, hd₂⟩ := hbody d₁ hd₁
  exact ⟨{ d₂ with world := { d₂.world with isOpen := false } },
    Board.session_of_open hopen hrun rfl, rfl, hd₂.free, hd₂.stored, hd₂.remembered⟩

end Session

end Memory

end Clipboard
