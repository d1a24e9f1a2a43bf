import Clipboard.Helper.Toolbox
import Clipboard.Proofs.Helper.Listings
import Clipboard.Proofs.Helper.Runs
import Clipboard.Proofs.Session.Apart
import Clipboard.Proofs.Session.Offering
import Clipboard.Proofs.Text.RoundTrip

/-!
# Content that a helper tool keeps

A helper tool is another program, and all that is known of it is how it answers.  A `Keeper`
is one that keeps what it is fed under a name, lists the name among whatever else it lists,
and pastes the content when it is asked for it by name.  Over such a tool the clipboard keeps
what is set: the name under which it is written is the first that is looked for, so that
nothing else that is listed is read in its place.

* `store_eq_done_iff`: putting an item on the clipboard is a run that copies;
* `kept_of_session`: content that has been put there is kept;
* `Kept.read`: content that is kept is read;
* `set_got`: what is set is got.
-/

namespace Clipboard

open Action

variable {σ ε α : Type}

/-! ## The formats of a tool -/

namespace Tool

/-- Content of any kind has a format. -/
theorem formatsFor_ne_nil (tool : Tool) (kind : Kind) : tool.formatsFor kind ≠ [] := by
  cases kind with
  | text => cases tool <;> exact List.cons_ne_nil _ _
  | custom name => exact List.cons_ne_nil _ _

/-- The format that content of a kind is written in, which is preferred when it is read. -/
def written (tool : Tool) (kind : Kind) : Format :=
  (tool.formatsFor kind).head (tool.formatsFor_ne_nil kind)

/-- The name that content of a kind is written under. -/
def writtenName (tool : Tool) (kind : Kind) : String := (tool.written kind).id.display

theorem formatsFor_eq (tool : Tool) (kind : Kind) :
    tool.formatsFor kind = tool.written kind :: (tool.formatsFor kind).tail :=
  (List.cons_head_tail (tool.formatsFor_ne_nil kind)).symm

/-- Text is written in no other format. -/
theorem takesText_formatsFor (tool : Tool) :
    (tool.formatsFor .text).filter (·.takesText) = [tool.written .text] := by
  cases tool <;> rfl

theorem encoding_written (tool : Tool) : (tool.written .text).encoding = .utf8 := by
  cases tool <;> rfl

/-- The name that text is written under can be listed, and is not that of the listing itself. -/
theorem listable_text (tool : Tool) :
    Listable (tool.writtenName .text) ∧
      (tool = .xclip → tool.writtenName .text ≠ "TARGETS") := by
  cases tool <;> decide

/-- Only the name of the listing itself is asked for as a listing is. -/
theorem readArguments_ne {tool : Tool} {name : String} (h : tool = .xclip → name ≠ "TARGETS") :
    tool.readArguments name ≠ tool.listArguments := by
  cases tool with
  | xclip => simpa [readArguments, listArguments] using h
  | wlClipboard => simp [readArguments, listArguments]

theorem target_written (tool : Tool) (kind : Kind) :
    Helper.target (tool.written kind).id = .ok (tool.writtenName kind) := by
  cases kind with
  | text => cases tool <;> rfl
  | custom name => rfl

/-- The formats that are remembered of a tool, if any are, are its own. -/
def KnownBy (tool : Tool) (registry : Registry) : Prop :=
  ∀ kind formats, registry.find? tool.name kind = some formats → formats = tool.formatsFor kind

theorem KnownBy.keep {tool : Tool} {registry : Registry} (h : tool.KnownBy registry)
    (kind : Kind) : tool.KnownBy (registry.keep tool.name kind (tool.formatsFor kind)) := by
  intro kind' formats hfind
  rw [Registry.find?_keep] at hfind
  cases hkept : registry.find? tool.name kind' with
  | some kept =>
      rw [hkept] at hfind
      exact h kind' formats (hkept.trans hfind)
  | none =>
      rw [hkept, Option.none_or] at hfind
      split at hfind
      · next hkey =>
        cases hkey
        exact (Option.some.inj hfind).symm
      · cases hfind

end Tool

namespace Helper

variable {h : Helper} {l : Launcher σ} {p : Policy}

/-! ## Formats that are remembered -/

/-- The formats of a tool are its own, remembered or not, and are remembered as such. -/
theorem resolve_eq {d : Host σ} (hknown : h.tool.KnownBy d.registry) (kind : Kind) :
    ∃ d', (h.backend l).resolve kind d = (.done (h.tool.formatsFor kind), d') ∧
      d'.world = d.world ∧ h.tool.KnownBy d'.registry := by
  cases hfind : d.registry.find? h.tool.name kind with
  | some formats =>
      obtain rfl := hknown kind formats hfind
      exact ⟨d, Backend.resolve_of_find? hfind, rfl, hknown⟩
  | none =>
      have hasked : (h.backend l).formatsFor kind d.world =
          (.done (h.tool.formatsFor kind), d.world) := rfl
      exact ⟨_, Backend.resolve_of_formats hfind hasked (h.tool.formatsFor_ne_nil kind), rfl,
        hknown.keep kind⟩

/-- Operations over the tool remember no other formats of it. -/
theorem perform_known (op : Operation) {d : Host σ} (hknown : h.tool.KnownBy d.registry) :
    h.tool.KnownBy (op.perform ⟨h.backend l, p⟩ d).2.registry := by
  have hbounds : Bounds fun d d' : Host σ =>
      h.tool.KnownBy d.registry → h.tool.KnownBy d'.registry :=
    ⟨fun _ hd => hd, fun h₁ h₂ hd => h₂ (h₁ hd)⟩
  have hon {ε α : Type} (x : Action σ ε α) : Confined (fun d d' : Host σ =>
      h.tool.KnownBy d.registry → h.tool.KnownBy d'.registry) (Host.on x) := fun _ hd => hd
  have hresolve (kind : Kind) : Confined (fun d d' : Host σ =>
      h.tool.KnownBy d.registry → h.tool.KnownBy d'.registry) ((h.backend l).resolve kind) := by
    intro d hd
    obtain ⟨d', hrun, -, hd'⟩ := resolve_eq (l := l) hd kind
    rw [hrun]
    exact hd'
  have hlooks : Looks (h.backend l) _ :=
    ⟨hbounds, hon _, hon _, hresolve, fun _ => hon _, fun _ => hon _⟩
  exact hlooks.perform (fun _ => hon _) (hon _) p op d hknown

/-- Nor does anything that is done on clipboards of the tool and of other names. -/
theorem leftBy_known {tool : Tool} {steps : List (Board σ × Operation)}
    (hsteps : ∀ step ∈ steps, step.1.backend.name = tool.name →
      ∃ (h : Helper) (l : Launcher σ), h.tool = tool ∧ step.1.backend = h.backend l)
    {d : Host σ} (hknown : tool.KnownBy d.registry) :
    tool.KnownBy (leftBy (steps.map fun step => step.2.perform step.1) d).registry := by
  induction steps generalizing d with
  | nil => exact hknown
  | cons step rest ih =>
      obtain ⟨⟨b, p⟩, op⟩ := step
      obtain ⟨hstep, hrest⟩ := List.forall_mem_cons.mp hsteps
      refine ih hrest ?_
      by_cases hname : b.name = tool.name
      · obtain ⟨h, l, rfl, rfl⟩ := hstep hname
        exact perform_known op hknown
      · intro kind formats hfind
        rw [op.perform_elsewhere ⟨b, p⟩ hname] at hfind
        exact hknown kind formats hfind

/-! ## Content that is kept -/

/-- A tool that keeps what it is fed.  It has content under a name once a run that copies has
taken it in and succeeded.  From then on it can be found, it lists the name, and it pastes the
content, unless being asked for that name is being asked for a listing. -/
structure Keeper (h : Helper) (l : Launcher σ) (Has : String → Octets → σ → Prop) : Prop where
  /-- What can be found has no NUL in its name. -/
  passable : '\x00' ∉ h.paste.toList
  found : ∀ {name bytes s}, Has name bytes s →
    l.finds h.copy s = true ∧ l.finds h.paste s = true
  copies : ∀ {name bytes c s s'}, l.run (h.copying name bytes) s = (.done c, s') →
    c.broken = false → c.ending.isSuccess = true → Has name bytes s'
  lists : ∀ {name bytes s}, Has name bytes s → ∃ c s', l.run h.listing s = (.done c, s') ∧
    c.ending.isSuccess = true ∧ Lists c.output name ∧ Has name bytes s'
  pastes : ∀ {name bytes s}, Has name bytes s → h.pasting name ≠ h.listing →
    ∃ c s', l.run (h.pasting name) s = (.done c, s') ∧ c.ending.isSuccess = true ∧
      c.output = bytes ∧ Has name bytes s'

/-- A program over a tool that has content of a kind, and can be asked for it. -/
structure Kept (h : Helper) (Has : String → Octets → σ → Prop) (kind : Kind) (bytes : Octets)
    (d : Host σ) : Prop where
  display : h.display.isSome = true
  listing_passable : h.listing.holdsNul = false
  pasting_passable : (h.pasting (h.tool.writtenName kind)).holdsNul = false
  listable : Listable (h.tool.writtenName kind)
  distinct : h.pasting (h.tool.writtenName kind) ≠ h.listing
  has : Has (h.tool.writtenName kind) bytes d.world
  known : h.tool.KnownBy d.registry

variable {Has : String → Octets → σ → Prop} {kind : Kind} {bytes : Octets} {d d' : Host σ}

/-- Whether a tool takes content under a name: it can be found, and a run that copies can be
made, takes all in and succeeds. -/
def Takes (h : Helper) (l : Launcher σ) (name : String) (bytes : Octets) (s : σ) : Prop :=
  h.Found l s ∧ (h.copying name bytes).holdsNul = false ∧
    ∃ c s', l.run (h.copying name bytes) s = (.done c, s') ∧ c.broken = false ∧
      c.ending.isSuccess = true

/-- Putting one item on the clipboard is a run that copies. -/
theorem store_eq_done_iff {payload : Payload} :
    (⟨h.backend l, true⟩ : Handle σ).store [(h.tool.written kind, payload)] d = (.done (), d') ↔
      d'.registry = d.registry ∧
        (h.copying (h.tool.writtenName kind) payload.bytes).holdsNul = false ∧
        ∃ c, l.run (h.copying (h.tool.writtenName kind) payload.bytes) d.world =
            (.done c, d'.world) ∧ c.broken = false ∧ c.ending.isSuccess = true := by
  have hwrite : h.write l [(h.tool.written kind, payload)] =
      h.feed l (h.tool.writeArguments (h.tool.writtenName kind)) payload.bytes := by
    funext s
    rw [write, h.tool.target_written kind, bind_done (ofExcept_ok _ s)]
  have hstore : (⟨h.backend l, true⟩ : Handle σ).store [(h.tool.written kind, payload)] =
      (Host.on (h.feed l (h.tool.writeArguments (h.tool.writtenName kind))
        payload.bytes)).mapCause .ofWriting := by
    rw [← hwrite]
    rfl
  rw [hstore]
  constructor
  · intro hrun
    obtain ⟨hfeed, hregistry⟩ := Host.on_eq_done (mapCause_eq_done hrun)
    obtain ⟨c, hcopied, hend⟩ := feed_eq_done_iff.mp hfeed
    obtain ⟨hnul, hcopied⟩ := run_eq_done hcopied
    exact ⟨hregistry, hnul, c, hcopied, hend⟩
  · rintro ⟨hregistry, hnul, c, hcopied, hend⟩
    have hfeed := feed_eq_done_iff.mpr ⟨c, run_of_done hnul hcopied, hend⟩
    rw [mapCause_of_done (Host.on_done hfeed), ← hregistry]

/-- Whether a session comes to putting one item of a kind on the clipboard, with the formats of
the tool remembered. -/
def Puts (h : Helper) (l : Launcher σ) (kind : Kind) (payload : Payload)
    (body : Handle σ → Action (Host σ) AccessError Unit) (d : Host σ) : Prop :=
  ∃ d₁ : Host σ, d₁.world = d.world ∧ h.tool.KnownBy d₁.registry ∧
    body ⟨h.backend l, true⟩ d =
      (⟨h.backend l, true⟩ : Handle σ).store [(h.tool.written kind, payload)] d₁

/-- Setting a text does. -/
theorem writeText_puts (l : Launcher σ) (hknown : h.tool.KnownBy d.registry) (text : String) :
    h.Puts l .text ⟨Utf8.encode (LineBreaks.unify text.toList), .utf8⟩ (·.writeText text) d := by
  obtain ⟨d₁, hresolve, hworld, hknown'⟩ := resolve_eq (l := l) hknown .text
  have hitems : Handle.itemsOfText text .unix (h.tool.formatsFor .text) =
      .ok [(h.tool.written .text, ⟨Utf8.encode (LineBreaks.unify text.toList), .utf8⟩)] := by
    rw [Handle.itemsOfText, h.tool.takesText_formatsFor, Handle.encodeEach,
      h.tool.encoding_written, Payload.ofText_unix]
    rfl
  refine ⟨d₁, hworld, hknown', (congrFun (Handle.writeText_eq _ text) d).trans ?_⟩
  apply Handle.handing_of_done hresolve
  exact congrArg (Except.mapError AccessError.ofText) hitems

/-- So does setting octets under a name. -/
theorem write_puts (l : Launcher σ) (hknown : h.tool.KnownBy d.registry) (name : String)
    (bytes : Octets) :
    h.Puts l (.custom name) ⟨bytes, .opaqueData⟩ (·.write (.custom name) bytes) d := by
  obtain ⟨d₁, hresolve, hworld, hknown'⟩ := resolve_eq (l := l) hknown (.custom name)
  refine ⟨d₁, hworld, hknown', (congrFun (Handle.write_eq _ _ bytes) d).trans ?_⟩
  exact Handle.handing_of_done hresolve rfl

section Puts

variable {body : Handle σ → Action (Host σ) AccessError Unit} {payload : Payload}
  (hputs : h.Puts l kind payload body d)

include hputs

/-- Content is put there if the tool takes it. -/
theorem session_eq_done_iff :
    ((⟨h.backend l, p⟩ : Board σ).session body d).1 = .done () ↔
      h.Takes l (h.tool.writtenName kind) payload.bytes d.world := by
  obtain ⟨d₁, hworld, -, hstore⟩ := hputs
  constructor
  · intro hdone
    have hfound := found_of_session hdone
    rw [session_of_found hfound, hstore] at hdone
    obtain ⟨-, hnul, c, hcopied, hend⟩ := store_eq_done_iff.mp (Prod.ext hdone rfl)
    exact ⟨hfound, hnul, c, _, hworld ▸ hcopied, hend⟩
  · rintro ⟨hfound, hnul, c, s', hcopied, hend⟩
    rw [session_of_found hfound, hstore]
    rw [← hworld] at hcopied
    have hput : (⟨h.backend l, true⟩ : Handle σ).store [(h.tool.written kind, payload)] d₁ =
        (.done (), ⟨s', d₁.registry⟩) := store_eq_done_iff.mpr ⟨rfl, hnul, c, hcopied, hend⟩
    rw [hput]

/-- Content that has been put there is kept. -/
theorem kept_of_session (hkeeper : h.Keeper l Has)
    (hlistable : Listable (h.tool.writtenName kind))
    (hdistinct : h.tool = .xclip → h.tool.writtenName kind ≠ "TARGETS")
    (hdone : ((⟨h.backend l, p⟩ : Board σ).session body d).1 = .done ()) :
    h.Kept Has kind payload.bytes ((⟨h.backend l, p⟩ : Board σ).session body d).2 := by
  obtain ⟨d₁, -, hknown, hstore⟩ := hputs
  have hfound := found_of_session hdone
  rw [session_of_found hfound, hstore] at hdone ⊢
  obtain ⟨hregistry, hnul, c, hcopied, hbroken, hsuccess⟩ :=
    store_eq_done_iff.mp (Prod.ext hdone rfl)
  obtain ⟨hname, hvalue⟩ := passable_of_copying hnul
  obtain ⟨hread, hlist⟩ := passable_arguments h.tool hname
  exact
    { display := hfound.1
      listing_passable := holdsNul_eq_false_iff.mpr ⟨hkeeper.passable, hlist, hvalue⟩
      pasting_passable := holdsNul_eq_false_iff.mpr ⟨hkeeper.passable, hread, hvalue⟩
      listable := hlistable
      distinct := fun heq => Tool.readArguments_ne hdistinct (congrArg Invocation.arguments heq)
      has := hkeeper.copies hcopied hbroken hsuccess
      known := hregistry ▸ hknown }

end Puts

namespace Kept

theorem formatsToRead (l : Launcher σ) (hd : h.Kept Has kind bytes d) :
    ∃ d', (⟨h.backend l, true⟩ : Handle σ).formatsToRead kind d =
      (.done (h.tool.formatsFor kind), d') ∧ h.Kept Has kind bytes d' := by
  obtain ⟨d', hrun, hworld, hknown⟩ := resolve_eq (l := l) hd.known kind
  exact ⟨d', mapCause_of_done hrun, { hd with has := hworld ▸ hd.has, known := hknown }⟩

variable (hkeeper : h.Keeper l Has)

include hkeeper

/-- The search stops at the name that content is written under, whatever else is listed. -/
theorem pick (hd : h.Kept Has kind bytes d) :
    ∃ d', (⟨h.backend l, true⟩ : Handle σ).pick (h.tool.formatsFor kind) d =
      (.done (some (h.tool.written kind)), d') ∧ h.Kept Has kind bytes d' := by
  obtain ⟨c, s', hrun, hsuccess, hlists, hhas⟩ := hkeeper.lists hd.has
  have hlisted : h.listed l d.world = (.done (namesIn c.output), s') :=
    listed_of_success (run_of_done hd.listing_passable hrun) hsuccess
  have hcontains : (namesIn c.output).contains (h.tool.writtenName kind) = true :=
    List.contains_iff_mem.mpr (hlists.mem_namesIn hd.listable)
  have hpicked : pickListed target (namesIn c.output) (h.tool.formatsFor kind) =
      .ok (some (h.tool.written kind)) := by
    rw [h.tool.formatsFor_eq kind, pickListed_cons (h.tool.target_written kind), if_pos hcontains]
  have hpick : (h.backend l).pick (h.tool.formatsFor kind) d.world =
      (.done (some (h.tool.written kind)), s') := by
    have hsearch := bind_done hlisted fun listed =>
      ofExcept (pickListed target listed (h.tool.formatsFor kind))
    rw [hpicked] at hsearch
    exact hsearch
  exact ⟨_, mapCause_of_done (Host.on_done hpick), { hd with has := hhas, known := hd.known }⟩

theorem offers (hd : h.Kept Has kind bytes d) :
    ∃ d', (⟨h.backend l, true⟩ : Handle σ).offers kind d = (.done true, d') ∧
      h.Kept Has kind bytes d' := by
  obtain ⟨d₁, hformats, hd₁⟩ := hd.formatsToRead l
  obtain ⟨d₂, hpick, hd₂⟩ := hd₁.pick hkeeper
  refine ⟨d₂, ?_, hd₂⟩
  rw [Handle.offers, Handle.ensureOpen_of_open, pure_bind, bind_done hformats, bind_done hpick]
  rfl

/-- Content that is kept is read, in the format that it was written in. -/
theorem read (hd : h.Kept Has kind bytes d) :
    ∃ d', (⟨h.backend l, true⟩ : Handle σ).read kind d =
      (.done ⟨bytes, (h.tool.written kind).encoding⟩, d') ∧ h.Kept Has kind bytes d' := by
  obtain ⟨d₁, hformats, hd₁⟩ := hd.formatsToRead l
  obtain ⟨d₂, hpick, hd₂⟩ := hd₁.pick hkeeper
  obtain ⟨c, s', hrun, hsuccess, rfl, hhas⟩ := hkeeper.pastes hd₂.has hd₂.distinct
  have hread : (h.backend l).read (h.tool.written kind) d₂.world = _ :=
    readOne_of_success (h.tool.target_written kind) (run_of_done hd₂.pasting_passable hrun)
      hsuccess
  refine ⟨{ d₂ with world := s' }, ?_, { hd₂ with has := hhas, known := hd₂.known }⟩
  rw [Handle.read, Handle.ensureOpen_of_open, pure_bind, bind_done hformats, bind_done hpick]
  dsimp only
  rw [bind_done (mapCause_of_done (Host.on_done hread))]
  rfl

theorem readText (hd : h.Kept Has .text bytes d) :
    ∃ d', (⟨h.backend l, true⟩ : Handle σ).readText d =
      (.ofExcept (((⟨bytes, .utf8⟩ : Payload).text .unix).mapError .ofText), d') ∧
      h.Kept Has .text bytes d' := by
  obtain ⟨d', hread, hd'⟩ := hd.read hkeeper
  rw [h.tool.encoding_written] at hread
  refine ⟨d', ?_, hd'⟩
  rw [Handle.readText, bind_done hread]
  rfl

theorem hasText (hd : h.Kept Has .text bytes d) :
    ∃ d', (⟨h.backend l, true⟩ : Handle σ).hasText d =
      (.done (((⟨bytes, .utf8⟩ : Payload).text .unix).toOption.isSome), d') ∧
      h.Kept Has .text bytes d' := by
  obtain ⟨d₁, hoffers, hd₁⟩ := hd.offers hkeeper
  obtain ⟨d₂, hread, hd₂⟩ := hd₁.readText hkeeper
  refine ⟨d₂, ?_, hd₂⟩
  rw [Handle.hasText, recover, bind_done hoffers, if_pos rfl, bind_apply, hread]
  cases (⟨bytes, .utf8⟩ : Payload).text .unix <;> rfl

/-- A session leaves content as its body leaves it. -/
theorem session {body : Handle σ → Action (Host σ) AccessError α} {o : Outcome AccessError α}
    (hd : h.Kept Has kind bytes d)
    (hbody : ∃ d', body ⟨h.backend l, true⟩ d = (o, d') ∧ h.Kept Has kind bytes d') :
    ∃ d', (⟨h.backend l, p⟩ : Board σ).session body d = (o, d') ∧ h.Kept Has kind bytes d' := by
  obtain ⟨d', hrun, hd'⟩ := hbody
  exact ⟨d', (session_of_found ⟨hd.display, hkeeper.found hd.has⟩ p body).trans hrun, hd'⟩

theorem board_getText (hd : h.Kept Has .text bytes d) :
    ∃ d', (⟨h.backend l, p⟩ : Board σ).getText d =
      (.ofExcept (((⟨bytes, .utf8⟩ : Payload).text .unix).mapError .ofText), d') ∧
      h.Kept Has .text bytes d' :=
  hd.session hkeeper (hd.readText hkeeper)

theorem board_hasText (hd : h.Kept Has .text bytes d) :
    ∃ d', (⟨h.backend l, p⟩ : Board σ).hasText d =
      (.done (((⟨bytes, .utf8⟩ : Payload).text .unix).toOption.isSome), d') ∧
      h.Kept Has .text bytes d' := by
  obtain ⟨d', hrun, hd'⟩ := hd.session (p := p) hkeeper (hd.hasText hkeeper)
  exact ⟨d', recover_done hrun _, hd'⟩

theorem board_getContents (hd : h.Kept Has kind bytes d) :
    ∃ d', (⟨h.backend l, p⟩ : Board σ).getContents kind d = (.done bytes, d') ∧
      h.Kept Has kind bytes d' := by
  obtain ⟨d', hread, hd'⟩ := hd.read hkeeper
  refine hd.session hkeeper ⟨d', ?_, hd'⟩
  rw [bind_done hread]
  rfl

end Kept

end Helper

/-- Whether an operation asks for content of a kind. -/
def Operation.AsksFor (kind : Kind) : Operation → Prop
  | .getText | .hasText => kind = .text
  | .getContents kind' => kind' = kind
  | _ => False

namespace Helper

variable {h : Helper} {l : Launcher σ} {p : Policy} {Has : String → Octets → σ → Prop}
  {kind : Kind} {bytes : Octets} {d d' : Host σ}

/-- Content is kept when it is asked for. -/
theorem Kept.perform (hkeeper : h.Keeper l Has) {op : Operation} (hop : op.AsksFor kind)
    (hd : h.Kept Has kind bytes d) : h.Kept Has kind bytes (op.perform ⟨h.backend l, p⟩ d).2 := by
  cases op with
  | getText =>
      obtain rfl : kind = .text := hop
      obtain ⟨d', hrun, hd'⟩ := hd.board_getText (p := p) hkeeper
      rw [Operation.perform, map_snd, hrun]
      exact hd'
  | hasText =>
      obtain rfl : kind = .text := hop
      obtain ⟨d', hrun, hd'⟩ := hd.board_hasText (p := p) hkeeper
      rw [Operation.perform, map_snd, hrun]
      exact hd'
  | getContents kind' =>
      obtain rfl : kind' = kind := hop
      obtain ⟨d', hrun, hd'⟩ := hd.board_getContents (p := p) hkeeper
      rw [Operation.perform, map_snd, hrun]
      exact hd'
  | setText | setContents | clear => exact hop.elim

/-- So it is however often it is asked for. -/
theorem Kept.leftBy (hkeeper : h.Keeper l Has) {asks : List Operation}
    (hasks : ∀ op ∈ asks, op.AsksFor kind) (hd : h.Kept Has kind bytes d) :
    h.Kept Has kind bytes (leftBy (asks.map (·.perform ⟨h.backend l, p⟩)) d) := by
  induction asks generalizing d with
  | nil => exact hd
  | cons op rest ih =>
      obtain ⟨hop, hrest⟩ := List.forall_mem_cons.mp hasks
      exact ih hrest (hd.perform hkeeper hop)

/-- **What a tool is given to keep is got again.**  A clipboard is used over a helper tool that
keeps what it is fed, in a program that starts with nothing remembered and that may have used
clipboards of the tool, and clipboards of other names, in any way before.  A text is set if the
tool takes it, in its canonical form, and is then there however often it is asked for.  So it
is with octets under a name that can stand on a line of its own, the name of the listing itself
apart. -/
theorem set_got (hkeeper : h.Keeper l Has) (p : Policy) (before : List (Board σ × Operation))
    (hbefore : ∀ step ∈ before, step.1.backend.name = h.tool.name →
      ∃ (h' : Helper) (l' : Launcher σ), h'.tool = h.tool ∧ step.1.backend = h'.backend l')
    (w : σ) :
    let c : Board σ := ⟨h.backend l, p⟩
    let d := Action.leftBy (before.map fun step => step.2.perform step.1) ⟨w, {}⟩
    (∀ text,
      let set := c.setText text d
      (set.1 = .done () ↔ h.Takes l (h.tool.writtenName .text)
        (Utf8.encode (LineBreaks.unify text.toList)) d.world) ∧
      (set.1 = .done () → ∀ asks : List Operation, (∀ op ∈ asks, op.AsksFor .text) →
        let d' := Action.leftBy (asks.map (·.perform c)) set.2
        (c.getText d').1 = .done (LineBreaks.unifyText text) ∧
          (c.hasText d').1 = .done true)) ∧
    ∀ name bytes,
      let set := c.setContents (.custom name) bytes d
      (set.1 = .done () ↔ h.Takes l name bytes d.world) ∧
      (set.1 = .done () → Listable name → (h.tool = .xclip → name ≠ "TARGETS") →
        ∀ asks : List Operation, (∀ op ∈ asks, op.AsksFor (.custom name)) →
          let d' := Action.leftBy (asks.map (·.perform c)) set.2
          (c.getContents (.custom name) d').1 = .done bytes) := by
  intro c d
  have hknown : h.tool.KnownBy d.registry := leftBy_known hbefore fun _ _ hfind => by cases hfind
  constructor
  · intro text set
    have hputs := writeText_puts l hknown text
    refine ⟨session_eq_done_iff hputs, fun hdone asks hasks => ?_⟩
    obtain ⟨hlistable, hdistinct⟩ := h.tool.listable_text
    have hkept := (kept_of_session hputs hkeeper hlistable hdistinct hdone).leftBy (p := p)
      hkeeper hasks
    have htext : (⟨Utf8.encode (LineBreaks.unify text.toList), .utf8⟩ : Payload).text .unix =
        .ok (LineBreaks.unifyText text) := Payload.text_of_ofText (Payload.ofText_unix text)
    obtain ⟨d₁, hget, -⟩ := hkept.board_getText (p := p) hkeeper
    obtain ⟨d₂, hhas, -⟩ := hkept.board_hasText (p := p) hkeeper
    rw [htext] at hget hhas
    exact ⟨congrArg Prod.fst hget, congrArg Prod.fst hhas⟩
  · intro name bytes set
    have hputs := write_puts l hknown name bytes
    refine ⟨session_eq_done_iff hputs, fun hdone hname hdistinct asks hasks => ?_⟩
    have hkept := (kept_of_session hputs hkeeper hname hdistinct hdone).leftBy (p := p)
      hkeeper hasks
    obtain ⟨d₁, hget, -⟩ := hkept.board_getContents (p := p) hkeeper
    exact congrArg Prod.fst hget

/-- The listing of a tool that indents the name of what it has, after a line that is no text
and among the names of all formats of text. -/
def crowdedListing (name : String) : Octets :=
  ([0xC3, 0x28] ++ Utf8.encode "\nSTRING\n".toList) ++
    Utf8.encode (" \t".toList ++ name.toList ++ "\u3000\r".toList) ++
    Utf8.encode "\nUTF8_STRING\n\ntext/plain;charset=utf-8\nTEXT".toList

theorem lists_crowdedListing (name : String) : Lists (crowdedListing name) name := by
  have hpadding : (" \t".toList ++ "\u3000\r".toList).all
      (fun c => Blank.isBlank c && c != '\n') = true := by decide +kernel
  refine ⟨_, _, _, _, rfl, .inr ⟨[0xC3, 0x28] ++ Utf8.encode "\nSTRING".toList, ?_⟩,
    .inr ⟨Utf8.encode "UTF8_STRING\n\ntext/plain;charset=utf-8\nTEXT".toList, ?_⟩, ?_⟩
  · decide +kernel
  · decide +kernel
  · simpa using List.all_eq_true.mp hpadding

/-- A tool with this listing that keeps one item. -/
def crowded : Launcher (Option (String × Octets)) where
  finds program _ := program = "xclip"
  run i := fun item =>
    let target := i.arguments.getD 3 ""
    if i.arguments.getLast? = some "-i" then
      (.done { ending := .exited 0 }, some (target, i.input))
    else
      match item with
      | none => (.done (Toolbox.unavailable target), none)
      | some (name, bytes) =>
        if target = "TARGETS" then (.done (Toolbox.writes (crowdedListing name)), item)
        else if target = name then (.done (Toolbox.writes bytes), item)
        else (.done (Toolbox.unavailable target), item)

/-- A clipboard over it. -/
def overCrowded : Helper := ⟨.xclip, "xclip", "xclip", some [0x3A, 0x30]⟩

theorem keeper_crowded :
    overCrowded.Keeper crowded fun name bytes item => item = some (name, bytes) where
  passable := by decide
  found _ := ⟨rfl, rfl⟩
  copies := by
    intro name bytes c s s' hrun _ _
    cases hrun
    rfl
  lists := by
    rintro name bytes s rfl
    exact ⟨_, _, rfl, rfl, lists_crowdedListing name, rfl⟩
  pastes := by
    rintro name bytes s rfl hne
    have hname : name ≠ "TARGETS" := fun heq => hne (by rw [heq]; rfl)
    refine ⟨Toolbox.writes bytes, some (name, bytes), ?_, rfl, rfl, rfl⟩
    simp [crowded, pasting, invocation, overCrowded, Tool.readArguments, hname]

/-- What is set over it is found in spite of all else that it lists. -/
theorem set_got_crowded :
    let c : Board (Option (String × Octets)) := ⟨overCrowded.backend crowded, {}⟩
    let before : List (Board (Option (String × Octets)) × Operation) := [(c, .hasText)]
    let d := Action.leftBy (before.map fun step => step.2.perform step.1) ⟨none, {}⟩
    let asks : List Operation := [.hasText, .getText]
    let asksAgain : List Operation := [.getContents (.custom "a\tb")]
    let text := c.setText "é\r1" d
    let afterText := Action.leftBy (asks.map (·.perform c)) text.2
    let octets := c.setContents (.custom "a\tb") [0, 0xFF] d
    let afterOctets := Action.leftBy (asksAgain.map (·.perform c)) octets.2
    (overCrowded.Keeper crowded fun name bytes item => item = some (name, bytes)) ∧
      (text.1 = .done () ∧
        overCrowded.Takes crowded (overCrowded.tool.writtenName .text)
          (Utf8.encode (LineBreaks.unify "é\r1".toList)) d.world ∧
        (c.getText afterText).1 = .done (LineBreaks.unifyText "é\r1") ∧
        (c.hasText afterText).1 = .done true) ∧
      (Listable "a\tb" ∧ octets.1 = .done () ∧
        (c.getContents (.custom "a\tb") afterOctets).1 = .done [0, 0xFF]) := by
  intro c before d asks asksAgain text afterText octets afterOctets
  have hbefore : ∀ step ∈ before, step.1.backend.name = overCrowded.tool.name →
      ∃ (h' : Helper) (l' : Launcher (Option (String × Octets))),
        h'.tool = overCrowded.tool ∧ step.1.backend = h'.backend l' := by
    intro step hstep _
    obtain rfl := List.mem_singleton.mp hstep
    exact ⟨overCrowded, crowded, rfl, rfl⟩
  have hname : Listable "a\tb" := by decide
  have htext : text.1 = .done () := by decide +kernel
  have hoctets : octets.1 = .done () := by decide +kernel
  have hasks : ∀ op ∈ asks, op.AsksFor .text := by simp [asks, Operation.AsksFor]
  have hasksAgain : ∀ op ∈ asksAgain, op.AsksFor (.custom "a\tb") := by
    simp [asksAgain, Operation.AsksFor]
  obtain ⟨hset, hput⟩ := set_got keeper_crowded {} before hbefore none
  obtain ⟨htakes, hgot⟩ := hset "é\r1"
  obtain ⟨-, hgotAgain⟩ := hput "a\tb" [0, 0xFF]
  exact ⟨keeper_crowded, ⟨htext, htakes.mp htext, hgot htext asks hasks⟩, hname, hoctets,
    hgotAgain hoctets hname (fun _ => by decide) asksAgain hasksAgain⟩

end Helper

end Clipboard
