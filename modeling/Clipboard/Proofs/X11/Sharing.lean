import Clipboard.Proofs.X11.Clipboards
import Clipboard.Proofs.X11.Exchanges

/-!
# What is set on one clipboard is got on all

The results on clipboards that share a display: a text that is set on one of them is the text on
all, clearing one clears all, and so it is with the content of a named format.  The two names that
the protocol uses itself are the exception: only the clipboard that has set content under such a
name gets it again.

* `Kept.of_store`: content that a clipboard has written is kept;
* `text_shared`, `contents_shared`: the results;
* `text_outlived`, `contents_unshared`: where they end.
-/

namespace Clipboard

open Action

/-- Items that are put there have been written. -/
theorem Handle.store_eq_done {σ : Type} {b : Backend σ} {e e' : Host σ}
    {items : List (Format × Payload)}
    (h : (⟨b, true⟩ : Handle σ).store items e = (.done (), e')) :
    b.write items e.world = (.done (), e'.world) ∧ e'.registry = e.registry := by
  unfold Handle.store at h
  split at h
  · cases h
  · exact Host.on_eq_done (mapCause_eq_done h)

namespace X11

/-- A text as content. -/
def Atoms.textContent (a : Atoms) (payload : Payload) : List (Atom × Octets) :=
  [(a.utf8, payload.bytes), (a.plainUtf8, payload.bytes)]

namespace Display

variable {ι σ : Type} [DecidableEq ι] {d : Display ι σ} {fair ready : σ → Prop} {i k : ι}
  {x : Chronicle ι σ} {r : Registry} {e e₁ : Host σ} {kind : Kind} {formats : List Format}
  {content : List (Atom × Octets)} {items : List (Format × Payload)} {text : String} {p : Policy}

/-! ## Content that a clipboard has written -/

section Written

variable (hd : d.Lawful fair) (hr : d.Reliable fair ready) (h : d.Lived fair x)
  (hremembers : d.Remembers fair r) (hrested : d.Rested i x.state)
include hd hr h hremembers hrested

/-- Asking for formats and then writing items in them is a writing. -/
theorem Kept.of_store
    (hrun : (d.desk i).backend.resolve kind ⟨x.state, r⟩ = (.done formats, e₁))
    (hcontent : ∀ t, (Claim.mk content t).Offers items)
    (hstore : (⟨(d.desk i).backend, true⟩ : Handle σ).store items e₁ = (.done (), e))
    (htimely : d.Timely x.state e.world) : d.Kept fair i content kind formats e := by
  have hsound := h.sound hd
  obtain ⟨hfair, hcalm⟩ : fair e₁.world ∧ d.Calm x.state e₁.world := by
    have hworld := (d.desk i).backend.world_resolve kind ⟨x.state, r⟩
    rw [hrun] at hworld
    rcases hworld with hsame | hasked
    · rw [show e₁.world = x.state from hsame]
      exact ⟨hsound.fair, .refl _⟩
    · rw [show e₁.world = _ from hasked]
      exact (hd.abides i).reads.formatsFor kind x.state hsound.fair
  obtain ⟨-, hknows⟩ := hremembers.resolve (e := ⟨x.state, r⟩) hr hsound.fair hrun
  obtain ⟨hwrite, hregistry⟩ := Handle.store_eq_done hstore
  obtain ⟨hfair', content', hof, hstands⟩ :=
    hsound.stands hd hfair hcalm hrested htimely hwrite
  obtain rfl : content' = content :=
    Claim.items_of_offers (Connection.contentOf_offers hof 0) (hcontent 0)
  exact ⟨hfair', hstands, hregistry ▸ hknows⟩

/-- A text that has been set is kept as content. -/
theorem Kept.of_setText
    (hset : ((d.desk i).clipboard p).setText text ⟨x.state, r⟩ = (.done (), e))
    (htimely : d.Timely x.state e.world) :
    ∃ payload, Payload.ofText text .utf8 .unix = .ok payload ∧
      d.Kept fair i ((d.atoms i).textContent payload) .text (d.desk i).textFormats e := by
  have halive := Connection.alive_of_session hset
  rw [Board.setText, Connection.session_of_alive halive, Handle.writeText,
    Handle.ensureOpen_of_open, pure_bind] at hset
  obtain ⟨formats, e₁, hformats, hset⟩ := bind_eq_done hset
  obtain ⟨items, e₂, hitems, hstore⟩ := bind_eq_done hset
  have hrun := mapCause_eq_done hformats
  have hnames : (d.atoms i).Names .text formats :=
    (hremembers.resolve (e := ⟨x.state, r⟩) hr (h.sound hd).fair hrun).1
  obtain rfl : formats = (d.desk i).textFormats :=
    hnames.trans (Connection.map_formatOfText (hr.apart i))
  cases hof : Handle.itemsOfText text .unix (d.desk i).textFormats with
  | error fault =>
      rw [show (d.desk i).backend.convention = .unix from rfl, hof] at hitems
      cases hitems
  | ok items' =>
      rw [show (d.desk i).backend.convention = .unix from rfl, hof] at hitems
      cases hitems
      -- The text is encoded alike for both formats that are offered.
      obtain ⟨payload, others, hpayload, hothers, rfl⟩ := Handle.encodeEach_cons hof
      obtain ⟨payload', none, hpayload', hnone, rfl⟩ := Handle.encodeEach_cons hothers
      cases hnone
      obtain rfl : payload = payload' := Except.ok.inj (hpayload.symm.trans hpayload')
      refine ⟨payload, hpayload, .of_store hd hr h hremembers hrested hrun ?_ hstore htimely⟩
      exact fun _ => rfl

/-- A clipboard that has been cleared keeps no content. -/
theorem Kept.of_clear (hclear : ((d.desk i).clipboard p).clear ⟨x.state, r⟩ = (.done (), e))
    (htimely : d.Timely x.state e.world) :
    d.Kept fair i [] .text (d.desk i).textFormats e := by
  have hsound := h.sound hd
  have halive := Connection.alive_of_session hclear
  rw [Board.clear, Connection.session_of_alive halive, Handle.clear, Handle.ensureOpen_of_open,
    pure_bind] at hclear
  obtain ⟨hrun, hregistry⟩ := Host.on_eq_done (mapCause_eq_done hclear)
  obtain ⟨hfair, content, hof, hstands⟩ :=
    hsound.stands hd hsound.fair (.refl _) hrested htimely
      (show (d.desk i).backend.write [] x.state = _ from hrun)
  obtain rfl : [] = content := Except.ok.inj hof
  refine ⟨hfair, hstands, ?_⟩
  rw [show e.registry = r from hregistry]
  cases hfind : r.find? "x11" .text with
  | none => exact .inr ⟨hfind, rfl, rfl⟩
  | some formats =>
      have hnames : (d.atoms i).Names .text formats := hremembers.names hr i .text formats hfind
      obtain rfl : formats = (d.desk i).textFormats :=
        hnames.trans (Connection.map_formatOfText (hr.apart i))
      exact .inl hfind

/-- Content that has been set is kept under the number of its name. -/
theorem Kept.of_setContents {name : String} {bytes : Octets}
    (hset : ((d.desk i).clipboard p).setContents (.custom name) bytes ⟨x.state, r⟩ =
      (.done (), e)) (htimely : d.Timely x.state e.world) :
    ∃ n, d.Kept fair i [(n, bytes)] (.custom name) [⟨.number n, .opaqueData, true⟩] e ∧
      (n = (d.atoms i).targets → name = "TARGETS") ∧
      (n = (d.atoms i).incremental → name = "INCR") := by
  have halive := Connection.alive_of_session hset
  rw [Board.setContents, Connection.session_of_alive halive, Handle.write,
    Handle.ensureOpen_of_open, pure_bind] at hset
  obtain ⟨formats, e₁, hformats, hstore⟩ := bind_eq_done hset
  have hrun := mapCause_eq_done hformats
  have hnames : (d.atoms i).Names (.custom name) formats :=
    (hremembers.resolve (e := ⟨x.state, r⟩) hr (h.sound hd).fair hrun).1
  obtain ⟨n, rfl, hn⟩ := hnames
  refine ⟨n, .of_store hd hr h hremembers hrested hrun ?_ hstore htimely, hn⟩
  exact fun _ => rfl

end Written

/-! ## Text -/

theorem mem_listing_textContent (i k : ι) (payload : Payload) :
    (d.atoms k).utf8 ∈ d.listing i k ((d.atoms k).textContent payload) := by
  unfold listing
  split
  · exact List.mem_cons_self
  · exact List.mem_cons_of_mem _ List.mem_cons_self

theorem find?_listing_nil (h : (d.atoms k).Apart) :
    (d.atoms k).textTargets.find? (fun target => (d.listing i k []).contains target) = none := by
  refine List.find?_eq_none.mpr fun target htarget hlisted => ?_
  have hmem := List.contains_iff_mem.mp hlisted
  unfold listing at hmem
  split at hmem
  · cases hmem
  · obtain rfl := List.mem_singleton.mp hmem
    exact h.plain.2.2.2 htarget

/-- **Text is shared.**  Take any clipboards of a display that keeps to the laws, with any past, and
a program that uses no other display.  After a text has been set on one clipboard, and while nobody
else takes the selection, it is the text on that clipboard and on every other one that has been told
of its losses.  After one clipboard has been cleared, there is no text on any of them. -/
theorem text_shared (hd : d.Lawful fair) (hr : d.Reliable fair ready) (h : d.Lived fair x)
    (hremembers : d.Remembers fair r) (hrested : d.Rested i x.state) (p : Policy) :
    (∀ text e, ((d.desk i).clipboard p).setText text ⟨x.state, r⟩ = (.done (), e) →
      d.Timely x.state e.world → ∀ e' k q, d.Goes fair i e e' → d.Reaches ready i k e'.world →
        (((d.desk k).clipboard q).getText e').1 = .done (LineBreaks.unifyText text) ∧
          (((d.desk k).clipboard q).hasText e').1 = .done true) ∧
    (∀ e, ((d.desk i).clipboard p).clear ⟨x.state, r⟩ = (.done (), e) →
      d.Timely x.state e.world → ∀ e' k q, d.Goes fair i e e' → d.Reaches ready i k e'.world →
        (((d.desk k).clipboard q).getText e').1 = .failed .noText ∧
          (((d.desk k).clipboard q).hasText e').1 = .done false) := by
  have hknows {e : Host σ} {content : List (Atom × Octets)} (k : ι)
      (hkept : d.Kept fair i content .text (d.desk i).textFormats e) :
      (d.desk k).Knows e.registry .text (d.desk k).textFormats := by
    rw [Connection.textFormats_congr (c := d.desk i) (hr.alike k i)]
    exact hkept.knows.congr (hr.alike k i)
  constructor
  · intro text e hset htimely e' k q hgoes hreaches
    obtain ⟨payload, hof, hkept⟩ := Kept.of_setText hd hr h hremembers hrested hset htimely
    have hlater := hkept.goes hd hr hgoes
    have hsees : d.Sees ready i k ((d.atoms k).textContent payload) e'.world :=
      ⟨hreaches, hr.alike i k ▸ hlater.stands⟩
    exact hsees.text_present hd hr q (hknows k hlater) hof (mem_listing_textContent i k payload)
      (List.find?_cons_of_pos (by simp))
  · intro e hclear htimely e' k q hgoes hreaches
    have hlater := (Kept.of_clear hd hr h hremembers hrested hclear htimely).goes hd hr hgoes
    have hsees : d.Sees ready i k [] e'.world := ⟨hreaches, hlater.stands⟩
    exact hsees.text_absent hd hr q (hknows k hlater) (find?_listing_nil (hr.apart k))

end Display

/-! ## Two clients of a server -/

namespace Server

theorem usual_reliable : usual.Reliable Fair Ready := reliable _ _

/-- The clipboard of a client. -/
def clipboard (k : Fin capacity) : Board Server := (usual.desk k).clipboard {}

/-- The second client has written a letter, so many milliseconds ago. -/
def wroteBefore (ms : Nat) : Chronicle (Fin capacity) Server :=
  let x := lettered { state := gathering 2 } second 98
  { x with state := { x.state with time := x.state.time + ms } }

theorem lived_wroteBefore {ms : Nat} (htold : (wroteBefore ms).state.stamp ≠ 0) :
    usual.Lived Fair (wroteBefore ms) := by
  have hwrote : usual.Lived Fair (lettered { state := gathering 2 } second 98) :=
    lived_lettered (lived_gathering (by decide)) (by decide +kernel) (by decide +kernel)
  have hfair := (hwrote.sound usual_lawful).fair
  refine hwrote.goesOn ⟨hfair.room, hfair.owner_lt, hfair.alive, hfair.takesOver,
    hfair.refusesClaims, htold, ?_, hfair.named, hfair.numbered⟩
    (calm_of_clients rfl rfl rfl (Nat.le_add_right _ ms))
  exact Nat.le_trans hfair.since (Nat.le_add_right _ ms)

theorem rested_wroteBefore (ms : Nat) : usual.Rested first (wroteBefore ms).state :=
  Display.rested_of_no_notice fun e he => by
    have hnone : usual.queue first (lettered { state := gathering 2 } second 98).state = [] := by
      decide +kernel
    have hnothing : e ∈ ([] : List Event) := hnone ▸ he
    cases hnothing

/-- The third client. -/
def third : Fin capacity := ⟨2, by decide⟩

/-- All deal with what they have been sent, and a third client comes and looks for text. -/
def visited (e : Host Server) : Host Server :=
  let s := ((e.world.settle.connect).map (·.2)).getD e.world
  Reading.hasText.leave (clipboard third) { e with world := s }

/-- Once more all deal with what they have been sent. -/
def later (e : Host Server) : Host Server :=
  { visited e with world := (visited e).world.settle }

theorem goes_later {e : Host Server} (hfair : Fair e.world) (hcount : e.world.clients.length = 2) :
    usual.Goes Fair first e (later e) ∧ Fair (later e).world := by
  have hcalm {s s' : Server} (hs : Fair s) (hsteady : Steady s s') : Fair s' ∧ usual.Calm s s' :=
    calm_of_steady _ _ hs hsteady
  obtain ⟨hsettled, hsettling⟩ := hcalm hfair (settle_steady e.world)
  have hsize : e.world.settle.clients.length = 2 := (settle_steady e.world).size.trans hcount
  obtain ⟨s, hs⟩ : ∃ s, e.world.settle.connect = some (third.val, s) := by
    rw [connect, hsize]
    exact ⟨_, if_pos (by decide)⟩
  obtain ⟨hcame, hcomes⟩ : Fair s ∧ usual.Comes third e.world.settle s := comes_connect hsettled hs
  have hlooks := Display.looks_remains usual_lawful usual_reliable third
  have hvisited : visited e = Reading.hasText.leave (clipboard third) { e with world := s } := by
    unfold visited
    rw [hs]
    rfl
  have hread : Fair (visited e).world := by
    rw [hvisited]
    exact ((hlooks.leave {} .hasText { e with world := s }).1 hcame).1
  have hgoes : usual.Goes Fair first e (visited e) := by
    rw [hvisited]
    exact ((Display.Goes.nothing.goesOn hsettled hsettling).comes third (by decide) hcame
      hcomes).reads third {} .hasText
  obtain ⟨hlast, hlasting⟩ := hcalm hread (settle_steady _)
  simp only [later]
  exact ⟨hgoes.goesOn hlast hlasting, hlast⟩

theorem quiet_later (e : Host Server) : (later e).world.Quiet := by
  simp only [later]
  exact settle_quiet (visited e).world

/-- Where nothing is on the way, two clients reach each other. -/
theorem reaches_of_quiet {s : Server} {i k : Fin capacity} (hfair : Fair s) (hquiet : s.Quiet)
    (h : s.hidesOwner = false ∧ s.hangsUpOn = none ∧ (s.client i).selection.alive = true ∧
      (s.client k).selection.alive = true) : usual.Reaches Ready i k s := by
  obtain ⟨hhides, hhangs, hi, hk⟩ := h
  refine ⟨⟨hfair, hhides, hhangs, fun j event hevent => ?_⟩, hi, hk, fun _ event hevent => ?_⟩
  · rw [hquiet j] at hevent
    cases hevent
  · have hnothing : event ∈ ([] : List Event) := hquiet k ▸ hevent
    cases hnothing

/-- Later the first client is reached by another. -/
theorem reaches_later {e : Host Server} {k : Fin capacity} (hfair : Fair e.world)
    (h : e.world.clients.length = 2 ∧ (later e).world.hidesOwner = false ∧
      (later e).world.hangsUpOn = none ∧ ((later e).world.client first).selection.alive = true ∧
      ((later e).world.client k).selection.alive = true) :
    usual.Goes Fair first e (later e) ∧ usual.Reaches Ready first k (later e).world := by
  obtain ⟨hcount, hthere⟩ := h
  obtain ⟨hgoes, hlast⟩ := goes_later hfair hcount
  exact ⟨hgoes, reaches_of_quiet hlast (quiet_later e) hthere⟩

/-- The second clipboard gets what the first has set. -/
theorem text_shared_succession :
    let x := wroteBefore 5
    let set := (clipboard first).setText "é\r1" ⟨x.state, {}⟩
    let clear := (clipboard first).clear ⟨x.state, {}⟩
    (usual.Lived Fair x ∧ usual.Remembers Fair {} ∧ usual.Rested first x.state) ∧
      (set.1 = .done () ∧ usual.Timely x.state set.2.world ∧
        usual.Goes Fair first set.2 (later set.2) ∧
        usual.Reaches Ready first second (later set.2).world ∧
        ((clipboard second).getText (later set.2)).1 = .done (LineBreaks.unifyText "é\r1") ∧
        ((clipboard second).hasText (later set.2)).1 = .done true) ∧
      (clear.1 = .done () ∧ usual.Timely x.state clear.2.world ∧
        usual.Goes Fair first clear.2 (later clear.2) ∧
        usual.Reaches Ready first second (later clear.2).world ∧
        ((clipboard second).getText (later clear.2)).1 = .failed .noText ∧
        ((clipboard second).hasText (later clear.2)).1 = .done false) := by
  intro x set clear
  have hlived : usual.Lived Fair x := lived_wroteBefore (by decide +kernel)
  have hrested : usual.Rested first x.state := rested_wroteBefore 5
  have hset : set = (.done (), set.2) := Prod.ext (by decide +kernel) rfl
  have hclear : clear = (.done (), clear.2) := Prod.ext (by decide +kernel) rfl
  have hsettimely : usual.Timely x.state set.2.world := usual.timely_of_near (by decide +kernel)
  have hcleartimely : usual.Timely x.state clear.2.world :=
    usual.timely_of_near (by decide +kernel)
  obtain ⟨hshared, hcleared⟩ :=
    Display.text_shared usual_lawful usual_reliable hlived .nothing hrested {}
  obtain ⟨_, -, hsetkept⟩ :=
    Display.Kept.of_setText usual_lawful usual_reliable hlived .nothing hrested hset hsettimely
  have hclearkept :=
    Display.Kept.of_clear usual_lawful usual_reliable hlived .nothing hrested hclear hcleartimely
  obtain ⟨hsetgoes, hsetreaches⟩ :=
    reaches_later (k := second) hsetkept.fair (by decide +kernel)
  obtain ⟨hcleargoes, hclearreaches⟩ :=
    reaches_later (k := second) hclearkept.fair (by decide +kernel)
  exact ⟨⟨hlived, .nothing, hrested⟩,
    ⟨congrArg Prod.fst hset, hsettimely, hsetgoes, hsetreaches,
      hshared "é\r1" set.2 hset hsettimely _ second {} hsetgoes hsetreaches⟩,
    congrArg Prod.fst hclear, hcleartimely, hcleargoes, hclearreaches,
    hcleared clear.2 hclear hcleartimely _ second {} hcleargoes hclearreaches⟩

/-- Where nobody has anything but leftovers on the way, all is idle. -/
theorem idle_of_clients {s : Server}
    (h : ∀ c ∈ s.clients, ∀ e ∈ c.pending, e.isLeftover = true) : s.Idle := by
  intro k e he
  by_cases hk : k < s.clients.length
  · have hclient : s.client k = s.clients[k] := by
      simp [client, List.getD_eq_getElem?_getD, hk]
    rw [hclient] at he
    exact h _ (List.getElem_mem hk) e he
  · rw [client_of_le (by omega)] at he
    cases he

/-- A clipboard that has not dealt with the news yet still has its own text, and so does one that
wrote so long ago that the news looks older. -/
theorem text_outlived :
    (let x := wroteBefore 5
      let set := (clipboard first).setText "new" ⟨x.state, {}⟩
      (usual.Lived Fair x ∧ usual.Remembers Fair {} ∧ usual.Rested first x.state) ∧
        set.1 = .done () ∧ usual.Timely x.state set.2.world ∧
        (Ready set.2.world ∧ usual.Alive first set.2.world ∧ usual.Alive second set.2.world) ∧
        ((clipboard first).getText set.2).1 = .done "new" ∧
        ((clipboard second).getText set.2).1 = .done "b") ∧
      let x := wroteBefore 2147483649
      let set := (clipboard first).setText "new" ⟨x.state, {}⟩
      (usual.Lived Fair x ∧ usual.Remembers Fair {} ∧ usual.Rested first x.state) ∧
        set.1 = .done () ∧ usual.Goes Fair first set.2 (later set.2) ∧
        usual.Reaches Ready first second (later set.2).world ∧
        ((clipboard first).getText (later set.2)).1 = .done "new" ∧
        ((clipboard second).getText (later set.2)).1 = .done "b" := by
  refine ⟨?_, ?_⟩
  · intro x set
    have hlived : usual.Lived Fair x := lived_wroteBefore (by decide +kernel)
    have hrested : usual.Rested first x.state := rested_wroteBefore 5
    have hset : set = (.done (), set.2) := Prod.ext (by decide +kernel) rfl
    have htimely : usual.Timely x.state set.2.world := usual.timely_of_near (by decide +kernel)
    obtain ⟨_, -, hkept⟩ :=
      Display.Kept.of_setText usual_lawful usual_reliable hlived .nothing hrested hset htimely
    refine ⟨⟨hlived, .nothing, hrested⟩, congrArg Prod.fst hset, htimely,
      ⟨⟨hkept.fair, by decide +kernel, by decide +kernel, idle_of_clients (by decide +kernel)⟩,
        by unfold Display.Alive; decide +kernel, by unfold Display.Alive; decide +kernel⟩,
      by decide +kernel, by decide +kernel⟩
  · intro x set
    have hlived : usual.Lived Fair x := lived_wroteBefore (by decide +kernel)
    have hrested : usual.Rested first x.state := rested_wroteBefore 2147483649
    have hitems : set.2.world = ((usual.desk first).backend.write
        (((usual.desk first).textFormats.filter (·.writable)).map fun f =>
          (f, ⟨[110, 101, 119], .utf8⟩)) x.state).2 := by
      decide +kernel
    have hfair : Fair set.2.world := by
      rw [hitems]
      exact usual_lawful.fair_of_write (hlived.sound usual_lawful).fair hrested _
    obtain ⟨hgoes, hreaches⟩ := reaches_later (k := second) hfair (by decide +kernel)
    exact ⟨⟨hlived, .nothing, hrested⟩, by decide +kernel, hgoes, hreaches,
      by decide +kernel, by decide +kernel⟩

end Server

/-! ## The content of a named format -/

namespace Display

variable {ι σ : Type} [DecidableEq ι] {d : Display ι σ} {fair ready : σ → Prop} {i : ι}
  {x : Chronicle ι σ} {r : Registry} {e : Host σ}

/-- **Named content is shared.**  After content has been set under a name on one clipboard, and
while nobody else takes the selection, that clipboard gets just this content, and so does every
other one that has been told of its losses, unless the name is one that the protocol uses for lists
of targets or for content in parts. -/
theorem contents_shared (hd : d.Lawful fair) (hr : d.Reliable fair ready) (h : d.Lived fair x)
    (hremembers : d.Remembers fair r) (hrested : d.Rested i x.state) (p : Policy) {name : String}
    {bytes : Octets} (hset : ((d.desk i).clipboard p).setContents (.custom name) bytes
      ⟨x.state, r⟩ = (.done (), e)) (htimely : d.Timely x.state e.world) (e' : Host σ) (k : ι)
    (q : Policy) (hgoes : d.Goes fair i e e') (hreaches : d.Reaches ready i k e'.world)
    (hname : k ≠ i → name ≠ "TARGETS" ∧ name ≠ "INCR") :
    (((d.desk k).clipboard q).getContents (.custom name) e').1 = .done bytes := by
  obtain ⟨n, hkept, htargets, hparts⟩ :=
    Kept.of_setContents hd hr h hremembers hrested hset htimely
  have hlater := hkept.goes hd hr hgoes
  have hsees : d.Sees ready i k [(n, bytes)] e'.world := ⟨hreaches, hlater.stands⟩
  refine hsees.getContents_eq hd hr q (hlater.knows.congr (hr.alike k i)) rfl fun hk => ?_
  rw [hr.alike k i]
  exact ⟨fun hn => (hname hk).1 (htargets hn), fun hn => (hname hk).2 (hparts hn)⟩

end Display

namespace Server

/-- Content under an ordinary name, and under one that the protocol uses. -/
theorem contents_shared_both :
    let x := wroteBefore 5
    let set := (clipboard first).setContents (.custom "app/x") [0x00, 0xFF] ⟨x.state, {}⟩
    let list := (clipboard first).setContents (.custom "TARGETS") [0x00, 0xFF] ⟨x.state, {}⟩
    (usual.Lived Fair x ∧ usual.Remembers Fair {} ∧ usual.Rested first x.state) ∧
      (set.1 = .done () ∧ usual.Timely x.state set.2.world ∧
        usual.Goes Fair first set.2 (later set.2) ∧
        usual.Reaches Ready first second (later set.2).world ∧
        ((clipboard second).getContents (.custom "app/x") (later set.2)).1 = .done [0x00, 0xFF]) ∧
      (list.1 = .done () ∧ usual.Timely x.state list.2.world ∧
        usual.Goes Fair first list.2 (later list.2) ∧
        usual.Reaches Ready first first (later list.2).world ∧
        ((clipboard first).getContents (.custom "TARGETS") (later list.2)).1 =
          .done [0x00, 0xFF]) := by
  intro x set list
  have hlived : usual.Lived Fair x := lived_wroteBefore (by decide +kernel)
  have hrested : usual.Rested first x.state := rested_wroteBefore 5
  have hset : set = (.done (), set.2) := Prod.ext (by decide +kernel) rfl
  have hlist : list = (.done (), list.2) := Prod.ext (by decide +kernel) rfl
  have hsettimely : usual.Timely x.state set.2.world := usual.timely_of_near (by decide +kernel)
  have hlisttimely : usual.Timely x.state list.2.world := usual.timely_of_near (by decide +kernel)
  obtain ⟨_, hsetkept, -⟩ :=
    Display.Kept.of_setContents usual_lawful usual_reliable hlived .nothing hrested hset hsettimely
  obtain ⟨_, hlistkept, -⟩ := Display.Kept.of_setContents usual_lawful usual_reliable hlived
    .nothing hrested hlist hlisttimely
  obtain ⟨hsetgoes, hsetreaches⟩ :=
    reaches_later (k := second) hsetkept.fair (by decide +kernel)
  obtain ⟨hlistgoes, hlistreaches⟩ :=
    reaches_later (k := first) hlistkept.fair (by decide +kernel)
  have hgot := Display.contents_shared usual_lawful usual_reliable hlived .nothing hrested {} hset
    hsettimely _ second {} hsetgoes hsetreaches fun _ => ⟨by decide, by decide⟩
  have hgot' := Display.contents_shared usual_lawful usual_reliable hlived .nothing hrested {} hlist
    hlisttimely _ first {} hlistgoes hlistreaches fun hne => absurd rfl hne
  exact ⟨⟨hlived, .nothing, hrested⟩,
    ⟨congrArg Prod.fst hset, hsettimely, hsetgoes, hsetreaches, hgot⟩,
    congrArg Prod.fst hlist, hlisttimely, hlistgoes, hlistreaches, hgot'⟩

/-- Under a name that the protocol uses, another clipboard gets a list of targets, or waits for
parts that do not come.  Under any name, it still has its own content as long as it has not dealt
with the news, and for good if it wrote so long ago that the news looks older. -/
theorem contents_unshared :
    let x := wroteBefore 5
    let old := wroteBefore 2147483649
    let list := (clipboard first).setContents (.custom "TARGETS") [0x00, 0xFF] ⟨x.state, {}⟩
    let parts := (clipboard first).setContents (.custom "INCR") [0x00, 0xFF] ⟨x.state, {}⟩
    let set := (clipboard first).setContents (.custom "UTF8_STRING") [0x00, 0xFF] ⟨x.state, {}⟩
    let reset := (clipboard first).setContents (.custom "UTF8_STRING") [0x00, 0xFF] ⟨old.state, {}⟩
    (usual.Lived Fair x ∧ usual.Lived Fair old ∧ usual.Remembers Fair {} ∧
        usual.Rested first x.state ∧ usual.Rested first old.state) ∧
      (list.1 = .done () ∧ usual.Timely x.state list.2.world ∧
        usual.Goes Fair first list.2 (later list.2) ∧
        usual.Reaches Ready first second (later list.2).world ∧
        ((clipboard second).getContents (.custom "TARGETS") (later list.2)).1 =
          .done [101, 0, 0, 0, 101, 0, 0, 0]) ∧
      (parts.1 = .done () ∧ usual.Timely x.state parts.2.world ∧
        usual.Goes Fair first parts.2 (later parts.2) ∧
        usual.Reaches Ready first second (later parts.2).world ∧
        ((clipboard second).getContents (.custom "INCR") (later parts.2)).1 =
          .failed (.acquireFailed 1 "protocol: selection owner did not answer within 50 ms")) ∧
      (set.1 = .done () ∧ usual.Timely x.state set.2.world ∧
        (Ready set.2.world ∧ usual.Alive first set.2.world ∧ usual.Alive second set.2.world) ∧
        ((clipboard second).getContents (.custom "UTF8_STRING") set.2).1 = .done [0x62]) ∧
      reset.1 = .done () ∧ usual.Goes Fair first reset.2 (later reset.2) ∧
      usual.Reaches Ready first second (later reset.2).world ∧
      ((clipboard second).getContents (.custom "UTF8_STRING") (later reset.2)).1 =
        .done [0x62] := by
  intro x old list parts set reset
  have hlived : usual.Lived Fair x := lived_wroteBefore (by decide +kernel)
  have holdlived : usual.Lived Fair old := lived_wroteBefore (by decide +kernel)
  have hrested : usual.Rested first x.state := rested_wroteBefore 5
  have holdrested : usual.Rested first old.state := rested_wroteBefore 2147483649
  have hfair {name : String} {bytes : Octets} {e : Host Server}
      (h : (clipboard first).setContents (.custom name) bytes ⟨x.state, {}⟩ = (.done (), e))
      (htimely : usual.Timely x.state e.world) : Fair e.world := by
    obtain ⟨_, hkept, -⟩ :=
      Display.Kept.of_setContents usual_lawful usual_reliable hlived .nothing hrested h htimely
    exact hkept.fair
  have hlist : list = (.done (), list.2) := Prod.ext (by decide +kernel) rfl
  have hparts : parts = (.done (), parts.2) := Prod.ext (by decide +kernel) rfl
  have hset : set = (.done (), set.2) := Prod.ext (by decide +kernel) rfl
  have hlisttimely : usual.Timely x.state list.2.world := usual.timely_of_near (by decide +kernel)
  have hpartstimely : usual.Timely x.state parts.2.world :=
    usual.timely_of_near (by decide +kernel)
  have hsettimely : usual.Timely x.state set.2.world := usual.timely_of_near (by decide +kernel)
  have hreset : Fair reset.2.world := by
    have hitems : reset.2.world = ((usual.desk first).backend.write
        [(⟨.number atoms.utf8, .opaqueData, true⟩, ⟨[0x00, 0xFF], .opaqueData⟩)] old.state).2 := by
      decide +kernel
    rw [hitems]
    exact usual_lawful.fair_of_write (holdlived.sound usual_lawful).fair holdrested _
  obtain ⟨hlistgoes, hlistreaches⟩ :=
    reaches_later (k := second) (hfair hlist hlisttimely) (by decide +kernel)
  obtain ⟨hpartsgoes, hpartsreaches⟩ :=
    reaches_later (k := second) (hfair hparts hpartstimely) (by decide +kernel)
  obtain ⟨hresetgoes, hresetreaches⟩ := reaches_later (k := second) hreset (by decide +kernel)
  refine ⟨⟨hlived, holdlived, .nothing, hrested, holdrested⟩,
    ⟨congrArg Prod.fst hlist, hlisttimely, hlistgoes, hlistreaches, by decide +kernel⟩,
    ⟨congrArg Prod.fst hparts, hpartstimely, hpartsgoes, hpartsreaches, by decide +kernel⟩,
    ⟨congrArg Prod.fst hset, hsettimely,
      ⟨⟨hfair hset hsettimely, by decide +kernel, by decide +kernel,
        idle_of_clients (by decide +kernel)⟩,
        by unfold Display.Alive; decide +kernel, by unfold Display.Alive; decide +kernel⟩,
      by decide +kernel⟩,
    by decide +kernel, hresetgoes, hresetreaches, by decide +kernel⟩

end Server

end X11

end Clipboard
