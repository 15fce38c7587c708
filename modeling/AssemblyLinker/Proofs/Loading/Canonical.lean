import AssemblyLinker.Proofs.Loading.Lockstep
import AssemblyLinker.Proofs.Loading.Recursion
import AssemblyLinker.Proofs.Loading.Reloading
import AssemblyLinker.Proofs.Modules.Reading

/-! # Canonical texts

    The text that is written for an assembly which has just been loaded is a fixed point: where
    everything else is the same, it is loaded as the same assembly, so the same text is written
    again (`canonical_reload`).

    The two root documents differ.  The written one states the uid, has no payloads, and its
    modules are in canonical form.  But the assemblies created for them are equal, and from
    there on the two loads are in step: whatever uids the second one draws, none of them is
    the stated one.
-/

namespace AssemblyLinker

namespace Linker

/-! ## The same sources -/

/-- The texts that a load may come upon besides its own. -/
def textsBeside (L : Linker) (ctx : LoadContext) : List String :=
  (ctx.texts ++ L.files.texts).flatMap fun text => embeddedTexts text.length text

theorem textsBeside_subset (L : Linker) (ctx : LoadContext) (root : String) :
    L.textsBeside ctx ⊆ L.textsAtHand ctx root := by
  rw [textsAtHand, List.flatMap_cons]
  exact List.subset_append_right _ _

theorem mem_textsBeside {L : Linker} {ctx : LoadContext} {text : String} (h : text ∈ ctx.texts) :
    text ∈ L.textsBeside ctx :=
  List.mem_flatMap.2 ⟨text, List.mem_append_left _ h, self_mem_embeddedTexts _ _⟩

theorem supplies_textsBeside (L : Linker) (ctx : LoadContext) : L.Supplies (L.textsBeside ctx) :=
  supplies_embedded fun _ h => List.mem_append_right _ h

theorem locateText_congr {L L' : Linker} (hfiles : L'.files = L.files) (ctx : LoadContext)
    (assembly name : String) : L'.locateText ctx assembly name = L.locateText ctx assembly name := by
  unfold locateText
  rw [hfiles]

/-- Contexts are the same, and hold some texts only. -/
def SameWithin (texts : List String) (c c' : LoadContext) : Prop :=
  c' = c ∧ ∀ text ∈ c.texts, text ∈ texts

/-- Two linkers of one mode, with the same files, find the same texts in the same contexts. -/
theorem parallel_of_files {L L' : Linker} (hmode : L'.mode = L.mode) (hfiles : L'.files = L.files)
    {texts : List String} (hsupplies : L.Supplies texts) :
    Parallel L L' texts (fun _ => True) (SameWithin texts) where
  mode := hmode
  known _ _ _ _ := trivial
  located c c' assembly name source text hagree _ located := by
    obtain ⟨rfl, hwithin⟩ := hagree
    -- a text comes from the context or from a file
    refine ⟨?_, source, ?_⟩
    · rcases mem_of_locateText located with htext | htext
      · exact hwithin text htext
      · exact hsupplies.files text htext
    · rw [locateText_congr hfiles, located]
  bundled c c' doc hagree hdoc _ r hr payloadText hpayload := by
    obtain ⟨rfl, hwithin⟩ := hagree
    obtain ⟨text, htext, hparse⟩ := hdoc
    refine ⟨rfl, ?_⟩
    intro found hfound
    rcases LoadContext.mem_texts_bundle hfound with hfound | rfl
    · exact hwithin found hfound
    · exact hsupplies.payloads text htext _ (mem_payloadTexts hparse hr hpayload)
  cleared c c' doc hagree _ _ := by
    obtain ⟨rfl, hwithin⟩ := hagree
    refine ⟨rfl, ?_⟩
    intro text htext
    exact hwithin text (LoadContext.mem_texts_clearBundle htext)

end Linker

/-! ## The second root -/

theorem Assembly.eq_of_outline {a b : Assembly} (houtline : b.outline = a.outline)
    (huid : b.uid = a.uid) (hexecutable : b.executable = a.executable) : b = a := by
  have hb : b = { b.outline with uid := b.uid, executable := b.executable } := rfl
  rw [hb, houtline, huid, hexecutable]
  rfl

namespace Linker

variable {L : Linker} {doc : Document} {uid : String} {ds : List Handle}
  {ms : List ModuleDocument} {mode : BytecodeMode}

/-- The document that is written for a linked library opens as the document it was linked
    from. -/
theorem newAssembly_toDocument (hmode : doc.mode = mode) (hlibrary : doc.executable = false) :
    newAssembly ((linkedAssembly doc uid ds ms).toDocument mode) uid = newAssembly doc uid := by
  have hdebug : ∀ flag : Bool, (some flag != some false) = flag := by decide
  simp [newAssembly, linkedAssembly, Assembly.addLinks, Assembly.toDocument, Document.mode,
    Document.isDebugBuild, hdebug, ← hmode, hlibrary]

theorem references_toDocument :
    ((linkedAssembly doc uid ds ms).toDocument mode).references.map (·.name) =
      doc.references.map (·.name) := by
  simp [linkedAssembly, Assembly.addLinks, Assembly.toDocument, newAssembly, Function.comp_def]

/-- What is written for the modules is read as the documents they were built from. -/
theorem read_toDocument (hread : doc.modules.map ModuleDocument.read = ms.map .ok) :
    ((linkedAssembly doc uid ds ms).toDocument mode).modules.map ModuleDocument.read =
      doc.modules.map ModuleDocument.read := by
  have hkind : ∀ m ∈ ms, m.kind = ModuleDocument.discriminator := by
    intro m hm
    have hmem : Except.ok m ∈ doc.modules.map ModuleDocument.read := hread ▸ List.mem_map_of_mem hm
    obtain ⟨j, -, hj⟩ := List.mem_map.1 hmem
    exact ModuleDocument.kind_of_read hj
  have hwritten : (ms.map ModuleDocument.built).map ModuleDocument.ofModule = ms := by
    rw [List.map_map]
    conv_rhs => rw [← List.map_id ms]
    apply List.map_congr_left
    intro m hm
    exact ModuleDocument.ofModule_built (hkind m hm)
  show ((ms.map ModuleDocument.built).map ModuleInfo.toJson).map ModuleDocument.read = _
  rw [ModuleDocument.read_toJson_modules, hwritten, hread]

theorem uidFor_ne_empty (hdrawn : ∀ n, L.uids n ≠ "") (doc : Document) (s : Session) :
    L.uidFor doc s ≠ "" := by
  unfold uidFor
  split
  · exact hdrawn _
  · assumption

/-- The load of a library where nothing is registered is in step with that of another text whose
    document opens as the same assembly, and has the same references and modules. -/
theorem Stages.in_step {ctx : LoadContext} {depth : Nat} {o p u v : Session}
    (hstages : Stages L (L.loadWithin depth) doc { context := ctx } o p u v)
    (hlibrary : doc.executable = false) {text origin : String}
    (hparse : Document.parse text origin = .ok doc)
    (hfresh : L.FreshUids (L.textsAtHand ctx text) { context := ctx }) (L' : Linker)
    (hmode : L'.mode = L.mode) (hfiles : L'.files = L.files) {doc' : Document} {text' origin' : String}
    (hparse' : Document.parse text' origin' = .ok doc')
    (hfresh' : L'.FreshUids (L'.textsAtHand ctx text') { context := ctx })
    (hnew : newAssembly doc' (L'.uidFor doc' { context := ctx }) =
      newAssembly doc (L.uidFor doc { context := ctx }))
    (hreferences : doc'.references.map (·.name) = doc.references.map (·.name))
    (hread : doc'.modules.map ModuleDocument.read = doc.modules.map ModuleDocument.read) :
    ∃ o' p' u' v', Stages L' (L'.loadWithin depth) doc' { context := ctx } o' p' u' v' ∧
      InStep L L' (L.textsBeside ctx) (SameWithin (L.textsBeside ctx))
        ((v.leave doc).record (.completed 0)) ((v'.leave doc').record (.completed 0)) := by
  have hp := parallel_of_files hmode hfiles (L.supplies_textsBeside ctx)
  have hsub : L.textsBeside ctx ⊆ L.textsAtHand ctx text := L.textsBeside_subset ctx text
  have hsub' : L.textsBeside ctx ⊆ L'.textsAtHand ctx text' := by
    unfold textsBeside
    rw [← hfiles]
    exact L'.textsBeside_subset ctx text'
  have hwithin : SameWithin (L.textsBeside ctx) ctx ctx := ⟨rfl, fun _ => mem_textsBeside⟩
  have hstart : InStep L L' (L.textsBeside ctx) (SameWithin (L.textsBeside ctx))
      { context := ctx } { context := ctx } :=
    ⟨fun _ => rfl, fun _ => rfl, fun _ _ _ => rfl, hfresh.subset hsub, hfresh'.subset hsub', hwithin⟩
  -- both documents open, with the same uid
  have hmode' : doc'.mode = L'.mode :=
    ((congrArg Assembly.mode hnew).trans hstages.opens.mode).trans hmode.symm
  obtain ⟨o', opens'⟩ : ∃ o', L'.Opens doc' { context := ctx } o' := ⟨_, opens_of_empty rfl hmode'⟩
  have huid : L'.uidFor doc' { context := ctx } = L.uidFor doc { context := ctx } :=
    congrArg Assembly.uid hnew
  have hopened := hfresh.opens hstages.opens (documentAmong_root hparse).statesUid
  have hopened' := hfresh'.opens opens' (documentAmong_root hparse').statesUid
  have ho := hstart.opened hstages.opens opens' (congrArg Assembly.outline hnew)
    (fun uid _ => by rw [huid]) (hopened.subset hsub) (hopened'.subset hsub')
  -- neither has payloads
  have hlibrary' : doc'.executable = false :=
    (congrArg Assembly.executable hnew).trans hlibrary
  obtain rfl : o = p := hstages.harvested_of_library hlibrary
  obtain ⟨u', v', hstages', hv⟩ := hp.link (hp.load depth) hstages opens'
    (harvest_of_library hlibrary' o') ho (fun _ _ => trivial) rfl (congrArg Assembly.name hnew)
    hreferences hread
  refine ⟨o', o', u', v', hstages', ?_⟩
  rw [Session.leave_of_library hlibrary, Session.leave_of_library hlibrary']
  exact hv.changed_same (v.completed_changed 0) (v'.completed_changed 0) fun _ => rfl

end Linker

/-- A library is loaded where nothing is registered, with fresh uids, and written in the mode of
    the linker.  Loading this text with the same context, the same files and fresh uids, also
    where nothing is registered, yields the same assembly: with the same uid, metadata, flags,
    references and modules, so that the same text is written for it.  All other assemblies are
    the same but for their uids. -/
theorem canonical_reload (L : Linker) (uids : UidStream) (ctx : LoadContext)
    (text origin origin' : String) (h : Handle) (t : Session) (a : Assembly)
    (hfresh : L.FreshUids (L.textsAtHand ctx text) { context := ctx })
    (hdrawn : ∀ n, L.uids n ≠ "")
    (hload : L.load text origin { context := ctx } = (.ok h, t))
    (ha : t.store.get? h = some a) (hlibrary : a.executable = false)
    (hfresh' : Linker.FreshUids { L with uids } (L.textsAtHand ctx (a.render L.mode))
      { context := ctx }) :
    ∃ t', Linker.load { L with uids } (a.render L.mode) origin' { context := ctx } = (.ok h, t') ∧
      t'.store.get? h = some a ∧
      ∀ i, (t'.store.get? i).map Assembly.outline = (t.store.get? i).map Assembly.outline := by
  obtain ⟨depth, doc, o, p, u, v, hdepth, hparse, hstages, rfl, rfl⟩ :=
    Linker.Stages.of_load rfl hload
  obtain ⟨ds, ms, -, -, -, hbuildable, -, hown⟩ := hstages.linked
  generalize huid : L.uidFor doc { context := ctx } = uid at hown
  obtain rfl : Linker.linkedAssembly doc uid ds ms = a := Option.some.inj (hown.symm.trans ha)
  have hlibrary : doc.executable = false := hlibrary
  -- the written document states the uid, so that it opens as the same assembly
  generalize hwritten : (Linker.linkedAssembly doc uid ds ms).toDocument L.mode = doc'
  have huid' : Linker.uidFor { L with uids } doc' { context := ctx } = uid := by
    have hstated : doc'.uid = uid := hwritten ▸ rfl
    have hne : uid ≠ "" := huid ▸ Linker.uidFor_ne_empty hdrawn doc _
    rw [Linker.uidFor, hstated, if_neg hne]
  have hnew : Linker.newAssembly doc' uid = Linker.newAssembly doc uid :=
    hwritten ▸ Linker.newAssembly_toDocument hstages.opens.mode hlibrary
  have hreferences : doc'.references.map (·.name) = doc.references.map (·.name) :=
    hwritten ▸ Linker.references_toDocument
  have hread : doc'.modules.map ModuleDocument.read = doc.modules.map ModuleDocument.read :=
    hwritten ▸ Linker.read_toDocument hbuildable.read
  have hparse' : Document.parse ((Linker.linkedAssembly doc uid ds ms).render L.mode) origin' =
      .ok doc' :=
    hwritten ▸ (Linker.linkedAssembly doc uid ds ms).parse_render L.mode origin'
  obtain ⟨o', p', u', v', hstages', hfinal⟩ := hstages.in_step hlibrary hparse hfresh
    { L with uids } rfl rfl hparse' hfresh' (by rw [huid, huid', hnew]) hreferences hread
  refine ⟨_, hstages'.load_eq hdepth hparse', ?_, hfinal.store⟩
  -- the assembly is the same but for its uid, and that is stated
  obtain ⟨ds', ms', -, -, -, -, -, hown'⟩ := hstages'.linked
  obtain ⟨a', ha', houtline⟩ := hfinal.get? hown
  obtain rfl := Option.some.inj (hown'.symm.trans ha')
  have hlibrary' : doc'.executable = false := hwritten ▸ rfl
  rw [hown', Assembly.eq_of_outline houtline huid' (hlibrary'.trans hlibrary.symm)]

section Widgets

/-- A written assembly ships nothing. -/
theorem payloadTexts_render (a : Assembly) (mode : BytecodeMode) :
    payloadTexts (a.render mode) = [] := by
  apply payloadTexts_eq_nil (a.parse_render mode "")
  intro r hr
  obtain ⟨name, -, rfl⟩ := List.mem_map.1 hr
  rfl

/-- A library with a type; its uid is to be drawn. -/
def widgetLibrary : Assembly :=
  { name := "Widgets", uid := "", modules := [⟨"Types", "1", [⟨"", "Widget", some {}⟩]⟩] }

/-- A program with a type that is based on it. -/
def widgetProgram (uid : String) (dependencies : List Handle) : Assembly :=
  { name := "Main", uid, references := ["Widgets"], dependencies,
    modules := [⟨"Main", "1",
      [⟨"app", "Window", some { base := some "Widget", fields := [⟨"width", "int"⟩] }⟩]⟩] }

/-- The bootstrap provides the library. -/
def widgetContext : LoadContext :=
  { bootstrap := some [("Widgets", widgetLibrary.render .interpreted)] }

/-- Uids count up from some length. -/
def countingLinker (first : Nat) : Linker := { uids := fun n => unaryUids (first + n), maxDepth := 2 }

/-- Uids are fresh beside a program whose own one is empty or shorter. -/
theorem freshUids_widgets (first : Nat) (uid : String) (ds : List Handle)
    (huid : ∀ n, uid ≠ unaryUids (first + n)) :
    (countingLinker first).FreshUids ((countingLinker first).textsAtHand widgetContext
      ((widgetProgram uid ds).render .interpreted)) { context := widgetContext } := by
  refine ⟨?_, ?_, ?_⟩
  · intro m n _ hlt
    exact unaryUids_ne (Nat.add_lt_add_left hlt first)
  · intro n _ e he
    cases he
  · rintro n - ⟨hne, text, htext, doc, hparse, hdoc⟩
    have hwritten : ∀ text ∈ (widgetProgram uid ds).render .interpreted ::
        (widgetContext.texts ++ (countingLinker first).files.texts),
        text = (widgetProgram uid ds).render .interpreted ∨
          text = widgetLibrary.render .interpreted := by
      intro text htext
      simpa [widgetContext, LoadContext.texts, FileSystem.texts, countingLinker] using htext
    have htexts := Linker.textsAtHand_of_nil fun text htext => by
      rcases hwritten text htext with rfl | rfl <;> exact payloadTexts_render _ _
    rcases hwritten text (htexts ▸ htext) with rfl | rfl
    · rw [Assembly.parse_render] at hparse
      cases hparse
      exact huid n hdoc
    · rw [Assembly.parse_render] at hparse
      cases hparse
      exact hne hdoc.symm

/-- The session in which the program has been created. -/
def programOpened : Session :=
  (({ context := widgetContext } : Session).record .uidDrawn).record
    (.created (Linker.newAssembly ((widgetProgram "" []).toDocument .interpreted) "u"))

/-- The session in which its library has been created. -/
def libraryOpened : Session :=
  ((programOpened.refer 0 "Widgets" .bootstrap (widgetLibrary.render .interpreted)).record
    .uidDrawn).record
      (.created (Linker.newAssembly (widgetLibrary.toDocument .interpreted) "uu"))

/-- The session in which the modules of the library have been built. -/
def libraryBuilt : Session :=
  (Linker.buildModules 1 (widgetLibrary.toDocument .interpreted).modules libraryOpened).2

theorem stages_library : Linker.Stages (countingLinker 0) ((countingLinker 0).loadWithin 0)
    (widgetLibrary.toDocument .interpreted)
    (programOpened.refer 0 "Widgets" .bootstrap (widgetLibrary.render .interpreted)) libraryOpened
    libraryOpened libraryOpened libraryBuilt := by
  have hmodules : Linker.buildModules 1 (widgetLibrary.toDocument .interpreted).modules
      libraryOpened = (.ok (), libraryBuilt) := rfl
  exact ⟨⟨rfl, rfl, rfl, rfl⟩, rfl, rfl, hmodules⟩

/-- The session in which the library has been linked to the program. -/
def libraryLinked : Session :=
  (libraryBuilt.record (.completed 1)).record (.dependencyAdded 0 1)

theorem linkReference_widgets : (countingLinker 0).linkReference ((countingLinker 0).loadWithin 1)
    "Main" 0 { name := "Widgets" } programOpened = (.ok (), libraryLinked) := by
  have hlocated : (countingLinker 0).locateText programOpened.context "Main" "Widgets" =
      .ok (.bootstrap, widgetLibrary.render .interpreted) := rfl
  have hload : (countingLinker 0).loadWithin 1 (widgetLibrary.render .interpreted) "Widgets"
      (programOpened.refer 0 "Widgets" .bootstrap (widgetLibrary.render .interpreted)) =
        (.ok 1, libraryBuilt.record (.completed 1)) := by
    rw [Linker.loadWithin, Assembly.parse_render]
    exact stages_library.accept_eq
  rw [Linker.linkReference_of_located _ _ _ _ rfl hlocated, Action.andThen_of_ok hload]
  rfl

theorem load_widgetProgram : ∃ t, (countingLinker 0).load
      ((widgetProgram "" []).render .interpreted) "" { context := widgetContext } = (.ok 0, t) ∧
    t.store.get? 0 = some (widgetProgram "u" [1]) := by
  have hopens : (countingLinker 0).Opens ((widgetProgram "" []).toDocument .interpreted)
    { context := widgetContext } programOpened := ⟨rfl, rfl, rfl, rfl⟩
  have hreferences : Action.forEach ((countingLinker 0).linkReference
      ((countingLinker 0).loadWithin 1) "Main" 0) [{ name := "Widgets" }] programOpened =
        (.ok (), libraryLinked) := by
    rw [Action.forEach, Action.andThen_of_ok linkReference_widgets]
    rfl
  obtain ⟨v, hmodules, hown⟩ : ∃ v, Linker.buildModules 0
      ((widgetProgram "" []).toDocument .interpreted).modules libraryLinked = (.ok (), v) ∧
      (v.record (.completed 0)).store.get? 0 = some (widgetProgram "u" [1]) := ⟨_, rfl, rfl⟩
  have hstages : Linker.Stages (countingLinker 0) ((countingLinker 0).loadWithin 1)
      ((widgetProgram "" []).toDocument .interpreted) { context := widgetContext } programOpened
      programOpened libraryLinked v :=
    ⟨hopens, rfl, hreferences, hmodules⟩
  exact ⟨_, hstages.load_eq rfl (Assembly.parse_render _ _ _), hown⟩

/-- A program without a uid is loaded and written, and what is written is loaded as the same
    program although other uids are drawn. -/
theorem canonical_reload_widgets :
    (∃ t, (countingLinker 0).load ((widgetProgram "" []).render .interpreted) ""
        { context := widgetContext } = (.ok 0, t) ∧
      t.store.get? 0 = some (widgetProgram "u" [1])) ∧
    ∃ t', (countingLinker 1).load ((widgetProgram "u" [1]).render .interpreted) ""
        { context := widgetContext } = (.ok 0, t') ∧
      t'.store.get? 0 = some (widgetProgram "u" [1]) := by
  have hfresh := freshUids_widgets 0 "" [] (by
    intro n heq
    have hlength := congrArg String.length heq
    simp [unaryUids] at hlength)
  have hfresh' := freshUids_widgets 1 "u" [1] fun n => unaryUids_ne (m := 0) (by omega)
  have hdrawn : ∀ n, (countingLinker 0).uids n ≠ "" := by
    intro n heq
    have hlength := congrArg String.length heq
    simp [countingLinker, unaryUids] at hlength
  obtain ⟨t, hload, hown⟩ := load_widgetProgram
  obtain ⟨t', hload', hown', -⟩ := canonical_reload (countingLinker 0) (countingLinker 1).uids
    widgetContext _ "" "" 0 t _ hfresh hdrawn hload hown rfl hfresh'
  exact ⟨⟨t, hload, hown⟩, t', hload', hown'⟩

end Widgets

end AssemblyLinker
