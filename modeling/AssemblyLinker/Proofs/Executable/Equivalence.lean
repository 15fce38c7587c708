import AssemblyLinker.Proofs.Executable.Embedding
import AssemblyLinker.Proofs.Loading.Lockstep
import AssemblyLinker.Proofs.Loading.Registration
import AssemblyLinker.Proofs.Modules.Rereading

/-! # Executables and their roots

    An executable is loaded without a bootstrap, a search path or files.  It finds in its bundle
    what the root found in the context of the build, as long as the bundle lasts, so their
    references are linked in lockstep (`Bundles.parallel`).

    Two things can go wrong.  A library that is an executable itself clears the bundle
    (`executable_stops_behind_executable`).  And the executable also refers to all that was needed
    further down: what has not been linked by then is loaded although the root got along without
    it.  Apart from these, the executable is the same program (`executable_runs_alike_iff`).
-/

namespace AssemblyLinker.Executable

open Linker

section Bundled

variable {L L' : Linker} {ctx : LoadContext} {root : Document} {payloads : List (String × String)}
  {text origin : String}

/-! ## Where the texts are -/

/-- What has been gathered is at hand where the root is loaded. -/
theorem Gathers.subset_build (h : Gathers L.files ctx root payloads) (text : String) :
    payloads.map (·.2) ⊆ L.textsAtHand ctx text := by
  intro found hfound
  obtain ⟨p, hp, rfl⟩ := List.mem_map.1 hfound
  obtain ⟨-, library, hships⟩ := h.shipped p hp
  rcases List.mem_append.1 (mem_of_textOf? hships.found) with hbootstrap | hfile
  · exact context_mem_textsAtHand ctx text (List.mem_append_left _ hbootstrap)
  · exact (L.supplies_textsAtHand ctx text).files _ hfile

/-- What has been gathered is at hand where the executable is loaded. -/
theorem Gathers.subset_shipped (h : Gathers L.files ctx root payloads)
    (hparse : Document.parse text origin = .ok root) :
    payloads.map (·.2) ⊆ L'.textsAtHand {} (embed root payloads).render := by
  intro found hfound
  obtain ⟨p, hp, rfl⟩ := List.mem_map.1 hfound
  obtain ⟨hneeded, library, hships⟩ := h.shipped p hp
  obtain ⟨r, hr, hname⟩ := List.mem_map.1 (h.mem_names_iff.2 hneeded)
  obtain ⟨found, hlookup, hpayload⟩ := h.payload_eq hr (embed root payloads).name
  have hfound := (h.lookup_eq_some_iff.1 hlookup).2
  rw [hname, hships.found] at hfound
  rw [Option.some.inj hfound]
  refine (L'.supplies_textsAtHand {} _).payloads _ (root_mem_textsAtHand {} _) _ ?_
  exact mem_payloadTexts (parse_embed hparse payloads "") hr hpayload

/-- A context offers what has been gathered, and nothing else, in place of the context of the
    build. -/
def StandsIn (ctx : LoadContext) (payloads : List (String × String)) (c c' : LoadContext) : Prop :=
  c = ctx ∧ c'.bootstrap = none ∧ ∀ name, c'.bundled? name = payloads.lookup name

/-- Without a bundle a load finds what the walk through the libraries finds. -/
theorem locateText_iff (hempty : ctx.bundled = []) (assembly name : String) :
    (∃ source, L.locateText ctx assembly name = .ok (source, text)) ↔
      textOf? L.files ctx name = some text := by
  have hnone : ctx.bundled? name = none := by simp [LoadContext.bundled?, hempty]
  unfold locateText textOf?
  rw [hnone]
  cases ctx.bootstrapDocument? name with
  | some found => simp
  | none =>
    simp only
    rcases ctx.findLibrary L.files name with e | _ | ⟨path, found⟩ <;> simp

theorem locateText_of_standsIn {c c' : LoadContext} (hstands : StandsIn ctx payloads c c')
    {name : String} (hlookup : payloads.lookup name = some text) (assembly : String) :
    L'.locateText c' assembly name = .ok (.bundle, text) := by
  obtain ⟨-, hbootstrap, hbundled⟩ := hstands
  refine locateText_of_bundled ?_ ((hbundled name).trans hlookup)
  rw [LoadContext.bootstrapDocument?, hbootstrap]
  rfl

/-- No needed library is an executable. -/
def LibrariesOnly (files : FileSystem) (ctx : LoadContext) (root : Document) : Prop :=
  ∀ name text library, Needed files ctx root name → textOf? files ctx name = some text →
    Document.parse text name = .ok library → library.executable = false

/-- Every text that has been gathered is that of a library, which needs nothing else. -/
theorem Gathers.among (h : Gathers L.files ctx root payloads)
    (hlibraries : LibrariesOnly L.files ctx root) {doc : Document}
    (hdoc : DocumentAmong (payloads.map (·.2)) doc) :
    doc.executable = false ∧ ∀ r ∈ doc.references, Needed L.files ctx root r.name := by
  obtain ⟨text, htext, hparse⟩ := hdoc
  obtain ⟨p, hp, rfl⟩ := List.mem_map.1 htext
  obtain ⟨hneeded, library, hships⟩ := h.shipped p hp
  refine ⟨hlibraries p.1 p.2 doc hneeded hships.found (Document.parse_origin hparse _), ?_⟩
  intro r hr
  refine .indirect hneeded hships.found ?_
  rw [referencedNames_of_parse hparse]
  exact List.mem_map_of_mem hr

/-- A library, and the executable that is made of it where no needed library is an executable:
    the one is loaded in the context of the build, the other one in an empty context. -/
structure Bundles (L L' : Linker) (ctx : LoadContext) (text origin : String) (root : Document)
    (payloads : List (String × String)) : Prop where
  gathers : Gathers L.files ctx root payloads
  mode : L'.mode = L.mode
  unbundled : ctx.bundled = []
  parsed : Document.parse text origin = .ok root
  library : root.executable = false
  libraries : LibrariesOnly L.files ctx root
  fresh : L.FreshUids (L.textsAtHand ctx text) { context := ctx }
  shippedFresh : L'.FreshUids (L'.textsAtHand {} (embed root payloads).render) {}

/-- No text that has been gathered is that of an executable. -/
theorem Bundles.not_executable (h : Bundles L L' ctx text origin root payloads) {doc : Document}
    (hdoc : DocumentAmong (payloads.map (·.2)) doc) : ¬ doc.executable = true := by
  rw [(h.gathers.among h.libraries hdoc).1]
  exact Bool.false_ne_true

/-- The executable finds in its bundle what the root finds. -/
theorem Bundles.parallel (h : Bundles L L' ctx text origin root payloads) :
    Parallel L L' (payloads.map (·.2)) (Needed L.files ctx root) (StandsIn ctx payloads) where
  mode := h.mode
  known doc hdoc := (h.gathers.among h.libraries hdoc).2
  located c c' assembly name source found hstands hneeded located := by
    obtain rfl : c = ctx := hstands.1
    have hfound := (locateText_iff h.unbundled assembly name).1 ⟨source, located⟩
    have hlookup : payloads.lookup name = some found :=
      h.gathers.lookup_eq_some_iff.2 ⟨hneeded, hfound⟩
    exact ⟨List.mem_map_of_mem (mem_of_lookup hlookup), .bundle,
      locateText_of_standsIn hstands hlookup assembly⟩
  bundled _ _ _ _ hdoc hexecutable := absurd hexecutable (h.not_executable hdoc)
  cleared _ _ _ _ hdoc hexecutable := absurd hexecutable (h.not_executable hdoc)

/-- The root finds what the executable finds in its bundle. -/
theorem Bundles.parallel_symm (h : Bundles L L' ctx text origin root payloads) :
    Parallel L' L (payloads.map (·.2)) (Needed L.files ctx root)
      (fun c' c => StandsIn ctx payloads c c') where
  mode := h.mode.symm
  known doc hdoc := (h.gathers.among h.libraries hdoc).2
  located c' c assembly name source found hstands hneeded located := by
    have hshipped := lookup_isSome_iff.2 (h.gathers.complete name hneeded)
    obtain ⟨shipped, hlookup⟩ := Option.isSome_iff_exists.1 hshipped
    rw [locateText_of_standsIn hstands hlookup assembly] at located
    cases located
    obtain rfl : c = ctx := hstands.1
    exact ⟨List.mem_map_of_mem (mem_of_lookup hlookup),
      (locateText_iff h.unbundled assembly name).2 (h.gathers.lookup_eq_some_iff.1 hlookup).2⟩
  bundled _ _ _ _ hdoc hexecutable := absurd hexecutable (h.not_executable hdoc)
  cleared _ _ _ _ hdoc hexecutable := absurd hexecutable (h.not_executable hdoc)

/-! ## The load of an executable -/

/-- When a text has been loaded where nothing was registered, everything that is registered is
    complete. -/
theorem complete_of_load {h : Handle} {t : Session}
    (hload : L.load text origin { context := ctx } = (.ok h, t)) :
    h ∈ t.registry.handles ∧
      ∀ e ∈ t.registry.entries, ∃ a, t.store.get? e.handle = some a ∧ t.Complete a := by
  have hsound : Session.Sound { context := ctx } := ⟨List.nodup_nil, fun e he => by cases he⟩
  obtain ⟨hadvances, hanswers⟩ := L.registersLinked.of_load hload hsound
  obtain ⟨added, hentries, hadded⟩ := hadvances.entries
  refine ⟨hanswers.1.registered, ?_⟩
  intro e he
  rw [hentries] at he
  obtain ⟨-, a, ha, hcomplete, -⟩ := hadded e he
  exact ⟨a, ha, hcomplete⟩

/-- So are its dependencies. -/
theorem dependencies_of_load {h : Handle} {t : Session} {a : Assembly}
    (hload : L.load text origin { context := ctx } = (.ok h, t)) (ha : t.store.get? h = some a) :
    ∀ d ∈ a.dependencies, t.Linked d := by
  obtain ⟨hregistered, hall⟩ := complete_of_load hload
  obtain ⟨e, he, rfl⟩ := Session.mem_handles.1 hregistered
  obtain ⟨b, hb, hcomplete⟩ := hall e he
  obtain rfl : b = a := Option.some.inj (hb.symm.trans ha)
  exact fun d hd => (hcomplete.provided d hd).linked

/-- The document of an executable as it is read. -/
abbrev embedded (root : Document) (payloads : List (String × String)) : Document :=
  (embed root payloads).reread

variable {lib : Document} {o p u v o' p' w v' : Session} {depth : Nat}

/-- A document that is the root but for its references and modules is opened in step with the
    executable, once this has been harvested. -/
theorem Bundles.opened (h : Bundles L L' ctx text origin root payloads)
    (hlib : { lib with references := root.references, modules := root.modules } = root)
    (opens : L.Opens lib { context := ctx } o) (opens' : L'.Opens (embedded root payloads) {} o')
    (harvested' : harvest (embedded root payloads) o' = (.ok (), p')) :
    InStep L L' (payloads.map (·.2)) (StandsIn ctx payloads) o p' := by
  have hsub : payloads.map (·.2) ⊆ L.textsAtHand ctx text := h.gathers.subset_build text
  have hsub' : payloads.map (·.2) ⊆ L'.textsAtHand {} (embed root payloads).render :=
    h.gathers.subset_shipped h.parsed
  have hstart : InStep L L' (payloads.map (·.2)) (fun _ _ => True) { context := ctx } {} :=
    ⟨fun _ => rfl, fun _ => rfl, fun _ _ _ => rfl, h.fresh.subset hsub,
      h.shippedFresh.subset hsub', trivial⟩
  have huid : lib.uid = root.uid := congrArg (·.uid) hlib
  have houtline : ∀ uid uid', (newAssembly (embedded root payloads) uid').outline =
      (newAssembly lib uid).outline := by
    intro uid uid'
    show (newAssembly root "").outline = (newAssembly
      { lib with references := root.references, modules := root.modules } "").outline
    rw [hlib]
  have hstated : lib.uid ≠ "" → StatesUid (L.textsAtHand ctx text) lib.uid := by
    rw [huid]
    exact (documentAmong_root h.parsed).statesUid
  have hstated' : (embedded root payloads).uid ≠ "" →
      StatesUid (L'.textsAtHand {} (embed root payloads).render) (embedded root payloads).uid :=
    (documentAmong_root (parse_embed h.parsed payloads "")).statesUid
  have hopened := (h.fresh.opens opens hstated).subset hsub
  have hopened' := (h.shippedFresh.opens opens' hstated').subset hsub'
  have ho := hstart.opened opens opens' (houtline _ _)
    (fun uid => hstart.uidFor_eq_iff huid.symm) hopened hopened'
  -- harvesting changes the bundle alone
  obtain ⟨q, hharvest, -, hbundled⟩ := h.gathers.harvest_embed (s := o') (by rw [opens'.context])
  obtain rfl : q = p' := congrArg Prod.snd (hharvest.symm.trans harvested')
  have hsame := harvest_eq harvested'
  refine ho.withContext rfl rfl rfl ?_ ?_ ?_ ⟨opens.context, ?_, hbundled⟩
  · rw [hsame]
  · rw [hsame]
  · rw [hsame]
  · rw [hsame]
    exact congrArg LoadContext.bootstrap opens'.context

theorem read_modules_embed (payloads : List (String × String)) {ms : List ModuleDocument}
    (hread : root.modules.map ModuleDocument.read = ms.map .ok) :
    (embedded root payloads).modules.map ModuleDocument.read =
      root.modules.map ModuleDocument.read :=
  ModuleDocument.read_rereadItems hread

/-- The executable without its flag: it refers to all that the root needs. -/
abbrev plain (root : Document) (payloads : List (String × String)) : Document :=
  { embedded root payloads with executable := false }

/-- Every executable can be written without its flag. -/
theorem parse_plain (hparse : Document.parse text origin = .ok root)
    (payloads : List (String × String)) (origin' : String) :
    Document.parse ({ embed root payloads with executable := false } : Document).render origin' =
      .ok (plain root payloads) := by
  have hreadable : ({ embed root payloads with executable := false } : Document).Readable := by
    intro j hj
    exact Document.parse_readable hparse j hj
  exact Document.parse_render hreadable origin'

theorem plain_root (hlibrary : root.executable = false) :
    { plain root payloads with references := root.references, modules := root.modules } = root := by
  obtain ⟨name, version, uid, loomConfig, jit, debugBuild, executable, references, modules⟩ := root
  cases hlibrary
  rfl

theorem Gathers.needed_embed (h : Gathers L.files ctx root payloads) :
    ∀ r ∈ (embedded root payloads).references, Needed L.files ctx root r.name := by
  intro r hr
  exact h.mem_names_iff.1 (List.mem_map_of_mem hr)

/-- If the executable without its flag is linked in the context of the build, the executable is
    linked. -/
theorem Bundles.stages (h : Bundles L L' ctx text origin root payloads)
    (hstages : Stages L (L.loadWithin depth) (plain root payloads) { context := ctx } o p u v) :
    ∃ o' p' w v', Stages L' (L'.loadWithin depth) (embedded root payloads) {} o' p' w v' := by
  have hmode' : (embedded root payloads).mode = L'.mode := hstages.opens.mode.trans h.mode.symm
  obtain ⟨o', opens'⟩ : ∃ o', L'.Opens (embedded root payloads) {} o' :=
    ⟨_, opens_of_empty rfl hmode'⟩
  obtain ⟨p', harvested', -⟩ := h.gathers.harvest_embed (s := o') (by rw [opens'.context])
  have ho := h.opened (plain_root h.library) hstages.opens opens' harvested'
  obtain rfl : o = p := hstages.harvested_of_library rfl
  obtain ⟨w, v', hstages', -⟩ := h.parallel.link (h.parallel.load depth) hstages opens'
    harvested' ho h.gathers.needed_embed rfl rfl rfl rfl
  exact ⟨o', p', w, v', hstages'⟩

/-- If the executable is linked, it is linked without its flag in the context of the build, too. -/
theorem Bundles.stages_plain (h : Bundles L L' ctx text origin root payloads)
    (hstages' : Stages L' (L'.loadWithin depth) (embedded root payloads) {} o' p' w v') :
    ∃ o u v, Stages L (L.loadWithin depth) (plain root payloads) { context := ctx } o o u v := by
  have hmode' : (plain root payloads).mode = L.mode := hstages'.opens.mode.trans h.mode
  obtain ⟨o, opens⟩ : ∃ o, L.Opens (plain root payloads) { context := ctx } o :=
    ⟨_, opens_of_empty rfl hmode'⟩
  have ho := h.opened (plain_root h.library) opens hstages'.opens hstages'.harvested
  obtain ⟨u, v, hstages, -⟩ := h.parallel_symm.link (h.parallel_symm.load depth) hstages' opens
    (harvest_of_library rfl o) ho.symm h.gathers.needed_embed rfl rfl rfl rfl
  exact ⟨o, u, v, hstages⟩

/-- The references of an executable are linked as those of the root, and then the other ones. -/
theorem linkReferences_embed (load : Load) (assembly : String) (i : Handle) (s : Session) :
    Action.forEach (L'.linkReference load assembly i) (embed root payloads).references s =
      ((Action.forEach (L'.linkReference load assembly i) root.references).andThen fun () =>
        Action.forEach (L'.linkReference load assembly i)
          ((indirect root payloads).map fun p => ({ name := p.1 } : Reference))) s := by
  have hnames : (embed root payloads).references.map (·.name) =
      (root.references ++ (indirect root payloads).map fun p => ({ name := p.1 } : Reference)).map
        (·.name) := by
    rw [names_embed, List.map_append, List.map_map]
    rfl
  rw [L'.linkReferences_congr load assembly i hnames, Action.forEach_append]

/-- A session has linked the assembly of a handle with the same modules as another one, and its
    first references, as many as given, to assemblies that are the same but for their uids. -/
def RunsAlike (count : Nat) (h : Handle) (t t' : Session) : Prop :=
  ∃ a a', t.store.get? h = some a ∧ t'.store.get? h = some a' ∧ a'.modules = a.modules ∧
    ∀ i < count, ∃ d b b', a.dependencies[i]? = some d ∧ a'.dependencies[i]? = some d ∧
      t.store.get? d = some b ∧ t'.store.get? d = some b' ∧ b'.outline = b.outline

/-- If both are linked, the executable runs as its root. -/
theorem Bundles.alike (h : Bundles L L' ctx text origin root payloads)
    (hstages : Stages L (L.loadWithin depth) root { context := ctx } o p u v)
    (hstages' : Stages L' (L'.loadWithin depth) (embedded root payloads) {} o' p' w v')
    (hlinked : ∀ a, ((v.leave root).record (.completed 0)).store.get? 0 = some a →
      ∀ d ∈ a.dependencies, ((v.leave root).record (.completed 0)).Linked d) :
    RunsAlike root.references.length 0 ((v.leave root).record (.completed 0))
      ((v'.leave (embedded root payloads)).record (.completed 0)) := by
  obtain rfl : o = p := hstages.harvested_of_library h.library
  have ho := h.opened (by rfl) hstages.opens hstages'.opens hstages'.harvested
  -- the references of the root are linked in step
  obtain ⟨u', hroot, hu⟩ := h.parallel.references (h.parallel.load depth) root.name
    (fun r hr => .direct (List.mem_map_of_mem hr)) o p' ho () u hstages.references
  obtain ⟨_, w₀, hroot', hextra⟩ :=
    Action.andThen_eq_ok ((linkReferences_embed _ _ _ p').symm.trans hstages'.references)
  obtain rfl : u' = w₀ := congrArg Prod.snd (hroot.symm.trans hroot')
  obtain ⟨ds, ms, hlength, hothers, hown, hbuildable, hrebuilt, hend⟩ := hstages.linked
  obtain ⟨ds', ms', -, -, hown', hbuildable', hrebuilt', hend'⟩ := hstages'.linked
  rw [Session.leave_of_library h.library] at hend hlinked ⊢
  -- the other references come behind those of the root
  obtain ⟨b, hb, houtline⟩ := hu.get? hown
  have hlinking : b.state = .linking := congrArg (·.state) houtline
  obtain ⟨es, -, -, hmore⟩ := L'.linkReferences_own root.name _ hb hlinking hextra
  have hds' : ds' = ds ++ es := by
    have hsame := congrArg (·.dependencies) (Option.some.inj (hown'.symm.trans hmore))
    have hfirst : b.dependencies = ds := congrArg (·.dependencies) houtline
    rw [← hfirst]
    exact hsame
  have hms' : ms' = ms := by
    have hmaps := (hbuildable'.read.symm.trans (read_modules_embed payloads hbuildable.read)).trans
      hbuildable.read
    exact List.map_injective_iff.2 (fun _ _ h => Except.ok.inj h) hmaps
  subst hds' hms'
  refine ⟨_, _, hend, hend', rfl, ?_⟩
  intro i hi
  have hdsi : ds[i]? = some ds[i] := List.getElem?_eq_getElem (by omega)
  have hother : ds[i] ≠ 0 := hothers _ (List.getElem_mem _)
  obtain ⟨c, hc, -⟩ := hlinked _ hend ds[i] (List.getElem_mem _)
  have hcu : u.store.get? ds[i] = some c :=
    ((hrebuilt.trans (v.completed_changed 0)).get?_ne hother).symm.trans hc
  obtain ⟨c', hc', hcoutline⟩ := hu.get? hcu
  have hcw : w.store.get? ds[i] = some c' := L'.linkReferences_others _ _ hextra hother hc'
  refine ⟨ds[i], c, c', hdsi, ?_, hc, ?_, hcoutline⟩
  · show (ds ++ es)[i]? = _
    rw [List.getElem?_append_left (by omega), hdsi]
  · have hleft : (v'.leave (embedded root payloads)).store.get? ds[i] = v'.store.get? ds[i] := by
      rw [Session.leave_store]
    exact (((v'.leave _).completed_changed 0).get?_ne hother).trans
      (hleft.trans ((hrebuilt'.get?_ne hother).trans hcw))

/-- If everything that is needed further down has been registered with the root, the executable
    without its flag is linked in the context of the build: its other references stand for what is
    registered. -/
theorem Gathers.stages_of_registered (h : Gathers L.files ctx root payloads)
    (hlibrary : root.executable = false)
    (hstages : Stages L (L.loadWithin depth) root { context := ctx } o p u v)
    (hlinked : ∀ d, d ≠ 0 → d ∈ u.registry.handles → u.Linked d)
    (hregistered : ∀ name, Needed L.files ctx root name → name ∉ root.references.map (·.name) →
      ∃ d, d ≠ 0 ∧ u.registry.findByName? name = some d) :
    ∃ w v₂, Stages L (L.loadWithin depth) (plain root payloads) { context := ctx } o o w v₂ := by
  obtain rfl : o = p := hstages.harvested_of_library hlibrary
  obtain ⟨es, hes⟩ : ∃ es, List.Forall₂
      (fun r d => L.Settles root.name (L.loadWithin depth) 0 u r.name d)
      ((indirect root payloads).map fun p => ({ name := p.1 } : Reference)) es := by
    apply exists_forall₂
    intro r hr
    obtain ⟨q, hq, rfl⟩ := List.mem_map.1 hr
    obtain ⟨hmem, hindirect⟩ := mem_indirect.1 hq
    obtain ⟨d, hother, hfind⟩ := hregistered q.1 (h.shipped q hmem).1 hindirect
    exact ⟨d, settles_of_registered _ hfind
      (hlinked d hother (Registry.mem_handles_of_findByName? hfind)) hother⟩
  obtain ⟨w, hextra, hchanged⟩ := linkReferences_of_settled _ hes
  have hreferences : Action.forEach (L.linkReference (L.loadWithin depth) root.name 0)
      (embed root payloads).references o = (.ok (), w) := by
    have hfirst : Action.forEach (L.linkReference (L.loadWithin depth) root.name 0)
      root.references o = (.ok (), u) := hstages.references
    rw [linkReferences_embed, Action.andThen_of_ok hfirst, hextra]
  -- with more dependencies the modules can still be built
  obtain ⟨ds, ms, -, -, hown, hbuildable, -⟩ := hstages.linked
  have hsize : u.store.length ≤ w.store.length := by
    rw [hchanged.store, Store.length_update]
  have hbuildable' := hbuildable.mono (read_modules_embed payloads hbuildable.read)
    (hchanged.covers (Assembly.covers_addLinks _ _)) hsize
  obtain ⟨v₂, hmodules, -⟩ := buildModules_of_buildable (hchanged.get? hown) rfl hbuildable'
  -- nothing but its references and modules tells the document from the root
  obtain ⟨hmode, hunregistered, hunlinked, hsession⟩ := hstages.opens
  have hnew : ∀ uid, newAssembly root uid = newAssembly (plain root payloads) uid := by
    intro uid
    simp [newAssembly, Document.mode, Document.isDebugBuild, embedded, embed, Document.reread,
      hlibrary]
  have opens : L.Opens (plain root payloads) { context := ctx } o := by
    refine ⟨hmode, hunregistered, hunlinked, ?_⟩
    rw [hsession, hnew]
    rfl
  exact ⟨w, v₂, opens, harvest_of_library rfl o, hreferences, hmodules⟩

end Bundled

/-- For a root that is a library, and is linked in the context of the build, where its executable
    is made and no needed library is an executable: the executable is linked by a linker of the
    same mode in an empty context, with the modules of the root and its references linked to
    assemblies that are the same but for their uids, if and only if it is linked in the context of
    the build without the flag of executables.

    So the root that also refers to what is needed further down decides; it can always be written
    (`parse_plain`).  The bundle of the context is empty, as it is outside of loads. -/
theorem executable_runs_alike_iff (L L' : Linker) (ctx : LoadContext)
    (text exe text' : String) (origin origin' origin'' : String) (root doc : Document)
    (h : Handle) (t : Session)
    (hmode : L'.mode = L.mode) (hdepth : L'.maxDepth = L.maxDepth) (hempty : ctx.bundled = [])
    (hparse : Document.parse text origin = .ok root) (hlibrary : root.executable = false)
    (hlink : link L.files ctx text = .ok exe) (hexe : Document.parse exe origin' = .ok doc)
    (hplain : Document.parse text' origin'' = .ok { doc with executable := false })
    (hfresh : L.FreshUids (L.textsAtHand ctx text) { context := ctx })
    (hfresh' : L'.FreshUids (L'.textsAtHand {} exe) {})
    (hload : L.load text origin { context := ctx } = (.ok h, t))
    (hlibraries : LibrariesOnly L.files ctx root) :
    (∃ t', L'.load exe origin' {} = (.ok h, t') ∧ RunsAlike root.references.length h t t') ↔
      ∃ t', L.load text' origin'' { context := ctx } = (.ok h, t') := by
  obtain ⟨payloads, hclosure, rfl⟩ :=
    (link_eq_ok_iff (Document.parse_origin hparse rootOrigin)).1 hlink
  have hbundles : Bundles L L' ctx text origin root payloads :=
    ⟨.of_closure hclosure, hmode, hempty, hparse, hlibrary, hlibraries, hfresh, hfresh'⟩
  obtain rfl : embedded root payloads = doc :=
    Except.ok.inj ((parse_embed hparse payloads origin').symm.trans hexe)
  have hdependencies : ∀ a, t.store.get? h = some a → ∀ d ∈ a.dependencies, t.Linked d :=
    fun a ha => dependencies_of_load hload ha
  obtain ⟨depth, doc, o, p, u, v, hmax, hparse₀, hstages, rfl, rfl⟩ := Stages.of_load rfl hload
  obtain rfl : doc = root := Except.ok.inj (hparse₀.symm.trans hparse)
  have hmax' : L'.maxDepth = depth + 1 := hdepth.trans hmax
  constructor
  · -- the root finds in the build what the executable finds in its bundle
    rintro ⟨t', hload', -⟩
    obtain ⟨depth', doc', o', p', w, v', hmax'', hparse', hstages', -, -⟩ :=
      Stages.of_load rfl hload'
    obtain rfl : depth' = depth := by omega
    obtain rfl : doc' = embedded doc payloads := Except.ok.inj (hparse'.symm.trans hexe)
    obtain ⟨o₂, u₂, v₂, hstages₂⟩ := hbundles.stages_plain hstages'
    exact ⟨_, hstages₂.load_eq hmax hplain⟩
  · -- and the other way round; then the two loads are compared
    rintro ⟨t₂, hload₂⟩
    obtain ⟨depth₂, doc₂, o₂, p₂, u₂, v₂, hmax₂, hparse₂, hstages₂, -, -⟩ :=
      Stages.of_load rfl hload₂
    obtain rfl : depth₂ = depth := by omega
    obtain rfl : doc₂ = plain doc payloads := Except.ok.inj (hparse₂.symm.trans hplain)
    obtain ⟨o', p', w, v', hstages'⟩ := hbundles.stages hstages₂
    exact ⟨_, hstages'.load_eq hmax' hexe, hbundles.alike hstages hstages' hdependencies⟩

/-- The condition holds if everything that is needed further down has been registered with the
    root, for other assemblies than that of the root. -/
theorem plain_loads_of_registered (L : Linker) (ctx : LoadContext) (text exe text' : String)
    (origin origin' origin'' : String) (root doc : Document) (h : Handle) (t : Session)
    (hparse : Document.parse text origin = .ok root) (hlibrary : root.executable = false)
    (hlink : link L.files ctx text = .ok exe) (hexe : Document.parse exe origin' = .ok doc)
    (hplain : Document.parse text' origin'' = .ok { doc with executable := false })
    (hload : L.load text origin { context := ctx } = (.ok h, t))
    (hregistered : ∀ name, Needed L.files ctx root name → name ∉ root.references.map (·.name) →
      ∃ d, d ≠ h ∧ t.registry.findByName? name = some d) :
    ∃ t', L.load text' origin'' { context := ctx } = (.ok h, t') := by
  obtain ⟨payloads, hclosure, rfl⟩ :=
    (link_eq_ok_iff (Document.parse_origin hparse rootOrigin)).1 hlink
  obtain rfl : embedded root payloads = doc :=
    Except.ok.inj ((parse_embed hparse payloads origin').symm.trans hexe)
  have hcomplete := (complete_of_load hload).2
  obtain ⟨depth, doc, o, p, u, v, hmax, hparse₀, hstages, rfl, rfl⟩ := Stages.of_load rfl hload
  obtain rfl : doc = root := Except.ok.inj (hparse₀.symm.trans hparse)
  rw [Session.leave_of_library hlibrary] at hcomplete hregistered
  -- once the references have been linked, the load changes the root alone
  obtain ⟨ds, ms, -, -, -, -, hrebuilt, -⟩ := hstages.linked
  have hchanged := hrebuilt.trans (v.completed_changed 0)
  have hothers : ∀ d, d ≠ 0 → d ∈ u.registry.handles → u.Linked d := by
    intro d hother hd
    obtain ⟨e, he, rfl⟩ := Session.mem_handles.1 hd
    obtain ⟨b, hb, hcomplete⟩ := hcomplete e (hchanged.registry ▸ he)
    exact ⟨b, (hchanged.get?_ne hother).symm.trans hb, hcomplete.linked⟩
  obtain ⟨w, v₂, hstages₂⟩ := (Gathers.of_closure hclosure).stages_of_registered hlibrary hstages
    hothers fun name hneeded hindirect => hchanged.registry ▸ hregistered name hneeded hindirect
  exact ⟨_, hstages₂.load_eq hmax hplain⟩

/-! ### Roots whose libraries ship nothing -/

section Unshipped

variable {L : Linker} {ctx : LoadContext} {root : Document} {payloads : List (String × String)}
  {text origin : String}

/-- An executable whose libraries ship nothing comes upon no other texts. -/
theorem Gathers.mem_textsAtHand (h : Gathers L.files ctx root payloads)
    (hparse : Document.parse text origin = .ok root) (hnone : ∀ p ∈ payloads, payloadTexts p.2 = [])
    {found : String} (hfound : found ∈ ({} : Linker).textsAtHand {} (embed root payloads).render) :
    found = (embed root payloads).render ∨ found ∈ payloads.map (·.2) := by
  have hshipped : ∀ p ∈ payloadTexts (embed root payloads).render, p ∈ payloads.map (·.2) := by
    intro p hp
    unfold payloadTexts at hp
    rw [parse_embed hparse payloads ""] at hp
    obtain ⟨r, hr, hpayload⟩ := List.mem_filterMap.1 hp
    obtain ⟨shipped, hlookup, hsame⟩ := h.payload_eq hr (embed root payloads).name
    have hpayload : (payload (embed root payloads).name r).toOption = some p := hpayload
    rw [hsame] at hpayload
    exact Option.some.inj hpayload ▸ List.mem_map_of_mem (mem_of_lookup hlookup)
  obtain ⟨outer, houter, hfound⟩ := List.mem_flatMap.1 hfound
  obtain rfl : outer = (embed root payloads).render := List.mem_singleton.1 houter
  -- one step down from the executable there is nothing more to come upon
  generalize (embed root payloads).render.length = size at hfound
  cases size with
  | zero => exact .inl (List.mem_singleton.1 hfound)
  | succ size =>
    rcases List.mem_cons.1 hfound with rfl | hfound
    · exact .inl rfl
    · obtain ⟨p, hp, hfound⟩ := List.mem_flatMap.1 hfound
      obtain ⟨q, hq, rfl⟩ := List.mem_map.1 (hshipped p hp)
      rw [embeddedTexts_of_nil (hnone q hq), List.mem_singleton] at hfound
      exact .inr (hfound ▸ hshipped q.2 hp)

/-- Numbered uids are fresh for the root and for its executable if nothing ships anything, and no
    text states a uid that is as long. -/
theorem Gathers.freshUids (h : Gathers ({} : Linker).files ctx root payloads)
    (hparse : Document.parse text origin = .ok root)
    (hnone : ∀ found ∈ text :: (ctx.texts ++ ({} : Linker).files.texts), payloadTexts found = [])
    (hshort : ∀ found ∈ text :: (ctx.texts ++ ({} : Linker).files.texts), ∀ doc,
      Document.parse found "" = .ok doc → doc.uid.length < 36) :
    ({} : Linker).FreshUids (({} : Linker).textsAtHand ctx text) { context := ctx } ∧
    ({} : Linker).FreshUids (({} : Linker).textsAtHand {} (embed root payloads).render) {} := by
  have hshipped : ∀ p ∈ payloads, p.2 ∈ text :: (ctx.texts ++ ({} : Linker).files.texts) := by
    intro p hp
    rw [← textsAtHand_of_nil hnone]
    exact h.subset_build text (List.mem_map_of_mem hp)
  constructor
  · apply freshUids_numbered
    rw [textsAtHand_of_nil hnone]
    exact hshort
  · apply freshUids_numbered
    intro found hfound doc hdoc
    rcases h.mem_textsAtHand hparse (fun p hp => hnone p.2 (hshipped p hp)) hfound with rfl | hfound
    · -- the executable states the uid of the root
      rw [parse_embed hparse] at hdoc
      obtain rfl := Except.ok.inj hdoc
      exact hshort text List.mem_cons_self root (Document.parse_origin hparse "")
    · obtain ⟨p, hp, rfl⟩ := List.mem_map.1 hfound
      exact hshort p.2 (hshipped p hp) doc hdoc

end Unshipped

/-! ### A chain of libraries -/

section Chain

/-- A root that needs a library by way of another one. -/
def mainDocument : Document := bareDocument "Main" ["UI"]

theorem parse_main (origin : String) :
    Document.parse mainDocument.render origin = .ok mainDocument :=
  parse_bareDocument "Main" ["UI"] origin

/-- The session in which the root has been created. -/
def mainOpened : Session :=
  (({ context := chainContext } : Session).record .uidDrawn).record
    (.created (newAssembly mainDocument (Uid.numbered 1)))

/-- The session in which its library has been created. -/
def uiOpened : Session :=
  ((mainOpened.refer 0 "UI" .bootstrap (bareDocument "UI" ["Gfx"]).render).record .uidDrawn).record
    (.created (newAssembly (bareDocument "UI" ["Gfx"]) (Uid.numbered 2)))

/-- The session in which the library of the library has been linked. -/
def gfxLinked (depth : Nat) : Session :=
  (({} : Linker).accept (({} : Linker).loadWithin depth) (bareDocument "Gfx" [])
    (uiOpened.refer 1 "Gfx" .bootstrap (bareDocument "Gfx" []).render)).2.record
      (.dependencyAdded 1 2)

theorem accept_ui (depth : Nat) : ({} : Linker).accept (({} : Linker).loadWithin (depth + 1))
    (bareDocument "UI" ["Gfx"])
    (mainOpened.refer 0 "UI" .bootstrap (bareDocument "UI" ["Gfx"]).render) =
      (.ok 1, (gfxLinked depth).record (.completed 1)) := by
  have hlocated : ({} : Linker).locateText uiOpened.context "UI" "Gfx" =
      .ok (.bootstrap, (bareDocument "Gfx" []).render) := rfl
  have hreference : ({} : Linker).linkReference (({} : Linker).loadWithin (depth + 1)) "UI" 1
      { name := "Gfx" } uiOpened = (.ok (), gfxLinked depth) := by
    rw [linkReference_of_located _ _ _ _ rfl hlocated, loadWithin, parse_bareDocument]
    rfl
  have hreferences : Action.forEach (({} : Linker).linkReference
      (({} : Linker).loadWithin (depth + 1)) "UI" 1) [{ name := "Gfx" }] uiOpened =
        (.ok (), gfxLinked depth) := by
    rw [Action.forEach, Action.andThen_of_ok hreference]
    rfl
  have hstages : Stages {} (({} : Linker).loadWithin (depth + 1)) (bareDocument "UI" ["Gfx"])
      (mainOpened.refer 0 "UI" .bootstrap (bareDocument "UI" ["Gfx"]).render) uiOpened uiOpened
      (gfxLinked depth) (gfxLinked depth) :=
    ⟨⟨rfl, rfl, rfl, rfl⟩, rfl, hreferences, rfl⟩
  exact hstages.accept_eq

/-- The session in which all references of the root have been linked. -/
def uiLinked (depth : Nat) : Session :=
  ((gfxLinked depth).record (.completed 1)).record (.dependencyAdded 0 1)

theorem stages_main (depth : Nat) : Stages {} (({} : Linker).loadWithin (depth + 2)) mainDocument
    { context := chainContext } mainOpened mainOpened (uiLinked depth) (uiLinked depth) := by
  have hlocated : ({} : Linker).locateText mainOpened.context "Main" "UI" =
      .ok (.bootstrap, (bareDocument "UI" ["Gfx"]).render) := rfl
  have hload : ({} : Linker).loadWithin (depth + 2) (bareDocument "UI" ["Gfx"]).render "UI"
      (mainOpened.refer 0 "UI" .bootstrap (bareDocument "UI" ["Gfx"]).render) =
        (.ok 1, (gfxLinked depth).record (.completed 1)) := by
    rw [loadWithin, parse_bareDocument]
    exact accept_ui depth
  have hreferences : Action.forEach (({} : Linker).linkReference
      (({} : Linker).loadWithin (depth + 2)) "Main" 0) [{ name := "UI" }] mainOpened =
        (.ok (), uiLinked depth) := by
    rw [Action.forEach, Action.andThen_of_ok]
    · rfl
    · rw [linkReference_of_located _ _ _ _ rfl hlocated, Action.andThen_of_ok hload]
      rfl
  exact ⟨⟨rfl, rfl, rfl, rfl⟩, rfl, hreferences, rfl⟩

theorem load_main (origin : String) : ({} : Linker).load mainDocument.render origin
    { context := chainContext } = (.ok 0, (uiLinked 3997).record (.completed 0)) := by
  have hstages : Stages {} (({} : Linker).loadWithin 3999) mainDocument
      { context := chainContext } mainOpened mainOpened (uiLinked 3997) (uiLinked 3997) :=
    stages_main 3997
  exact hstages.load_eq rfl (parse_main origin)

theorem gfx_registered (depth : Nat) :
    ((uiLinked depth).record (.completed 0)).registry.findByName? "Gfx" = some 2 := rfl

theorem ships_chain {name : String} (hneeded : Needed {} chainContext mainDocument name) :
    ∃ references, Ships {} chainContext false name (bareDocument name references).render
      (bareDocument name references) := by
  rcases needed_chain rfl hneeded with rfl | rfl
  · exact ⟨["Gfx"], rfl, parse_bareDocument "UI" ["Gfx"] "UI", rfl⟩
  · exact ⟨[], rfl, parse_bareDocument "Gfx" [] "Gfx", rfl⟩

theorem mem_chainTexts {text : String}
    (h : text ∈ mainDocument.render :: (chainContext.texts ++ ({} : Linker).files.texts)) :
    ∃ name references, text = (bareDocument name references).render := by
  rcases List.mem_cons.1 h with rfl | h
  · exact ⟨"Main", ["UI"], rfl⟩
  · have hlibrary : text = (bareDocument "UI" ["Gfx"]).render ∨
        text = (bareDocument "Gfx" []).render := by
      simpa [chainContext, LoadContext.texts, FileSystem.texts] using h
    rcases hlibrary with rfl | rfl <;> exact ⟨_, _, rfl⟩

/-- None of the texts states a uid. -/
theorem freshUids_chain {payloads : List (String × String)}
    (h : Gathers ({} : Linker).files chainContext mainDocument payloads) :
    ({} : Linker).FreshUids (({} : Linker).textsAtHand chainContext mainDocument.render)
      { context := chainContext } ∧
    ({} : Linker).FreshUids (({} : Linker).textsAtHand {} (embed mainDocument payloads).render)
      {} := by
  apply h.freshUids (parse_main "")
  · intro text htext
    obtain ⟨name, references, rfl⟩ := mem_chainTexts htext
    exact payloadTexts_bareDocument name references
  · intro text htext doc hdoc
    obtain ⟨name, references, rfl⟩ := mem_chainTexts htext
    rw [parse_bareDocument] at hdoc
    obtain rfl := Except.ok.inj hdoc
    exact Nat.zero_lt_succ 35

/-- The executable of the root runs as the root does. -/
theorem executable_runs_alike_chain : ∃ exe t t', link {} chainContext mainDocument.render = .ok exe ∧
    ({} : Linker).load mainDocument.render "" { context := chainContext } = (.ok 0, t) ∧
    ({} : Linker).load exe "" {} = (.ok 0, t') ∧ RunsAlike 1 0 t t' := by
  have hall : ∀ name, Needed {} chainContext mainDocument name →
      ∃ text library, Ships {} chainContext mainDocument.jit name text library := by
    intro name hneeded
    obtain ⟨references, hships⟩ := ships_chain hneeded
    exact ⟨_, _, hships⟩
  obtain ⟨payloads, hclosure⟩ := closure_isOk_iff.2 hall
  have hgathers := Gathers.of_closure hclosure
  have hlink : link {} chainContext mainDocument.render = .ok (embed mainDocument payloads).render :=
    (link_eq_ok_iff (parse_main rootOrigin)).2 ⟨payloads, hclosure, rfl⟩
  have hexe := parse_embed (parse_main "") payloads ""
  have hplain := parse_plain (parse_main "") payloads ""
  have hlibraries : LibrariesOnly {} chainContext mainDocument := by
    intro name text library hneeded htext hlibrary
    obtain ⟨references, hships⟩ := ships_chain hneeded
    obtain rfl := Option.some.inj (htext.symm.trans hships.found)
    rw [parse_bareDocument] at hlibrary
    cases hlibrary
    rfl
  have hregistered : ∀ name, Needed {} chainContext mainDocument name →
      name ∉ mainDocument.references.map (·.name) →
      ∃ d, d ≠ 0 ∧ ((uiLinked 3997).record (.completed 0)).registry.findByName? name = some d := by
    intro name hneeded hindirect
    rcases needed_chain rfl hneeded with rfl | rfl
    · exact absurd List.mem_cons_self hindirect
    · exact ⟨2, by decide, gfx_registered 3997⟩
  obtain ⟨hfresh, hfresh'⟩ := freshUids_chain hgathers
  obtain ⟨t', hload', halike⟩ := (executable_runs_alike_iff {} {} chainContext _ _ _ "" "" ""
    mainDocument _ 0 _ rfl rfl rfl (parse_main "") rfl hlink hexe hplain hfresh hfresh' (load_main "")
    hlibraries).2 (plain_loads_of_registered {} chainContext _ _ _ "" "" "" mainDocument _ 0 _
      (parse_main "") rfl hlink hexe hplain (load_main "") hregistered)
  exact ⟨_, _, t', hlink, load_main "", hload', halike⟩

end Chain

/-! ### A library that is an executable -/

section Tool

/-- A bootstrap of a library that is an executable, and one that is none. -/
def toolContext : LoadContext :=
  { bootstrap := some [("Tool", (leaf "Tool" true).render),
      ("Library", (leaf "Library" false).render)] }

/-- A root that refers to both. -/
def toolRoot : Document :=
  { leaf "Main" false with references := [{ name := "Tool" }, { name := "Library" }] }

theorem parse_leaf (name : String) (executable : Bool) (origin : String) :
    Document.parse (leaf name executable).render origin = .ok (leaf name executable) :=
  Document.parse_render (readable_leaf name executable) origin

theorem parse_toolRoot (origin : String) :
    Document.parse toolRoot.render origin = .ok toolRoot := by
  have hreadable : toolRoot.Readable := readable_leaf "Main" false
  exact Document.parse_render hreadable origin

theorem needed_tool {name : String} (h : Needed {} toolContext toolRoot name) :
    name = "Tool" ∨ name = "Library" := by
  induction h with
  | direct referenced =>
    simpa [toolRoot] using referenced
  | @indirect owner text name _ found referenced ih =>
    -- neither of the libraries refers to anything
    have hleaf : ∃ executable, text = (leaf owner executable).render := by
      rcases ih with rfl | rfl
      · exact ⟨true, (Option.some.inj found).symm⟩
      · exact ⟨false, (Option.some.inj found).symm⟩
    obtain ⟨executable, rfl⟩ := hleaf
    rw [referencedNames_of_parse (parse_leaf owner executable "")] at referenced
    cases referenced

theorem ships_tool {name : String} (h : Needed {} toolContext toolRoot name) :
    ∃ executable, Ships {} toolContext false name (leaf name executable).render
      (leaf name executable) := by
  rcases needed_tool h with rfl | rfl
  · exact ⟨true, rfl, parse_leaf "Tool" true "Tool", rfl⟩
  · exact ⟨false, rfl, parse_leaf "Library" false "Library", rfl⟩

/-- The executable of the root ships both. -/
theorem embed_toolRoot {payloads : List (String × String)}
    (h : Gathers {} toolContext toolRoot payloads) :
    embed toolRoot payloads = shippingRoot true := by
  have htool : payloads.lookup "Tool" = some (leaf "Tool" true).render :=
    h.lookup_eq_some_iff.2 ⟨.direct List.mem_cons_self, rfl⟩
  have hlibrary : payloads.lookup "Library" = some (leaf "Library" false).render :=
    h.lookup_eq_some_iff.2 ⟨.direct (List.mem_cons_of_mem _ List.mem_cons_self), rfl⟩
  have hindirect : indirect toolRoot payloads = [] := by
    apply List.eq_nil_iff_forall_not_mem.2
    intro p hp
    obtain ⟨hmem, hother⟩ := mem_indirect.1 hp
    apply hother
    rcases needed_tool (h.shipped p hmem).1 with hname | hname <;> simp [toolRoot, hname]
  have hreferences : (embed toolRoot payloads).references = (shippingRoot true).references := by
    show toolRoot.references.map _ ++ (indirect toolRoot payloads).map _ = _
    rw [hindirect]
    simp [toolRoot, shippingRoot, ship, htool, hlibrary, leaf]
  have hembed : embed toolRoot payloads =
      { toolRoot with executable := true, references := (embed toolRoot payloads).references } := rfl
  rw [hembed, hreferences]
  rfl

/-- The session in which the root has been created. -/
def toolRootOpened : Session :=
  ({ context := toolContext } : Session).record (.created (newAssembly toolRoot "Main"))

/-- The session in which a library of the bootstrap has been linked to the root. -/
def bootstrapLinked (depth : Nat) (name : String) (executable : Bool) (d : Handle) (s : Session) :
    Session :=
  (({} : Linker).accept (({} : Linker).loadWithin depth) (leaf name executable)
    (s.refer 0 name .bootstrap (leaf name executable).render)).2.record (.dependencyAdded 0 d)

/-- The session in which all references of the root have been linked. -/
def toolRootLinked (depth : Nat) : Session :=
  bootstrapLinked depth "Library" false 2 (bootstrapLinked depth "Tool" true 1 toolRootOpened)

theorem stages_toolRoot (depth : Nat) : Stages {} (({} : Linker).loadWithin (depth + 1)) toolRoot
    { context := toolContext } toolRootOpened toolRootOpened (toolRootLinked depth)
    (toolRootLinked depth) := by
  have htool : ({} : Linker).linkReference (({} : Linker).loadWithin (depth + 1)) "Main" 0
      { name := "Tool" } toolRootOpened =
        (.ok (), bootstrapLinked depth "Tool" true 1 toolRootOpened) := by
    have hlocated : ({} : Linker).locateText toolRootOpened.context "Main" "Tool" =
        .ok (.bootstrap, (leaf "Tool" true).render) := rfl
    rw [linkReference_of_located _ _ _ _ rfl hlocated, loadWithin, parse_leaf]
    rfl
  have hlibrary : ({} : Linker).linkReference (({} : Linker).loadWithin (depth + 1)) "Main" 0
      { name := "Library" } (bootstrapLinked depth "Tool" true 1 toolRootOpened) =
        (.ok (), toolRootLinked depth) := by
    have hlocated : ({} : Linker).locateText
        (bootstrapLinked depth "Tool" true 1 toolRootOpened).context "Main" "Library" =
          .ok (.bootstrap, (leaf "Library" false).render) := rfl
    rw [linkReference_of_located _ _ _ _ rfl hlocated, loadWithin, parse_leaf]
    rfl
  have hreferences : Action.forEach (({} : Linker).linkReference
      (({} : Linker).loadWithin (depth + 1)) "Main" 0) [{ name := "Tool" }, { name := "Library" }]
        toolRootOpened = (.ok (), toolRootLinked depth) := by
    rw [Action.forEach, Action.andThen_of_ok htool, Action.forEach, Action.andThen_of_ok hlibrary]
    rfl
  exact ⟨⟨rfl, rfl, rfl, rfl⟩, rfl, hreferences, rfl⟩

theorem mem_toolTexts {text : String}
    (h : text ∈ toolRoot.render :: (toolContext.texts ++ ({} : Linker).files.texts)) :
    text = toolRoot.render ∨ ∃ name executable, (name = "Tool" ∨ name = "Library") ∧
      text = (leaf name executable).render := by
  rcases List.mem_cons.1 h with rfl | h
  · exact .inl rfl
  · have hleaf : text = (leaf "Tool" true).render ∨ text = (leaf "Library" false).render := by
      simpa [toolContext, LoadContext.texts, FileSystem.texts] using h
    rcases hleaf with rfl | rfl
    · exact .inr ⟨"Tool", true, .inl rfl, rfl⟩
    · exact .inr ⟨"Library", false, .inr rfl, rfl⟩

/-- The uids that the texts state are short. -/
theorem freshUids_tool {payloads : List (String × String)}
    (h : Gathers ({} : Linker).files toolContext toolRoot payloads) :
    ({} : Linker).FreshUids (({} : Linker).textsAtHand toolContext toolRoot.render)
      { context := toolContext } ∧
    ({} : Linker).FreshUids (({} : Linker).textsAtHand {} (embed toolRoot payloads).render) {} := by
  apply h.freshUids (parse_toolRoot "")
  · intro text htext
    rcases mem_toolTexts htext with rfl | ⟨name, executable, -, rfl⟩
    · apply payloadTexts_eq_nil (parse_toolRoot "")
      intro r hr
      have hboth : r = { name := "Tool" } ∨ r = { name := "Library" } := by
        simpa [toolRoot] using hr
      rcases hboth with rfl | rfl <;> rfl
    · apply payloadTexts_eq_nil (parse_leaf name executable "")
      intro r hr
      cases hr
  · intro text htext doc hdoc
    rcases mem_toolTexts htext with rfl | ⟨name, executable, hname, rfl⟩
    · rw [parse_toolRoot] at hdoc
      obtain rfl := Except.ok.inj hdoc
      show "Main".length < 36
      decide
    · rw [parse_leaf] at hdoc
      obtain rfl := Except.ok.inj hdoc
      show name.length < 36
      rcases hname with rfl | rfl <;> decide

/-- An executable that ships another one stops where the root is linked: behind the other
    executable nothing is left in the bundle. -/
theorem executable_stops_behind_executable :
    Document.parse toolRoot.render "" = .ok toolRoot ∧ toolRoot.executable = false ∧
    ∃ exe, link {} toolContext toolRoot.render = .ok exe ∧
      ({} : Linker).FreshUids (({} : Linker).textsAtHand toolContext toolRoot.render)
        { context := toolContext } ∧
      ({} : Linker).FreshUids (({} : Linker).textsAtHand {} exe) {} ∧
      (∃ t, ({} : Linker).load toolRoot.render "" { context := toolContext } = (.ok 0, t)) ∧
      (({} : Linker).load exe "" {}).1 =
        .error (.failed (.unresolvedReference "Main" "Library")) := by
  have hall : ∀ name, Needed {} toolContext toolRoot name →
      ∃ text library, Ships {} toolContext toolRoot.jit name text library := by
    intro name hneeded
    obtain ⟨executable, hships⟩ := ships_tool hneeded
    exact ⟨_, _, hships⟩
  obtain ⟨payloads, hclosure⟩ := closure_isOk_iff.2 hall
  have hgathers := Gathers.of_closure hclosure
  have hlink : link {} toolContext toolRoot.render = .ok (embed toolRoot payloads).render :=
    (link_eq_ok_iff (parse_toolRoot rootOrigin)).2 ⟨payloads, hclosure, rfl⟩
  have hstages : Stages {} (({} : Linker).loadWithin 3999) toolRoot { context := toolContext }
      toolRootOpened toolRootOpened (toolRootLinked 3998) (toolRootLinked 3998) :=
    stages_toolRoot 3998
  obtain ⟨hfresh, hfresh'⟩ := freshUids_tool hgathers
  refine ⟨parse_toolRoot "", rfl, _, hlink, hfresh, hfresh', ?_, ?_⟩
  · exact ⟨_, hstages.load_eq rfl (parse_toolRoot "")⟩
  · rw [embed_toolRoot hgathers]
    exact load_shippingRoot ""

end Tool

end AssemblyLinker.Executable
