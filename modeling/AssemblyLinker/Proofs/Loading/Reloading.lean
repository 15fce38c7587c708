import AssemblyLinker.Proofs.Loading.Links
import AssemblyLinker.Proofs.Modules.Building
import AssemblyLinker.Proofs.Modules.Documents

/-! # Loading what has been written

    The text of an assembly is loaded as that assembly again, in the mode of the writer and as
    a library, where everything that it refers to is registered and linked.  Two things make
    this work: the documents of its modules describe the modules (`ModuleDocument.built_ofModule`),
    and its references are resolved without a load (`linkReferences_of_settled`).
-/

namespace AssemblyLinker

/-! ## The text of an assembly -/

/-- The names that a body refers to. -/
def TypeBody.typeNames (body : TypeBody) : List String :=
  body.base.toList ++ body.interfaces ++ body.fields.map (·.typeName)

/-- The modules of an assembly have different names, and so have all types in them, and all
    types are defined. -/
structure Assembly.WellFormed (a : Assembly) : Prop where
  modules : (a.modules.map (·.name)).Nodup
  types : (ModuleInfo.fullNames a.modules).Nodup
  defined : ∀ m ∈ a.modules, ∀ t ∈ m.types, t.isDefined = true

/-- A session offers a type to an assembly: it is a primitive type, or it is located in the
    assembly itself or in one that is registered under the name of a reference. -/
def Session.Offers (s : Session) (a : Assembly) (name : String) : Prop :=
  name ∈ primitiveTypes ∨ (a.locateLocalType? name).isSome = true ∨
    ∃ r ∈ a.references, ∃ d b, s.registry.findByName? r = some d ∧ s.store.get? d = some b ∧
      (s.store.locateType? b name).isSome = true

/-- What a linker makes of the text of an assembly. -/
def Assembly.reloaded (a : Assembly) (mode : BytecodeMode) (ds : List Handle) : Assembly :=
  { a with mode, executable := false, dependencies := ds, state := .linked }

section Written

variable {L : Linker} {s t u : Session} {a : Assembly}

/-- All registered assemblies have been linked. -/
def Session.AllLinked (s : Session) : Prop := ∀ e ∈ s.registry.entries, s.Linked e.handle

theorem Session.AllLinked.findByName? (hs : s.AllLinked) {name : String} {d : Handle}
    (hfind : s.registry.findByName? name = some d) : s.Linked d := by
  obtain ⟨e, he, -, rfl⟩ := Registry.mem_of_findByName? hfind
  exact hs e he

theorem Session.AllLinked.opens_written (hlinked : s.AllLinked) (huid : a.uid ≠ "")
    (hnew : s.registry.find? a.name a.uid = none) : L.Opens (a.toDocument L.mode) s
      (s.record (.created (Linker.newAssembly (a.toDocument L.mode) a.uid))) := by
  have hsame : L.uidFor (a.toDocument L.mode) s = a.uid := if_neg huid
  have hidentified : s.identify (a.toDocument L.mode) = s := if_neg huid
  refine ⟨BytecodeMode.ofJitFlag_isJit L.mode, by rwa [hsame], ?_, by rw [hsame, hidentified]⟩
  rw [Option.any_eq_false]
  intro d hfind
  rw [(hlinked.findByName? hfind).isLinking]

/-- What the linker makes of the written document, once its parts are there. -/
theorem Assembly.reloaded_eq (a : Assembly) (mode : BytecodeMode) (ds : List Handle) :
    a.reloaded mode ds = { Assembly.addLinks ((a.toDocument mode).references.map (·.name)) ds
      (Linker.newAssembly (a.toDocument mode) a.uid) with modules := a.modules, state := .linked } := by
  have hdebug : (some a.debugBuild != some false) = a.debugBuild := by
    cases a.debugBuild <;> rfl
  simp [reloaded, addLinks, Linker.newAssembly, toDocument, Document.isDebugBuild, Document.mode,
    hdebug, Function.comp_def]

/-- A type that is on offer resolves in an assembly behind the others that declares the same
    types and depends on what is registered. -/
theorem Session.Offers.resolves {b : Assembly} {name : String} (hoffers : s.Offers a name)
    (hgrown : s.store <+: t.store) (hown : t.store.get? s.nextHandle = some b)
    (hmodules : b.modules = a.modules)
    (hdependencies : b.dependencies.map some = a.references.map s.registry.findByName?) :
    t.Resolves s.nextHandle name := by
  refine ⟨b, hown, ?_⟩
  rw [ModuleDocument.resolves_iff]
  rcases hoffers with hprimitive | hlocal | ⟨r, hr, d, c, hfind, hc, hlocated⟩
  · exact .inl hprimitive
  · right; left
    rw [hmodules]
    exact Assembly.locateLocalType?_isSome_iff.1 hlocal
  · right; right
    have hmem : some d ∈ b.dependencies.map some := by
      rw [hdependencies, ← hfind]
      exact List.mem_map_of_mem hr
    obtain ⟨d', hd', hsome⟩ := List.mem_map.1 hmem
    obtain rfl : d' = d := Option.some.inj hsome
    have hlength : s.store.length < t.store.length := Store.lt_length_of_get? hown
    exact ⟨d', hd', Store.locateWithin?_of_locateType? (Store.covers_of_prefix hgrown) hc hlength
      hlocated⟩

/-- The written modules of a well-formed assembly can be built where their names resolve. -/
theorem Assembly.WellFormed.buildable (hwell : a.WellFormed) {h : Handle}
    (hresolves : ∀ m ∈ a.modules, ∀ type ∈ m.types, ∀ body, type.body = some body →
      ∀ name ∈ body.typeNames, (s.update h ({ · with modules := a.modules })).Resolves h name) :
    Linker.Buildable s h (a.modules.map ModuleInfo.toJson)
      (a.modules.map ModuleDocument.ofModule) ∧
    (a.modules.map ModuleDocument.ofModule).map ModuleDocument.built = a.modules := by
  -- each module is built again from the document that is written for it
  have hbuilt : (a.modules.map ModuleDocument.ofModule).map ModuleDocument.built = a.modules := by
    rw [List.map_map]
    conv_rhs => rw [← List.map_id a.modules]
    apply List.map_congr_left
    intro m hm
    exact ModuleDocument.built_ofModule (hwell.defined m hm)
  refine ⟨⟨ModuleDocument.read_toJson_modules a.modules, ⟨?_, ?_⟩, ?_⟩, hbuilt⟩
  · rw [List.map_map]
    exact hwell.modules
  · rw [ModuleDocument.fullNames_ofModule]
    exact hwell.types
  · rw [hbuilt]
    intro d hd type htype name hname
    obtain ⟨m, hm, rfl⟩ := List.mem_map.1 hd
    obtain ⟨type', htype', rfl⟩ := List.mem_map.1 htype
    obtain ⟨body, hbody⟩ := Option.isSome_iff_exists.1 (hwell.defined m hm type' htype')
    refine hresolves m hm type' htype' body hbody name ?_
    simpa [TypeDocument.ofType, TypeDocument.typeNames, TypeBody.typeNames, hbody] using hname

end Written

/-- An assembly is written by a writer of some mode, and a linker of this mode loads the text
    where all registered assemblies are linked.  If all types are defined, no two modules and
    no two types go by one name, the assembly is not registered but each of its references is,
    and every type that it refers to is on offer: then the load yields a new assembly that is
    linked, has all that has been written, and depends on what is registered for its
    references. -/
theorem load_render (L : Linker) (s : Session) (a : Assembly) (origin : String)
    (hdepth : 0 < L.maxDepth) (hlinked : s.AllLinked) (hwell : a.WellFormed) (huid : a.uid ≠ "")
    (hnew : s.registry.find? a.name a.uid = none)
    (hreferences : ∀ r ∈ a.references, s.registry.findByName? r ≠ none)
    (hoffers : ∀ m ∈ a.modules, ∀ t ∈ m.types, ∀ body, t.body = some body →
      ∀ name ∈ body.typeNames, s.Offers a name) :
    ∃ t ds, L.load (a.render L.mode) origin s = (.ok s.nextHandle, t) ∧
      ds.map some = a.references.map s.registry.findByName? ∧
      t.store = s.store ++ [a.reloaded L.mode ds] ∧
      t.registry.entries = s.registry.entries ++ [⟨a.name, a.uid, s.nextHandle⟩] := by
  obtain ⟨depth, hmax⟩ : ∃ depth, L.maxDepth = depth + 1 := ⟨L.maxDepth - 1, by omega⟩
  have hload : L.load (a.render L.mode) origin =
      L.accept (L.loadWithin depth) (a.toDocument L.mode) := by
    rw [Linker.load, hmax, Linker.loadWithin, a.parse_render]
  -- the assembly is opened behind what is registered
  have hopens := hlinked.opens_written (L := L) huid hnew
  generalize s.record (.created (Linker.newAssembly (a.toDocument L.mode) a.uid)) = o at hopens
  have hsame : L.uidFor (a.toDocument L.mode) s = a.uid := if_neg huid
  have hentries := hopens.entries
  have hstore := hopens.store
  rw [hsame] at hentries hstore
  have hown : o.store.get? s.nextHandle = some (Linker.newAssembly (a.toDocument L.mode) a.uid) := by
    rw [hstore]
    exact List.getElem?_concat_length
  -- every reference is registered, and linked already
  obtain ⟨ds, hall⟩ : ∃ ds, List.Forall₂ (fun name d => s.registry.findByName? name = some d ∧
      L.Settles (a.toDocument L.mode).name (L.loadWithin depth) s.nextHandle o name d)
      a.references ds := by
    apply exists_forall₂
    intro name hname
    obtain ⟨d, hfind⟩ := Option.ne_none_iff_exists'.1 (hreferences name hname)
    obtain ⟨b, hb, hstate⟩ := hlinked.findByName? hfind
    have hfound : o.registry.findByName? name = some d := Registry.findByName?_append hentries hfind
    have hlinked' : o.Linked d := by
      refine ⟨b, ?_, hstate⟩
      rw [hstore]
      exact Store.get?_of_prefix (List.prefix_append _ _) hb
    exact ⟨d, hfind, Linker.settles_of_registered _ hfound hlinked'
      (Nat.ne_of_lt (Store.lt_length_of_get? hb))⟩
  have hdependencies : ds.map some = a.references.map s.registry.findByName? :=
    map_some_of_forall₂ (hall.imp fun _ _ hfound => hfound.1)
  obtain ⟨u, hlinks, hextended⟩ := Linker.linkReferences_of_settled
    (a.toDocument L.mode).references
    (List.forall₂_map_left_iff.2 (hall.imp fun _ _ hsettles => hsettles.2))
  -- so the types on offer resolve once the modules are there, and these can be built
  have hupdated := hextended.trans (Linker.rebuilt_update u s.nextHandle a.modules)
  have hgrown : s.store <+: (u.update s.nextHandle ({ · with modules := a.modules })).store := by
    rw [hupdated.store, hstore, Session.nextHandle, Store.update_concat]
    exact List.prefix_append _ _
  obtain ⟨hbuildable, hbuilt⟩ := hwell.buildable (s := u) (h := s.nextHandle) (by
    intro m hm type htype body hbody name hname
    exact (hoffers m hm type htype body hbody name hname).resolves hgrown (hupdated.get? hown) rfl
      hdependencies)
  obtain ⟨v, hmodules, hrebuilt⟩ :=
    Linker.buildModules_of_buildable (hextended.get? hown) rfl hbuildable
  rw [hbuilt] at hrebuilt
  have hharvest : harvest (a.toDocument L.mode) o = (.ok (), o) := rfl
  have hstages : Linker.Stages L (L.loadWithin depth) (a.toDocument L.mode) s o o u v :=
    ⟨hopens, hharvest, hlinks, hmodules⟩
  have hchanged := (hextended.trans hrebuilt).trans (v.completed_changed s.nextHandle)
  refine ⟨_, ds, hload ▸ hstages.accept_eq, hdependencies, ?_, ?_⟩
  · show (v.record (.completed s.nextHandle)).store = _
    rw [hchanged.store, hstore, Session.nextHandle, Store.update_concat, a.reloaded_eq]
    rfl
  · exact (congrArg _ hchanged.registry).trans hentries

section App

/-- A library with a type. -/
def coreLibrary : Assembly :=
  { name := "Core", uid := "Core", modules := [⟨"Types", "1", [⟨"", "Base", some {}⟩]⟩] }

/-- The session in which the library alone is registered. -/
def coreSession : Session := { store := [coreLibrary], registry := ⟨[⟨"Core", "Core", 0⟩]⟩ }

/-- An executable that refers to the library twice, with a type that is based on the one of the
    library. -/
def appAssembly : Assembly :=
  { name := "App", uid := "App", executable := true, references := ["Core", "Core"],
    modules := [⟨"Main", "1",
      [⟨"app", "Window", some { base := some "Base", fields := [⟨"width", "int"⟩] }⟩]⟩] }

theorem offers_app {name : String} (hname : name ∈ ["Base", "int"]) :
    coreSession.Offers appAssembly name := by
  simp only [List.mem_cons, List.not_mem_nil, or_false] at hname
  rcases hname with rfl | rfl
  · exact .inr (.inr ⟨"Core", List.mem_cons_self, 0, coreLibrary, rfl, rfl, rfl⟩)
  · exact .inl (by decide)

/-- The executable is loaded as a library, and depends on the registered one twice. -/
theorem load_render_app : ∃ t, ({} : Linker).load (appAssembly.render .interpreted) "" coreSession =
      (.ok 1, t) ∧ t.store = [coreLibrary, appAssembly.reloaded .interpreted [0, 0]] ∧
    t.registry.entries = [⟨"Core", "Core", 0⟩, ⟨"App", "App", 1⟩] := by
  have hlinked : coreSession.AllLinked := by
    intro e he
    rw [List.mem_singleton.1 he]
    exact ⟨coreLibrary, rfl, rfl⟩
  have hwell : appAssembly.WellFormed := by
    refine ⟨List.nodup_singleton _, List.nodup_singleton _, ?_⟩
    intro m hm t ht
    rw [List.mem_singleton.1 hm] at ht
    rw [List.mem_singleton.1 ht]
    rfl
  have hreferences : ∀ r ∈ appAssembly.references, coreSession.registry.findByName? r ≠ none := by
    intro r hr
    simp only [appAssembly, List.mem_cons, List.not_mem_nil, or_false, or_self] at hr
    rw [hr]
    decide
  obtain ⟨t, ds, hload, hds, hstore, hentries⟩ :=
    load_render {} coreSession appAssembly "" (by decide) hlinked hwell (by decide) rfl hreferences (by
      intro m hm t ht body hbody name hname
      rw [List.mem_singleton.1 hm] at ht
      rw [List.mem_singleton.1 ht] at hbody
      cases hbody
      exact offers_app hname)
  have hsame : ds.map some = [0, 0].map some := hds
  obtain rfl : ds = [0, 0] := List.map_injective_iff.2 (Option.some_injective _) hsame
  exact ⟨t, hload, hstore, hentries⟩

end App

end AssemblyLinker
