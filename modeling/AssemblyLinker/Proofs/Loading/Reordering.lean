import AssemblyLinker.Proofs.Loading.Links
import AssemblyLinker.Proofs.Modules.Documents
import AssemblyLinker.Proofs.Modules.Reordering

/-! # The order of declarations

    All modules of an assembly are declared before any is defined, so a name may be used ahead
    of its declaration.  Here this is taken to its end: the modules of a document may be put in
    any order, and the types in each of them, without changing whether the document is loaded or
    what becomes of any module or type (`order_irrelevant`).

    Both passes come to `Linker.Buildable`, and every part of that is the same for all orders:
    what is read, which names are taken, and which names resolve.
-/

namespace AssemblyLinker

/-! ## What can be built -/

namespace Linker

open ModuleDocument

variable {orders : List ModuleOrder} {js : List Json} {ds es : List ModuleDocument} {s : Session}
  {h : Handle}

/-- The names that resolve are the same in every order. -/
theorem resolvesAll_iff (horders : Arranges orders js) (hreads : js.map read = ds.map .ok)
    (s : Session) (h : Handle) :
    let es := AssemblyLinker.rearrange ModuleDocument.reorder orders ds
    (s.update h ({ · with modules := es.map built })).ResolvesAll h es ↔
      (s.update h ({ · with modules := ds.map built })).ResolvesAll h ds := by
  intro es
  have htypes := horders.types_perm hreads
  have hfull : ∀ ds : List ModuleDocument,
      ModuleInfo.fullNames (ds.map built) = fullNames ds := by
    intro ds
    simp [ModuleInfo.fullNames, fullNames, List.flatMap_map, List.map_flatMap]
  have hnames : (ModuleInfo.fullNames (es.map built)).Perm
      (ModuleInfo.fullNames (ds.map built)) := by
    rw [hfull, hfull]
    exact htypes.map _
  have hall : ∀ (t : Session) (ds : List ModuleDocument), t.ResolvesAll h ds ↔
      ∀ type ∈ ds.flatMap (·.types), ∀ name ∈ type.typeNames, t.Resolves h name := by
    intro t ds
    simp only [Session.ResolvesAll, List.mem_flatMap]
    constructor
    · rintro hds type ⟨d, hd, ht⟩
      exact hds d hd type ht
    · intro hts d hd type ht
      exact hts type ⟨d, hd, ht⟩
  -- a name resolves by the full names that are declared, and these are the same
  have hes := rebuilt_update s h (es.map built)
  have hds := rebuilt_update s h (ds.map built)
  rw [hall, hall]
  constructor
  · intro hresolves type htype name hname
    exact (hresolves type (htypes.mem_iff.2 htype) name hname).of_rebuilt hes hds hnames.subset
  · intro hresolves type htype name hname
    exact (hresolves type (htypes.mem_iff.1 htype) name hname).of_rebuilt hds hes hnames.symm.subset

/-- What can be built can be built in every order. -/
theorem Buildable.rearrange (horders : Arranges orders js) (hbuildable : Buildable s h js ds) :
    Buildable s h (rearrange Json.reorderTypes orders js)
      (rearrange ModuleDocument.reorder orders ds) where
  read := horders.reads hbuildable.read
  distinct := (horders.distinct_iff hbuildable.read).2 hbuildable.distinct
  resolved := (resolvesAll_iff horders hbuildable.read s h).2 hbuildable.resolved

/-- What can be built in one order can be built. -/
theorem exists_buildable (horders : Arranges orders js)
    (hbuildable : Buildable s h (AssemblyLinker.rearrange Json.reorderTypes orders js) es) :
    ∃ ds, Buildable s h js ds := by
  obtain ⟨ds, hreads⟩ := horders.exists_reads hbuildable.read
  have hsame : es = AssemblyLinker.rearrange ModuleDocument.reorder orders ds := by
    have hmaps := hbuildable.read.symm.trans (horders.reads hreads)
    exact List.map_injective_iff.2 (fun _ _ h => Except.ok.inj h) hmaps
  subst hsame
  exact ⟨ds, hreads, (horders.distinct_iff hreads).1 hbuildable.distinct,
    (resolvesAll_iff horders hreads s h).1 hbuildable.resolved⟩

/-! ## Documents in another order -/

variable {L : Linker} {doc : Document} {s' o p u v v' : Session} {depth : Nat}

/-- Other modules that can be built after the same references are built into the same assembly. -/
theorem Stages.withModules (hstages : Stages L (L.loadWithin depth) doc s o p u v)
    (hbuildable : Buildable u s.nextHandle js ds) :
    ∃ v', Stages L (L.loadWithin depth) { doc with modules := js } s o p u v' ∧
      u.Rebuilt s.nextHandle (ds.map built) v' := by
  obtain ⟨_, _, -, -, hlinked, -⟩ := hstages.linked
  obtain ⟨v', hmodules, hrebuilt⟩ := buildModules_of_buildable hlinked rfl hbuildable
  have hopens : L.Opens { doc with modules := js } s o :=
    ⟨hstages.opens.mode, hstages.opens.unregistered, hstages.opens.unlinked, hstages.opens.session⟩
  exact ⟨v', ⟨hopens, hstages.harvested, hstages.references, hmodules⟩, hrebuilt⟩

/-- Linking ends alike for two assemblies that differ in their modules. -/
theorem completed_rebuilt {modules modules' : List ModuleInfo} (hv : u.Rebuilt h modules v)
    (hv' : u.Rebuilt h modules' v') (js : List Json) :
    ((v.leave doc).record (.completed h)).Rebuilt h modules'
      ((v'.leave { doc with modules := js }).record (.completed h)) := by
  have hcontext : v'.context = v.context := hv'.context.trans hv.context.symm
  refine ⟨?_, ?_, ?_, ?_⟩
  · show (v'.leave _).store.update h _ = ((v.leave doc).store.update h _).update h _
    rw [Session.leave_store, Session.leave_store, hv.store, hv'.store]
    -- of two changes to the modules only the later one counts
    simp only [Store.update, List.modify_modify_eq]
    rfl
  · show (v'.leave _).registry = (v.leave doc).registry
    rw [Session.leave_registry, Session.leave_registry, hv.registry, hv'.registry]
  · show (v'.leave _).context = (v.leave doc).context
    unfold Session.leave
    split
    · exact congrArg LoadContext.clearBundle hcontext
    · exact hcontext
  · show (v'.leave _).uidsDrawn = (v.leave doc).uidsDrawn
    rw [Session.leave_uidsDrawn, Session.leave_uidsDrawn, hv.uidsDrawn, hv'.uidsDrawn]

end Linker

/-- The order of declarations does not matter.  A document that states its uid and is not
    registered is loaded exactly if it is with its modules, and the types in each of them, in
    another order; and then the same assembly is created, with the same modules and types in
    that order, and all else is the same. -/
theorem order_irrelevant (L : Linker) (s : Session) (doc : Document) (orders : List ModuleOrder)
    (text origin text' origin' : String) (hparse : Document.parse text origin = .ok doc)
    (hparse' : Document.parse text' origin' =
      .ok { doc with modules := rearrange Json.reorderTypes orders doc.modules })
    (horders : Arranges orders doc.modules) (huid : doc.uid ≠ "")
    (hnew : s.registry.find? doc.name doc.uid = none) :
    ((∃ h t, L.load text origin s = (.ok h, t)) ↔ ∃ h t, L.load text' origin' s = (.ok h, t)) ∧
    ∀ h t, L.load text origin s = (.ok h, t) → ∃ a t', t.store.get? h = some a ∧
      L.load text' origin' s = (.ok h, t') ∧
      t.Rebuilt h (rearrange ModuleInfo.reorder orders a.modules) t' := by
  have hunregistered : s.registry.find? doc.name (L.uidFor doc s) = none := by
    rwa [Linker.uidFor, if_neg huid]
  -- the document in the other order is loaded as well, after the same references
  have hforth : ∀ h t, L.load text origin s = (.ok h, t) → ∃ a t', t.store.get? h = some a ∧
      L.load text' origin' s = (.ok h, t') ∧
      t.Rebuilt h (rearrange ModuleInfo.reorder orders a.modules) t' := by
    intro h t hok
    obtain ⟨depth, o, p, u, v, hdepth, hstages, rfl, rfl⟩ :=
      Linker.Stages.of_load_of_unregistered hparse hunregistered hok
    obtain ⟨_, ds, -, -, -, hbuildable, hrebuilt, hown⟩ := hstages.linked
    obtain ⟨v', hstages', hrebuilt'⟩ := hstages.withModules (hbuildable.rearrange horders)
    refine ⟨_, _, hown, hstages'.load_eq hdepth hparse', ?_⟩
    rw [map_rearrange orders ModuleDocument.built_reorder] at hrebuilt'
    exact Linker.completed_rebuilt hrebuilt hrebuilt' _
  refine ⟨⟨?_, ?_⟩, hforth⟩
  · rintro ⟨h, t, hok⟩
    obtain ⟨_, t', -, hok', -⟩ := hforth h t hok
    exact ⟨h, t', hok'⟩
  · rintro ⟨h, t, hok⟩
    obtain ⟨depth, o, p, u, v, hdepth, hstages, -, -⟩ :=
      Linker.Stages.of_load_of_unregistered hparse' hunregistered hok
    obtain ⟨_, es, -, -, -, hbuildable, -, -⟩ := hstages.linked
    -- without the inverse order: what can be built in the other order can be built in this one
    obtain ⟨ds, hbuildable'⟩ := Linker.exists_buildable horders hbuildable
    obtain ⟨v', hstages', -⟩ := hstages.withModules hbuildable'
    exact ⟨_, _, hstages'.load_eq hdepth hparse⟩

/-! ### Modules that use each other -/

section Crossing

open Linker

/-- A program without references. -/
def programOf (ds : List ModuleDocument) : Document :=
  { name := "Main", version := "1", uid := "main", loomConfig := "", jit := false,
    references := [], modules := ds.map ModuleDocument.toJson }

theorem parse_programOf (ds : List ModuleDocument) (origin : String) :
    Document.parse (programOf ds).render origin = .ok (programOf ds) := by
  have hwritable : ∀ j ∈ (programOf ds).modules, Json.Writable Document.moduleDepth j := by
    intro j hj
    obtain ⟨d, -, rfl⟩ := List.mem_map.1 hj
    exact d.writable_toJson 120
  exact Document.parse_render_of_steady (fun j hj => (hwritable j hj).readable)
    (fun j hj => (hwritable j hj).steady) origin

/-- A player is an entity, which comes behind it and refers to the world of the next module,
    and the world refers to the player. -/
def crossing : List ModuleDocument :=
  [{ kind := "MODULE", name := "Actors", types :=
      [{ name := "Player", base := some "Entity" },
        { name := "Entity", interfaces := ["World"] }] },
    { kind := "MODULE", name := "Core", types :=
      [{ name := "World", fields := [⟨"player", "Player"⟩] }] }]

/-- The last module first, and the types of the other one swapped. -/
def crossingBack : List ModuleOrder := [⟨1, [0]⟩, ⟨0, [1, 0]⟩]

theorem arranges_crossingBack : Arranges crossingBack (programOf crossing).modules := by
  refine ⟨by decide, ?_⟩
  intro o ho j items hj hitems
  have hplaces : o = ⟨1, [0]⟩ ∨ o = ⟨0, [1, 0]⟩ := by simpa [crossingBack] using ho
  rcases hplaces with rfl | rfl
  · obtain rfl := Option.some.inj hj
    have hlist := Json.arr.inj (Option.some.inj hitems)
    rw [← hlist]
    decide
  · obtain rfl := Option.some.inj hj
    have hlist := Json.arr.inj (Option.some.inj hitems)
    rw [← hlist]
    decide

/-- The session in which the program has been opened. -/
def crossingOpened : Session :=
  ({} : Session).record (.created (newAssembly (programOf crossing) "main"))

theorem load_crossing (origin : String) : ∃ t a,
    ({} : Linker).load (programOf crossing).render origin {} = (.ok 0, t) ∧
      t.store.get? 0 = some a ∧ a.modules = crossing.map ModuleDocument.built := by
  have hopens : ({} : Linker).Opens (programOf crossing) {} crossingOpened := opens_of_empty rfl rfl
  have hbuilt : (buildModules 0 (programOf crossing).modules crossingOpened).1 = .ok () := rfl
  have hstages : Stages {} (({} : Linker).loadWithin 3999) (programOf crossing) {}
      crossingOpened crossingOpened crossingOpened
      (buildModules 0 (programOf crossing).modules crossingOpened).2 :=
    ⟨hopens, rfl, rfl, Prod.ext hbuilt rfl⟩
  exact ⟨_, _, hstages.load_eq rfl (parse_programOf crossing origin), rfl, rfl⟩

/-- The program is loaded in both orders. -/
theorem crossing_loads_back :
    let doc := programOf crossing
    let back := { doc with modules := rearrange Json.reorderTypes crossingBack doc.modules }
    Document.parse doc.render "" = .ok doc ∧ Document.parse back.render "" = .ok back ∧
      Arranges crossingBack doc.modules ∧ doc.uid ≠ "" ∧
      ({} : Session).registry.find? doc.name doc.uid = none ∧
      ∃ a t t', ({} : Linker).load doc.render "" {} = (.ok 0, t) ∧ t.store.get? 0 = some a ∧
        a.modules = crossing.map ModuleDocument.built ∧
        ({} : Linker).load back.render "" {} = (.ok 0, t') ∧
        t.Rebuilt 0 (rearrange ModuleInfo.reorder crossingBack a.modules) t' := by
  intro doc back
  have hparse : Document.parse doc.render "" = .ok doc := parse_programOf crossing ""
  have hback : back = programOf (rearrange ModuleDocument.reorder crossingBack crossing) := rfl
  have hparse' : Document.parse back.render "" = .ok back := by
    rw [hback]
    exact parse_programOf _ ""
  have huid : doc.uid ≠ "" := by decide
  have hnew : ({} : Session).registry.find? doc.name doc.uid = none := rfl
  obtain ⟨-, hresult⟩ := order_irrelevant {} {} doc crossingBack doc.render "" back.render "" hparse
    hparse' arranges_crossingBack huid hnew
  obtain ⟨t, a, hload, ha, hmodules⟩ := load_crossing ""
  obtain ⟨a', t', ha', hload', hrebuilt⟩ := hresult 0 t hload
  obtain rfl : a = a' := Option.some.inj (ha.symm.trans ha')
  exact ⟨hparse, hparse', arranges_crossingBack, huid, hnew, a, t, t', hload, ha, hmodules, hload',
    hrebuilt⟩

end Crossing

end AssemblyLinker
