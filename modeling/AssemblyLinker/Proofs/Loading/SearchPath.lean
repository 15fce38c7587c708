import AssemblyLinker.Proofs.Executable.Embedding
import AssemblyLinker.Proofs.Loading.Collaborators

/-! # More directories behind a search path

    The search path is looked through in order, and a load stops at a name that is in none of
    its directories.  So a load that succeeds has found every name that it has looked for, and
    directories that are added behind the search path are never reached.

    * **One lookup**: a file that is found is found with further directories as well
      (`LoadContext.findLibrary_searchFurther`).
    * **Loads**: whatever a part of a load yields, it yields with further directories, and the
      desk is the same but for the search path (`Job.Withstands`).  This is a property of all
      parts by which a load is put together, for any registry and codec.
    * **Executables**: the walk through the libraries takes the same steps
      (`Executable.walk_searchFurther`).

    The main statement, `earlier_directories_win`, puts them together.
-/

namespace AssemblyLinker

/-! ## One lookup -/

namespace LoadContext

/-- The context with further directories at the end of its search path. -/
def searchFurther (ctx : LoadContext) (dirs : List String) : LoadContext :=
  dirs.foldl addLibraryPath ctx

theorem searchFurther_eq (ctx : LoadContext) (dirs : List String) :
    ctx.searchFurther dirs = { ctx with searchPath := ctx.searchPath ++ dirs } := by
  unfold searchFurther
  induction dirs generalizing ctx with
  | nil => simp
  | cons dir dirs ih => simp [ih, addLibraryPath]

variable (ctx : LoadContext) (dirs : List String)

@[simp] theorem bootstrap_searchFurther : (ctx.searchFurther dirs).bootstrap = ctx.bootstrap := by
  rw [searchFurther_eq]

@[simp] theorem bundled_searchFurther : (ctx.searchFurther dirs).bundled = ctx.bundled := by
  rw [searchFurther_eq]

theorem bundle_searchFurther (name text : String) :
    (ctx.searchFurther dirs).bundle name text = (ctx.bundle name text).searchFurther dirs := by
  simp only [searchFurther_eq, bundle]

theorem clearBundle_searchFurther :
    (ctx.searchFurther dirs).clearBundle = ctx.clearBundle.searchFurther dirs := by
  simp only [searchFurther_eq, clearBundle]

variable {ctx} {files : FileSystem} {name : String} {found : String × String}

/-- The search ends at the file that it finds. -/
theorem findLibraryIn_append {path : List String}
    (hfound : findLibraryIn files name path = .ok (some found)) :
    findLibraryIn files name (path ++ dirs) = .ok (some found) := by
  induction path with
  | nil => cases hfound
  | cons dir path ih =>
    rw [findLibraryIn_cons] at hfound
    rw [List.cons_append, findLibraryIn_cons]
    split at hfound
    · exact hfound
    · exact ih hfound
    · cases hfound

theorem findLibrary_searchFurther (hfound : ctx.findLibrary files name = .ok (some found)) :
    (ctx.searchFurther dirs).findLibrary files name = .ok (some found) := by
  rw [searchFurther_eq]
  exact findLibraryIn_append dirs hfound

end LoadContext

/-- A text that is located is located in the same place with further directories. -/
theorem Linker.locateText_searchFurther {L : Linker} {ctx : LoadContext} (dirs : List String)
    {assembly name : String} {found : TextSource × String}
    (hfound : L.locateText ctx assembly name = .ok found) :
    L.locateText (ctx.searchFurther dirs) assembly name = .ok found := by
  unfold locateText LoadContext.bootstrapDocument? LoadContext.bundled? at hfound ⊢
  rw [LoadContext.bootstrap_searchFurther, LoadContext.bundled_searchFurther]
  split at hfound
  next => exact hfound
  next =>
    split at hfound
    next => exact hfound
    next =>
      split at hfound
      next hlibrary =>
        rw [LoadContext.findLibrary_searchFurther dirs hlibrary]
        exact hfound
      next => cases hfound
      next => cases hfound

/-! ## Loads -/

/-- The desk with further directories behind the search path. -/
def Desk.searchFurther {σ : Type} (d : Desk σ) (dirs : List String) : Desk σ :=
  { d with context := d.context.searchFurther dirs }

/-- The session with further directories behind the search path. -/
def Session.searchFurther (s : Session) (dirs : List String) : Session :=
  { s with context := s.context.searchFurther dirs }

namespace Job

variable {σ α β : Type} {dirs : List String}

/-- What a part of a load yields, it yields with further directories behind the search path, and
    nothing but the search path is another then. -/
def Withstands (dirs : List String) (job : Job σ α) : Prop :=
  ∀ d a d', job d = (.ok a, d') → job (d.searchFurther dirs) = (.ok a, d'.searchFurther dirs)

namespace Withstands

theorem pure (a : α) : (Pure.pure a : Job σ α).Withstands dirs := by
  intro d b d' hok
  cases hok
  rfl

theorem throw (stop : Stop) : (throwThe Stop stop : Job σ α).Withstands dirs := by
  intro d a d' hok
  cases hok

theorem ask (call : σ → α × σ) : (ask call).Withstands dirs := by
  intro d a d' hok
  cases hok
  rfl

theorem look (view : σ → α) : (look view).Withstands dirs := by
  intro d a d' hok
  cases hok
  rfl

theorem tell (call : σ → σ) : (tell call).Withstands dirs := by
  intro d a d' hok
  cases hok
  rfl

theorem request (call : σ → Except LinkError α × σ) : (request call).Withstands dirs := by
  intro d a d' hok
  unfold Job.request at hok ⊢
  obtain ⟨hresult, rfl⟩ := Prod.ext_iff.1 hok
  exact Prod.ext hresult rfl

theorem bundle (name text : String) : (bundle name text : Job σ Unit).Withstands dirs := by
  intro d a d' hok
  cases hok
  unfold Job.bundle Desk.searchFurther
  rw [LoadContext.bundle_searchFurther]

theorem clearBundle : (clearBundle : Job σ Unit).Withstands dirs := by
  intro d a d' hok
  cases hok
  unfold Job.clearBundle Desk.searchFurther
  rw [LoadContext.clearBundle_searchFurther]

theorem locate (L : Linker) (assembly : String) (h : Handle) (name : String) :
    (locate L assembly h name : Job σ String).Withstands dirs := by
  intro d a d' hok
  unfold Job.locate at hok ⊢
  -- a text that is not located ends the load
  cases hfound : L.locateText d.context assembly name with
  | error e =>
    rw [hfound] at hok
    cases hok
  | ok found =>
    rw [hfound] at hok
    cases hok
    have hlater : L.locateText (d.searchFurther dirs).context assembly name = .ok found :=
      L.locateText_searchFurther dirs hfound
    rw [hlater]
    rfl

theorem bind {job : Job σ α} {next : α → Job σ β} (h : job.Withstands dirs)
    (h' : ∀ a, (next a).Withstands dirs) : (job >>= next).Withstands dirs := by
  intro d b d' hok
  rcases hjob : job d with ⟨stop | a, d₁⟩
  · rw [bind_of_error hjob] at hok
    cases hok
  · rw [bind_of_ok hjob] at hok
    rw [bind_of_ok (h d a d₁ hjob)]
    exact h' a d₁ b d' hok

theorem forEach {job : α → Job σ Unit} {xs : List α} (h : ∀ x, (job x).Withstands dirs) :
    (forM xs job : Job σ Unit).Withstands dirs := by
  induction xs with
  | nil => exact .pure ()
  | cons x xs ih =>
    rw [List.forM_cons]
    exact (h x).bind fun _ => ih

end Withstands

theorem harvest_withstands (doc : Document) : (harvest doc : Job σ Unit).Withstands dirs := by
  have hreference : ∀ r, (harvestReference doc.name r : Job σ Unit).Withstands dirs := by
    intro r
    unfold harvestReference
    cases payload doc.name r with
    | error e => exact .throw _
    | ok text => exact .bundle r.name text
  unfold harvest
  split
  · exact .forEach hreference
  · exact .pure ()

theorem leave_withstands (doc : Document) : (leave doc : Job σ Unit).Withstands dirs := by
  unfold leave
  split
  · exact .clearBundle
  · exact .pure ()

end Job

namespace Collaborators

open Job

variable {σ : Type} (C : Collaborators σ) (L : Linker) {dirs : List String} {load : Load σ}
  (hload : ∀ text origin, (load text origin).Withstands dirs)
include hload

theorem linkReference_withstands (assembly : String) (h : Handle) (r : Reference) :
    (C.linkReference L load assembly h r).Withstands dirs := by
  unfold linkReference resolveReference
  refine Withstands.bind (.tell _) fun _ => Withstands.bind (.ask _) fun found => ?_
  cases found with
  | some d =>
    refine Withstands.bind (.look _) fun linking => ?_
    cases linking with
    | true => exact .throw _
    | false => exact .tell _
  | none =>
    refine Withstands.bind (.locate L assembly h r.name) fun text => ?_
    exact (hload text r.name).bind fun d => .tell _

theorem link_withstands (doc : Document) (h : Handle) :
    (C.link L load doc h).Withstands dirs := by
  unfold link buildModules
  refine (harvest_withstands doc).bind fun _ => ?_
  refine Withstands.bind (.forEach (C.linkReference_withstands L hload doc.name h)) fun _ => ?_
  exact Withstands.bind (.forEach fun j => .request _) fun _ => .forEach fun j => .request _

theorem create_withstands (doc : Document) (uid : String) :
    (C.create L load doc uid).Withstands dirs := by
  unfold create
  refine Withstands.bind (.ask _) fun h => ?_
  intro d a d' hok
  rcases hlink : C.link L load doc h d with ⟨result, d₁⟩
  have hattempt : attempt (C.link L load doc h) d = (.ok result, d₁) := by
    rw [attempt_apply, hlink]
  rw [bind_of_ok hattempt] at hok
  cases result with
  | error stop =>
    -- an assembly that could not be linked is no result
    unfold finish leave at hok
    cases hexecutable : doc.executable <;> rw [hexecutable] at hok <;> cases hok
  | ok _ =>
    have hlater : attempt (C.link L load doc h) (d.searchFurther dirs) =
        (.ok (.ok ()), d₁.searchFurther dirs) := by
      rw [attempt_apply, C.link_withstands L hload doc h d () d₁ hlink]
    rw [bind_of_ok hlater]
    have hfinish : (C.finish doc h (.ok ())).Withstands dirs := by
      unfold finish
      exact (leave_withstands doc).bind fun _ => Withstands.bind (.tell _) fun _ => .pure h
    exact hfinish d₁ a d' hok

theorem accept_withstands (doc : Document) : (C.accept L load doc).Withstands dirs := by
  have huid : (C.uidOf doc).Withstands dirs := by
    unfold uidOf
    split
    · exact .ask _
    · exact .pure _
  unfold accept acceptAs
  split
  · exact .throw _
  · refine huid.bind fun uid => Withstands.bind (.ask _) fun found => ?_
    cases found with
    | some h =>
      refine Withstands.bind (.look _) fun linking => ?_
      cases linking with
      | true => exact .throw _
      | false => exact .pure h
    | none =>
      refine Withstands.bind (.ask _) fun namesake => Withstands.bind (.look _) fun linking => ?_
      cases linking with
      | true => exact .throw _
      | false => exact C.create_withstands L hload doc uid

omit hload in
/-- Loads that nest withstand further directories, whatever their depth. -/
theorem loadWithin_withstands (depth : Nat) : ∀ text origin,
    (C.loadWithin L depth text origin).Withstands dirs := by
  induction depth with
  | zero => exact fun _ _ => .throw _
  | succ depth ih =>
    intro text origin
    unfold loadWithin
    cases Document.parse text origin with
    | error e => exact .throw _
    | ok doc => exact C.accept_withstands L ih doc

end Collaborators

/-- A load of sessions withstands further directories, as one that uses their own registry and
    codec. -/
theorem Linker.load_searchFurther (L : Linker) (dirs : List String) {text origin : String}
    {s t : Session} {h : Handle} (hok : L.load text origin s = (.ok h, t)) :
    ∃ t', L.load text origin (s.searchFurther dirs) = (.ok h, t') ∧
      t'.desk = t.desk.searchFurther dirs := by
  have hdesk : L.own.load L text origin s.desk = (.ok h, t.desk) := by
    rw [L.load_shows text origin s, hok]
  have hwithstands : (L.own.loadWithin L L.maxDepth text origin).Withstands dirs :=
    L.own.loadWithin_withstands L L.maxDepth text origin
  have hlater := hwithstands _ _ _ hdesk
  have hshown := L.load_shows text origin (s.searchFurther dirs)
  obtain ⟨hresult, hafter⟩ := Prod.ext_iff.1 (hshown.symm.trans hlater)
  exact ⟨_, Prod.ext hresult rfl, hafter⟩

/-! ## Executables -/

namespace Executable

variable {files : FileSystem} {ctx : LoadContext} (dirs : List String)

theorem textOf?_of_library {name path text : String}
    (hbootstrap : ctx.bootstrapDocument? name = none)
    (hlibrary : ctx.findLibrary files name = .ok (some (path, text))) :
    textOf? files ctx name = some text := by
  unfold textOf?
  rw [hbootstrap, hlibrary]

theorem provide_searchFurther {need : Need} {text : String}
    (hprovided : provide files ctx need = .ok text) :
    provide files (ctx.searchFurther dirs) need = .ok text := by
  unfold provide LoadContext.bootstrapDocument? at hprovided ⊢
  rw [LoadContext.bootstrap_searchFurther]
  split at hprovided
  next => exact hprovided
  next =>
    split at hprovided
    next hlibrary =>
      rw [LoadContext.findLibrary_searchFurther dirs hlibrary]
      exact hprovided
    next => cases hprovided
    next => cases hprovided

theorem visit_searchFurther {jit : Bool} {need : Need} {w w' : Walk}
    (hvisited : visit files ctx jit need w = .ok w') :
    visit files (ctx.searchFurther dirs) jit need w = .ok w' := by
  unfold visit at hvisited ⊢
  split at hvisited
  next hseen => rw [if_pos hseen, hvisited]
  next hunseen =>
    rw [if_neg hunseen]
    cases hprovided : provide files ctx need with
    | error e =>
      rw [hprovided] at hvisited
      cases hvisited
    | ok text =>
      rw [hprovided] at hvisited
      rw [provide_searchFurther dirs hprovided]
      exact hvisited

/-- A walk that comes to an end takes the same steps with further directories. -/
theorem walk_searchFurther {jit : Bool} {payloads : List (String × String)} (steps : Nat) :
    ∀ w : Walk, walk files ctx jit steps w = .ok payloads →
      walk files (ctx.searchFurther dirs) jit steps w = .ok payloads := by
  induction steps with
  | zero => exact fun w hok => hok
  | succ steps ih =>
    intro w hok
    unfold walk at hok ⊢
    cases hqueue : w.queue with
    | nil =>
      rw [hqueue] at hok
      exact hok
    | cons need rest =>
      rw [hqueue] at hok
      simp only at hok ⊢
      cases hvisited : visit files ctx jit need { w with queue := rest } with
      | error e =>
        rw [hvisited] at hok
        cases hok
      | ok w' =>
        rw [hvisited] at hok
        rw [visit_searchFurther dirs hvisited]
        exact ih w' hok

theorem link_searchFurther {text executable : String}
    (hlinked : link files ctx text = .ok executable) :
    link files (ctx.searchFurther dirs) text = .ok executable := by
  obtain ⟨root, hparse, -⟩ := exists_of_bind_ok hlinked
  obtain ⟨payloads, hclosure, hrendered⟩ := (link_eq_ok_iff hparse).1 hlinked
  have hbound : stepBound files (ctx.searchFurther dirs) root = stepBound files ctx root := by
    unfold stepBound candidates
    rw [LoadContext.bootstrap_searchFurther]
  have hlater : closure files (ctx.searchFurther dirs) root = .ok payloads := by
    unfold closure
    rw [hbound]
    exact walk_searchFurther dirs _ _ hclosure
  exact (link_eq_ok_iff hparse).2 ⟨payloads, hlater, hrendered⟩

end Executable

/-- Directories that are added behind a search path change nothing about what succeeds without
    them, whatever they hold.

    * A load yields the same assembly, for any registry and codec, and leaves them as it would
      have left them.
    * In sessions the same assemblies are created, with the same references, dependencies and
      modules, they are registered in the same order, and the same uids are drawn.
    * A root is made the same executable. -/
theorem earlier_directories_win (L : Linker) (dirs : List String) :
    (∀ (σ : Type) (C : Collaborators σ) (text origin : String) (d d' : Desk σ) (h : Handle),
      C.load L text origin d = (.ok h, d') →
        C.load L text origin (d.searchFurther dirs) = (.ok h, d'.searchFurther dirs)) ∧
    (∀ (text origin : String) (s t : Session) (h : Handle),
      L.load text origin s = (.ok h, t) →
        ∃ t', L.load text origin (s.searchFurther dirs) = (.ok h, t') ∧ t'.store = t.store ∧
          t'.registry = t.registry ∧ t'.uidsDrawn = t.uidsDrawn ∧
          t'.context = t.context.searchFurther dirs) ∧
    ∀ (ctx : LoadContext) (text executable : String),
      Executable.link L.files ctx text = .ok executable →
        Executable.link L.files (ctx.searchFurther dirs) text = .ok executable := by
  refine ⟨fun σ C text origin d d' h hok => ?_, fun text origin s t h hok => ?_,
    fun ctx text executable => Executable.link_searchFurther dirs⟩
  · exact C.loadWithin_withstands L L.maxDepth text origin d h d' hok
  · obtain ⟨t', hlater, hdesk⟩ := L.load_searchFurther dirs hok
    have hworld : t'.aside = t.aside := congrArg Desk.world hdesk
    have hstore : t'.aside.store = t.aside.store := congrArg Session.store hworld
    have hregistry : t'.aside.registry = t.aside.registry := congrArg Session.registry hworld
    have hdrawn : t'.aside.uidsDrawn = t.aside.uidsDrawn := congrArg Session.uidsDrawn hworld
    have hcontext : t'.desk.context = (t.desk.searchFurther dirs).context :=
      congrArg Desk.context hdesk
    exact ⟨t', hlater, hstore, hregistry, hdrawn, hcontext⟩

/-! ### A library that two directories hold -/

section Layers

open Linker

/-- A library in some version. -/
def layeredBase (version : String) : Document := { bareDocument "Base" [] with version }

/-- Two directories, each with a library file of its own. -/
def layers (one two : List UInt8) : FileSystem :=
  { nodes := [(["first"], .directory), (["first", "Base.loomlib"], .file one),
      (["second"], .directory), (["second", "Base.loomlib"], .file two)] }

/-- The directories with two versions of the library. -/
def layeredFiles : FileSystem :=
  layers (Utf8.encode (layeredBase "1").render) (Utf8.encode (layeredBase "2").render)

def layeredLinker : Linker := { files := layeredFiles, uids := unaryUids }

/-- Only the first directory is on the search path. -/
def layeredContext : LoadContext := { searchPath := ["first"] }

theorem parse_layeredBase (version origin : String) :
    Document.parse (layeredBase version).render origin = .ok (layeredBase version) := by
  have hreadable : (layeredBase version).Readable := by
    intro j hj
    cases hj
  exact Document.parse_render hreadable origin

theorem findLibrary_layers (text : String) (two : List UInt8) :
    layeredContext.findLibrary (layers (Utf8.encode text) two) "Base" =
      .ok (some ("first/Base.loomlib", text)) := by
  -- the path leads to the file, whatever the file holds
  have hread : ∀ one, (layers one two).read "first/Base.loomlib" = .ok one := fun one => rfl
  have htext : (layers (Utf8.encode text) two).readText "first/Base.loomlib" = .ok text := by
    unfold FileSystem.readText
    rw [hread]
    simp [bind, Except.bind, pure, Except.pure]
  have hpath : LoadContext.libraryFile "first" "Base" = "first/Base.loomlib" := rfl
  unfold LoadContext.findLibrary layeredContext
  rw [LoadContext.findLibraryIn_cons, hpath, htext]

theorem findLibrary_layered : layeredContext.findLibrary layeredFiles "Base" =
    .ok (some ("first/Base.loomlib", (layeredBase "1").render)) :=
  findLibrary_layers _ _

/-- The session in which the program has been created. -/
def layeredCreated : Session :=
  (({ context := layeredContext } : Session).identify (bareDocument "Main" ["Base"])).record
    (.created (newAssembly (bareDocument "Main" ["Base"]) (unaryUids 0)))

/-- The session in which its library has been linked. -/
def layeredLinked : Session :=
  ((layeredLinker.accept (layeredLinker.loadWithin 3998) (layeredBase "1"))
    (layeredCreated.refer 0 "Base" (.library "first/Base.loomlib")
      (layeredBase "1").render)).2.record (.dependencyAdded 0 1)

theorem linkReference_layered {s : Session} (hcontext : s.context = layeredContext)
    (hfree : s.registry.findByName? "Base" = none) :
    layeredLinker.linkReference (layeredLinker.loadWithin 3999) "Main" 0 { name := "Base" } s =
      ((layeredLinker.accept (layeredLinker.loadWithin 3998) (layeredBase "1")).andThen
        fun d => .record (.dependencyAdded 0 d))
          (s.refer 0 "Base" (.library "first/Base.loomlib") (layeredBase "1").render) := by
  have hlocated : layeredLinker.locateText s.context "Main" "Base" =
      .ok (.library "first/Base.loomlib", (layeredBase "1").render) := by
    have hbootstrap : layeredContext.bootstrapDocument? "Base" = none := rfl
    have hbundled : layeredContext.bundled? "Base" = none := rfl
    have hlibrary : layeredContext.findLibrary layeredLinker.files "Base" =
        .ok (some ("first/Base.loomlib", (layeredBase "1").render)) := findLibrary_layered
    unfold locateText
    rw [hcontext, hbootstrap, hbundled, hlibrary]
  have hload : layeredLinker.loadWithin 3999 (layeredBase "1").render "Base" =
      layeredLinker.accept (layeredLinker.loadWithin 3998) (layeredBase "1") := by
    rw [loadWithin, parse_layeredBase]
  rw [linkReference_of_located _ _ _ _ hfree hlocated, hload]

theorem load_layered : layeredLinker.load (bareDocument "Main" ["Base"]).render ""
    { context := layeredContext } = (.ok 0, layeredLinked.record (.completed 0)) := by
  have hstages : Stages layeredLinker (layeredLinker.loadWithin 3999)
      (bareDocument "Main" ["Base"]) { context := layeredContext } layeredCreated layeredCreated
      layeredLinked layeredLinked := by
    refine ⟨⟨rfl, rfl, rfl, rfl⟩, harvest_of_library rfl _, ?_, rfl⟩
    show Action.forEach (layeredLinker.linkReference (layeredLinker.loadWithin 3999) "Main" 0)
      [{ name := "Base" }] layeredCreated = _
    have hreference := linkReference_layered (s := layeredCreated) rfl rfl
    rw [Action.forEach, Action.andThen_of_ok (hreference.trans rfl)]
    rfl
  exact hstages.load_eq rfl (parse_bareDocument "Main" ["Base"] "")

theorem textOf?_layered : Executable.textOf? layeredFiles layeredContext "Base" =
    some (layeredBase "1").render :=
  Executable.textOf?_of_library rfl findLibrary_layered

/-- The program needs nothing but the library. -/
theorem needed_layered {name : String} (hneeded : Executable.Needed layeredFiles layeredContext
    (bareDocument "Main" ["Base"]) name) : name = "Base" := by
  induction hneeded with
  | direct referenced => exact List.mem_singleton.1 referenced
  | indirect _ found referenced ih =>
    rw [ih, textOf?_layered] at found
    rw [← Option.some.inj found,
      Executable.referencedNames_of_parse (parse_layeredBase "1" "")] at referenced
    cases referenced

theorem link_layered : ∃ executable, Executable.link layeredFiles layeredContext
    (bareDocument "Main" ["Base"]).render = .ok executable := by
  have hships : ∀ name, Executable.Needed layeredFiles layeredContext
      (bareDocument "Main" ["Base"]) name → ∃ text library,
        Executable.Ships layeredFiles layeredContext false name text library := by
    intro name hneeded
    rw [needed_layered hneeded]
    exact ⟨_, _, textOf?_layered, parse_layeredBase "1" "Base", rfl⟩
  obtain ⟨payloads, hclosure⟩ := Executable.closure_isOk_iff.2 hships
  exact ⟨_, (Executable.link_eq_ok_iff (parse_bareDocument "Main" ["Base"] _)).2
    ⟨payloads, hclosure, rfl⟩⟩

/-- The program is linked to the version of the first directory, and bundled with it, also where
    the second directory is on the search path. -/
theorem first_version_wins :
    let s : Session := { context := layeredContext }
    let t := layeredLinked.record (.completed 0)
    t.store.map (fun a => (a.name, a.version, a.dependencies)) =
      [("Main", "1", [1]), ("Base", "1", [])] ∧
    layeredLinker.own.load layeredLinker (bareDocument "Main" ["Base"]).render ""
      (s.desk.searchFurther ["second"]) = (.ok 0, t.desk.searchFurther ["second"]) ∧
    (∃ t', layeredLinker.load (bareDocument "Main" ["Base"]).render ""
        (s.searchFurther ["second"]) = (.ok 0, t') ∧ t'.store = t.store) ∧
    ∃ executable,
      Executable.link layeredFiles layeredContext (bareDocument "Main" ["Base"]).render =
        .ok executable ∧
      Executable.link layeredFiles (layeredContext.searchFurther ["second"])
        (bareDocument "Main" ["Base"]).render = .ok executable := by
  dsimp only
  obtain ⟨hjob, hload, hlink⟩ := earlier_directories_win layeredLinker ["second"]
  have hdesk : layeredLinker.own.load layeredLinker (bareDocument "Main" ["Base"]).render ""
      ({ context := layeredContext } : Session).desk =
        (.ok 0, (layeredLinked.record (.completed 0)).desk) := by
    rw [layeredLinker.load_shows, load_layered]
  obtain ⟨t', hok, hstore, -⟩ := hload _ _ _ _ _ load_layered
  obtain ⟨executable, hexecutable⟩ := link_layered
  exact ⟨rfl, hjob _ _ _ _ _ _ _ hdesk, ⟨t', hok, hstore⟩, executable, hexecutable,
    hlink _ _ _ hexecutable⟩

end Layers

end AssemblyLinker
