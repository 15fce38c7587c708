import AssemblyLinker.Proofs.Loading.Links
import AssemblyLinker.Proofs.Loading.Texts

/-! # Loads in step

    Two loads of one text by two linkers come to the same if they find the same texts for
    references, although they may find them in other places and draw other uids.  The uid of an
    assembly decides one thing only: whether a document that states it is answered with this
    assembly.  A uid that is fresh is stated by no document, so it does not matter which.

    * Sessions are in step if their assemblies are the same but for uids, and are found in the
      same way by names and by uids that documents state (`Linker.InStep`).
    * Contexts have to agree on the texts of references (`Linker.Parallel`).
    * Then every load that succeeds for one linker does so for the other, with the same handle,
      and leaves the sessions in step (`Linker.Parallel.load`).
-/

namespace AssemblyLinker

/-! ## Assemblies but for their uids -/

/-- An assembly without what no load of another one looks at: its uid, and whether it is an
    executable. -/
def Assembly.outline (a : Assembly) : Assembly := { a with uid := "", executable := false }

theorem Assembly.covers_of_outline {a b : Assembly} (h : b.outline = a.outline) : b.Covers a := by
  have hmodules : b.modules = a.modules := congrArg (·.modules) h
  have hdependencies : b.dependencies = a.dependencies := congrArg (·.dependencies) h
  exact ⟨hmodules ▸ List.Subset.refl _, hdependencies ▸ List.Subset.refl _⟩

namespace Registry

variable {r r' : Registry} {e : Entry}

theorem findByName?_concat (hentries : r'.entries = r.entries ++ [e]) (name : String) :
    r'.findByName? name = (r.findByName? name).or (if e.name = name then some e.handle else none) := by
  unfold findByName?
  rw [hentries, List.find?_append, List.find?_singleton]
  cases r.entries.find? (·.name = name) with
  | some _ => rfl
  | none => by_cases hname : e.name = name <;> simp [hname]

theorem find?_concat (hentries : r'.entries = r.entries ++ [e]) (name uid : String) :
    r'.find? name uid =
      (r.find? name uid).or (if e.name = name ∧ e.uid = uid then some e.handle else none) := by
  unfold find?
  rw [hentries, List.find?_append, List.find?_singleton]
  cases r.entries.find? (·.isFor name uid) with
  | some _ => rfl
  | none =>
    by_cases hkey : e.name = name ∧ e.uid = uid <;> simp [Entry.isFor, hkey]

end Registry

/-! ## Parts of loads in step -/

namespace Action

variable {α β : Type} {R : Session → Session → Prop}

/-- If one part of a load yields a value, so does another one, and sessions that are related
    before are related afterwards. -/
def Follows (R : Session → Session → Prop) (act act' : Action α) : Prop :=
  ∀ s s', R s s' → ∀ a t, act s = (.ok a, t) → ∃ t', act' s' = (.ok a, t') ∧ R t t'

theorem Follows.andThen {first first' : Action α} {second second' : α → Action β}
    (h : Follows R first first') (h' : ∀ a, Follows R (second a) (second' a)) :
    Follows R (first.andThen second) (first'.andThen second') := by
  intro s s' hs b t hok
  obtain ⟨a, u, hfirst, hsecond⟩ := andThen_eq_ok hok
  obtain ⟨u', hfirst', hu⟩ := h s s' hs a u hfirst
  obtain ⟨t', hsecond', ht⟩ := h' a u u' hu b t hsecond
  exact ⟨t', by rw [andThen_of_ok hfirst', hsecond'], ht⟩

theorem Follows.forEach {act act' : α → Action Unit} {xs : List α}
    (h : ∀ x ∈ xs, Follows R (act x) (act' x)) :
    Follows R (Action.forEach act xs) (Action.forEach act' xs) := by
  induction xs with
  | nil =>
    intro s s' hs a t hok
    cases hok
    exact ⟨s', rfl, hs⟩
  | cons x xs ih =>
    exact (h x List.mem_cons_self).andThen fun _ => ih fun y hy => h y (List.mem_cons_of_mem x hy)

end Action

namespace Linker

/-! ## Sessions in step -/

/-- Two sessions of two linkers are in step: their assemblies are the same but for uids, and are
    found in the same way. -/
structure InStep (L L' : Linker) (texts : List String)
    (Agree : LoadContext → LoadContext → Prop) (s s' : Session) : Prop where
  store : ∀ h, (s'.store.get? h).map Assembly.outline = (s.store.get? h).map Assembly.outline
  byName : ∀ name, s'.registry.findByName? name = s.registry.findByName? name
  byUid : ∀ name uid, StatesUid texts uid →
    s'.registry.find? name uid = s.registry.find? name uid
  fresh : L.FreshUids texts s
  fresh' : L'.FreshUids texts s'
  context : Agree s.context s'.context

namespace InStep

variable {L L' : Linker} {texts : List String} {Agree : LoadContext → LoadContext → Prop}
  {s s' t t' : Session} {h : Handle} {a : Assembly}

theorem symm (hs : InStep L L' texts Agree s s') :
    InStep L' L texts (fun c c' => Agree c' c) s' s :=
  ⟨fun h => (hs.store h).symm, fun name => (hs.byName name).symm,
    fun name uid huid => (hs.byUid name uid huid).symm, hs.fresh', hs.fresh, hs.context⟩

theorem get? (hs : InStep L L' texts Agree s s') (ha : s.store.get? h = some a) :
    ∃ a', s'.store.get? h = some a' ∧ a'.outline = a.outline := by
  have hsame := hs.store h
  rw [ha] at hsame
  exact Option.map_eq_some_iff.1 hsame

theorem nextHandle (hs : InStep L L' texts Agree s s') : s'.nextHandle = s.nextHandle := by
  -- the handles that stand for nothing tell how long a store is
  have hlength : ∀ h, s'.store.length ≤ h ↔ s.store.length ≤ h := by
    intro h
    rw [← List.getElem?_eq_none_iff, ← List.getElem?_eq_none_iff]
    have hsame := congrArg Option.isNone (hs.store h)
    rw [Option.isNone_map, Option.isNone_map] at hsame
    rw [← Option.isNone_iff_eq_none, ← Option.isNone_iff_eq_none]
    exact Bool.eq_iff_iff.1 hsame
  exact Nat.le_antisymm ((hlength _).2 (Nat.le_refl _)) ((hlength _).1 (Nat.le_refl _))

theorem isLinking (hs : InStep L L' texts Agree s s') (h : Handle) :
    s'.isLinking h = s.isLinking h := by
  have hstate : ∀ u : Session, u.isLinking h =
      ((u.store.get? h).map Assembly.outline).any (·.state = .linking) := by
    intro u
    rw [Option.any_map]
    rfl
  rw [hstate, hstate, hs.store]

theorem covers (hs : InStep L L' texts Agree s s') : s'.store.Covers s.store := by
  intro h a ha
  obtain ⟨a', ha', houtline⟩ := hs.get? ha
  exact ⟨a', ha', Assembly.covers_of_outline houtline⟩

/-- Sessions stay in step when both change their assembly of a handle in the same way. -/
theorem changed (hs : InStep L L' texts Agree s s') {f f' : Assembly → Assembly}
    (ht : s.Changed h f t) (ht' : s'.Changed h f' t')
    (hf : ∀ a a', s.store.get? h = some a → s'.store.get? h = some a' → a'.outline = a.outline →
      (f' a').outline = (f a).outline) : InStep L L' texts Agree t t' := by
  refine ⟨fun i => ?_, fun name => ?_, fun name uid huid => ?_, ?_, ?_, ?_⟩
  · by_cases hi : i = h
    · -- the handle stands for an assembly in both stores, or in neither
      subst hi
      cases ha : s.store.get? i with
      | none =>
        have ha' : s'.store.get? i = none := by
          have hsame := hs.store i
          rw [ha] at hsame
          exact Option.map_eq_none_iff.1 hsame
        rw [ht.store, ht'.store, Store.get?_update_self, Store.get?_update_self, ha, ha']
        rfl
      | some a =>
        obtain ⟨a', ha', houtline⟩ := hs.get? ha
        rw [ht.get? ha, ht'.get? ha']
        exact congrArg some (hf a a' ha ha' houtline)
    · rw [ht.get?_ne hi, ht'.get?_ne hi]
      exact hs.store i
  · rw [ht.registry, ht'.registry]
    exact hs.byName name
  · rw [ht.registry, ht'.registry]
    exact hs.byUid name uid huid
  · exact hs.fresh.of_le (Nat.le_of_eq ht.uidsDrawn.symm) fun e he => ht.registry ▸ he
  · exact hs.fresh'.of_le (Nat.le_of_eq ht'.uidsDrawn.symm) fun e he => ht'.registry ▸ he
  · rw [ht.context, ht'.context]
    exact hs.context

theorem changed_same (hs : InStep L L' texts Agree s s') {f : Assembly → Assembly}
    (ht : s.Changed h f t) (ht' : s'.Changed h f t') (hf : ∀ a, (f a).outline = f a.outline) :
    InStep L L' texts Agree t t' := by
  refine hs.changed ht ht' ?_
  intro a a' _ _ houtline
  rw [hf, hf, houtline]

/-- Sessions stay in step when the uid of a document becomes known. -/
theorem identify (hs : InStep L L' texts Agree s s') (doc : Document) :
    InStep L L' texts Agree (s.identify doc) (s'.identify doc) := by
  refine ⟨fun h => ?_, fun name => ?_, fun name uid huid => ?_, ?_, ?_, ?_⟩
  · rw [Session.identify_store, Session.identify_store]
    exact hs.store h
  · rw [Session.identify_registry, Session.identify_registry]
    exact hs.byName name
  · rw [Session.identify_registry, Session.identify_registry]
    exact hs.byUid name uid huid
  · refine hs.fresh.of_le (Session.uidsDrawn_le_identify s doc) fun e he => ?_
    rwa [Session.identify_registry] at he
  · refine hs.fresh'.of_le (Session.uidsDrawn_le_identify s' doc) fun e he => ?_
    rwa [Session.identify_registry] at he
  · rw [Session.identify_context, Session.identify_context]
    exact hs.context

/-- The contexts of sessions in step may change, as long as they agree, and also in what they
    agree. -/
theorem withContext {Agree' : LoadContext → LoadContext → Prop} (hs : InStep L L' texts Agree s s')
    (hstore : t.store = s.store) (hregistry : t.registry = s.registry)
    (hdrawn : t.uidsDrawn = s.uidsDrawn) (hstore' : t'.store = s'.store)
    (hregistry' : t'.registry = s'.registry) (hdrawn' : t'.uidsDrawn = s'.uidsDrawn)
    (hcontext : Agree' t.context t'.context) : InStep L L' texts Agree' t t' :=
  ⟨fun h => by rw [hstore, hstore']; exact hs.store h,
    fun name => by rw [hregistry, hregistry']; exact hs.byName name,
    fun name uid huid => by rw [hregistry, hregistry']; exact hs.byUid name uid huid,
    hs.fresh.of_le (Nat.le_of_eq hdrawn.symm) fun e he => hregistry ▸ he,
    hs.fresh'.of_le (Nat.le_of_eq hdrawn'.symm) fun e he => hregistry' ▸ he, hcontext⟩

/-- Sessions stay in step when documents of one name are opened whose assemblies differ in
    their uids at most, as far as these are stated. -/
theorem opened {doc doc' : Document} (hs : InStep L L' texts Agree s s') (hopens : L.Opens doc s t)
    (hopens' : L'.Opens doc' s' t') (houtline : (newAssembly doc' (L'.uidFor doc' s')).outline =
      (newAssembly doc (L.uidFor doc s)).outline)
    (huid : ∀ uid, StatesUid texts uid → (L'.uidFor doc' s' = uid ↔ L.uidFor doc s = uid))
    (hfresh : L.FreshUids texts t) (hfresh' : L'.FreshUids texts t') :
    InStep L L' texts Agree t t' := by
  have hname : doc'.name = doc.name := congrArg (·.name) houtline
  have hhandle := hs.nextHandle
  refine ⟨fun h => ?_, fun name => ?_, fun name uid hstated => ?_, hfresh, hfresh', ?_⟩
  · have hlength : s'.store.length = s.store.length := hhandle
    rw [hopens.store, hopens'.store, Store.get?, Store.get?]
    rcases Nat.lt_trichotomy h s.store.length with hlt | rfl | hlt
    · rw [List.getElem?_append_left hlt, List.getElem?_append_left (hlength ▸ hlt)]
      exact hs.store h
    · rw [List.getElem?_concat_length, ← hlength, List.getElem?_concat_length]
      exact congrArg some houtline
    · rw [List.getElem?_eq_none (by simp; omega), List.getElem?_eq_none (by simp; omega)]
  · rw [Registry.findByName?_concat hopens.entries, Registry.findByName?_concat hopens'.entries,
      hs.byName, hname, hhandle]
  · rw [Registry.find?_concat hopens.entries, Registry.find?_concat hopens'.entries,
      hs.byUid name uid hstated, hname, hhandle]
    simp only [huid uid hstated]
  · rw [hopens.context, hopens'.context]
    exact hs.context

/-- Documents that state the same uid, or none, have the same uids as far as these are stated. -/
theorem uidFor_eq_iff (hs : InStep L L' texts Agree s s') {doc doc' : Document}
    (hsame : doc'.uid = doc.uid) {uid : String} (hstated : StatesUid texts uid) :
    L'.uidFor doc' s' = uid ↔ L.uidFor doc s = uid := by
  unfold uidFor
  rw [hsame]
  by_cases huid : doc.uid = ""
  · -- neither of the drawn uids is one that a document states
    rw [if_pos huid, if_pos huid]
    constructor
    · rintro rfl
      exact absurd hstated (hs.fresh'.unstated _ (Nat.le_refl _))
    · rintro rfl
      exact absurd hstated (hs.fresh.unstated _ (Nat.le_refl _))
  · rw [if_neg huid, if_neg huid]

/-- A document among the texts is opened in both of two sessions in step. -/
theorem opens (hs : InStep L L' texts Agree s s') (hmode : L'.mode = L.mode) {doc : Document}
    (hdoc : DocumentAmong texts doc) (hopens : L.Opens doc s t) :
    ∃ t', L'.Opens doc s' t' ∧ InStep L L' texts Agree t t' := by
  have hunregistered : s'.registry.find? doc.name (L'.uidFor doc s') = none := by
    unfold uidFor
    by_cases huid : doc.uid = ""
    · rw [if_pos huid]
      exact hs.fresh'.find?_eq_none doc.name
    · have hfind := hopens.unregistered
      rw [uidFor, if_neg huid] at hfind
      rw [if_neg huid, hs.byUid doc.name doc.uid (hdoc.statesUid huid), hfind]
  have hopens' : L'.Opens doc s'
      ((s'.identify doc).record (.created (newAssembly doc (L'.uidFor doc s')))) := by
    refine ⟨hopens.mode.trans hmode.symm, hunregistered, ?_, rfl⟩
    have hidle : s'.isLinking = s.isLinking := funext hs.isLinking
    rw [hs.byName, hidle]
    exact hopens.unlinked
  exact ⟨_, hopens', hs.opened hopens hopens' rfl (fun _ => hs.uidFor_eq_iff rfl)
    (hs.fresh.opens hopens hdoc.statesUid) (hs.fresh'.opens hopens' hdoc.statesUid)⟩

/-- The modules of an assembly are built in both of two sessions in step. -/
theorem buildModules (hs : InStep L L' texts Agree s s') {js js' : List Json}
    (hread : js'.map ModuleDocument.read = js.map ModuleDocument.read)
    (ha : s.store.get? h = some a) (hempty : a.modules = [])
    (hok : Linker.buildModules h js s = (.ok (), t)) :
    ∃ t', Linker.buildModules h js' s' = (.ok (), t') ∧ InStep L L' texts Agree t t' := by
  -- whether modules can be built depends on the outlines in the store alone
  obtain ⟨ds, hbuildable, hrebuilt⟩ := buildable_of_buildModules ha hempty hok
  obtain ⟨a', ha', houtline⟩ := hs.get? ha
  have hempty' : a'.modules = [] := (congrArg (·.modules) houtline).trans hempty
  have hbuildable' : Buildable s' h js' ds :=
    hbuildable.mono hread hs.covers (Nat.le_of_eq hs.nextHandle.symm)
  obtain ⟨t', hok', hrebuilt'⟩ := buildModules_of_buildable ha' hempty' hbuildable'
  refine ⟨t', hok', hs.changed hrebuilt hrebuilt' ?_⟩
  intro b b' _ _ hb
  show { b'.outline with modules := ds.map ModuleDocument.built } = _
  rw [hb]
  rfl

end InStep

/-! ## Linkers that find the same texts -/

/-- Two linkers find the same texts for the names that documents among these texts refer to,
    whenever their contexts agree; and executables among them keep the contexts in
    agreement. -/
structure Parallel (L L' : Linker) (texts : List String) (Known : String → Prop)
    (Agree : LoadContext → LoadContext → Prop) : Prop where
  mode : L'.mode = L.mode
  known : ∀ doc, DocumentAmong texts doc → ∀ r ∈ doc.references, Known r.name
  located : ∀ c c' assembly name source text, Agree c c' → Known name →
    L.locateText c assembly name = .ok (source, text) →
    text ∈ texts ∧ ∃ source', L'.locateText c' assembly name = .ok (source', text)
  bundled : ∀ c c' doc, Agree c c' → DocumentAmong texts doc → doc.executable = true →
    ∀ r ∈ doc.references, ∀ text, payload doc.name r = .ok text →
      Agree (c.bundle r.name text) (c'.bundle r.name text)
  cleared : ∀ c c' doc, Agree c c' → DocumentAmong texts doc → doc.executable = true →
    Agree c.clearBundle c'.clearBundle

namespace Parallel

variable {L L' : Linker} {texts : List String} {Known : String → Prop}
  {Agree : LoadContext → LoadContext → Prop} (hp : Parallel L L' texts Known Agree)
  {s s' t t' o o' p p' u v : Session} {h : Handle} {doc doc' : Document}
include hp

theorem harvest (hdoc : DocumentAmong texts doc) :
    Action.Follows (InStep L L' texts Agree) (AssemblyLinker.harvest doc)
      (AssemblyLinker.harvest doc) := by
  unfold AssemblyLinker.harvest
  split
  next hexecutable =>
    apply Action.Follows.forEach
    intro r hr s s' hs a t hok
    obtain ⟨text, hpayload, rfl⟩ := harvestReference_eq_ok_iff.1 hok
    exact ⟨_, harvestReference_eq_ok_iff.2 ⟨text, hpayload, rfl⟩,
      hs.withContext rfl rfl rfl rfl rfl rfl
        (hp.bundled _ _ doc hs.context hdoc hexecutable r hr text hpayload)⟩
  next =>
    intro s s' hs a t hok
    cases hok
    exact ⟨s', rfl, hs⟩

/-- References are linked in step, if the loads of texts are. -/
theorem linkReference {load load' : Load}
    (hload : ∀ text ∈ texts, ∀ origin,
      Action.Follows (InStep L L' texts Agree) (load text origin) (load' text origin))
    (assembly : String) {r : Reference} (hknown : Known r.name) :
    Action.Follows (InStep L L' texts Agree) (L.linkReference load assembly h r)
      (L'.linkReference load' assembly h r) := by
  intro s s' hs a t hok
  have hreferred := hs.changed_same (s.referenceAdded_changed h r.name)
    (s'.referenceAdded_changed h r.name) fun _ => rfl
  -- the way in which one linker resolves the name is open to the other one
  have hresolved := L.resolved load assembly h r s
  rw [hok] at hresolved
  cases hresolved with
  | registered d found linked =>
    have found' : s'.registry.findByName? r.name = some d := (hs.byName r.name).trans found
    have linked' : (s'.record (.referenceAdded h r.name)).isLinking d = false :=
      (hreferred.isLinking d).trans linked
    exact ⟨_, L'.linkReference_of_registered load' assembly r found' linked',
      hs.changed_same (s.join_changed h r.name d) (s'.join_changed h r.name d) fun _ => rfl⟩
  | loaded source text d u free located loaded =>
    have free' : s'.registry.findByName? r.name = none := (hs.byName r.name).trans free
    obtain ⟨htext, source', located'⟩ :=
      hp.located _ _ assembly r.name source text hs.context hknown located
    have hrefer : InStep L L' texts Agree (s.refer h r.name source text)
        (s'.refer h r.name source' text) :=
      hreferred.withContext rfl rfl rfl rfl rfl rfl hreferred.context
    obtain ⟨u', loaded', hu⟩ := hload text htext r.name _ _ hrefer d u loaded
    refine ⟨_, ?_, hu.changed_same (u.dependencyAdded_changed h d) (u'.dependencyAdded_changed h d)
      fun _ => rfl⟩
    rw [L'.linkReference_of_located load' h r free' located', Action.andThen_of_ok loaded']
    rfl

theorem references {load load' : Load}
    (hload : ∀ text ∈ texts, ∀ origin,
      Action.Follows (InStep L L' texts Agree) (load text origin) (load' text origin))
    (assembly : String) {rs : List Reference} (hknown : ∀ r ∈ rs, Known r.name) :
    Action.Follows (InStep L L' texts Agree) (Action.forEach (L.linkReference load assembly h) rs)
      (Action.forEach (L'.linkReference load' assembly h) rs) := by
  apply Action.Follows.forEach
  intro r hr
  exact hp.linkReference hload assembly (hknown r hr)

/-- Once two documents have been opened and their payloads are in the bundle, their references
    are linked and their modules built in step, if both have the same ones. -/
theorem link {depth : Nat} (hload : ∀ text ∈ texts, ∀ origin, Action.Follows
      (InStep L L' texts Agree) (L.loadWithin depth text origin) (L'.loadWithin depth text origin))
    (hstages : Stages L (L.loadWithin depth) doc s o p u v) (opens' : L'.Opens doc' s' o')
    (harvested' : AssemblyLinker.harvest doc' o' = (.ok (), p')) (hpp' : InStep L L' texts Agree p p')
    (hknown : ∀ r ∈ doc.references, Known r.name) (hhandle : s'.nextHandle = s.nextHandle)
    (hname : doc'.name = doc.name)
    (hreferences : doc'.references.map (·.name) = doc.references.map (·.name))
    (hread : doc'.modules.map ModuleDocument.read = doc.modules.map ModuleDocument.read) :
    ∃ u' v', Stages L' (L'.loadWithin depth) doc' s' o' p' u' v' ∧ InStep L L' texts Agree v v' := by
  obtain ⟨u', references', hu⟩ :=
    hp.references hload doc.name hknown p p' hpp' () u hstages.references
  obtain ⟨ds, ms, -, -, hlinked, -⟩ := hstages.linked
  obtain ⟨v', modules', hv⟩ := hu.buildModules hread hlinked rfl hstages.modules
  rw [← L'.linkReferences_congr _ _ _ hreferences, ← hname, ← hhandle] at references'
  rw [← hhandle] at modules'
  exact ⟨u', v', ⟨opens', harvested', references', modules'⟩, hv⟩

theorem leave (hdoc : DocumentAmong texts doc) (hs : InStep L L' texts Agree s s') :
    InStep L L' texts Agree (s.leave doc) (s'.leave doc) := by
  unfold Session.leave
  split
  next hexecutable =>
    exact hs.withContext rfl rfl rfl rfl rfl rfl
      (hp.cleared _ _ doc hs.context hdoc hexecutable)
  next => exact hs

/-- A document among the texts is accepted in step, if the loads of texts are. -/
theorem accept {depth : Nat} (hload : ∀ text ∈ texts, ∀ origin, Action.Follows
      (InStep L L' texts Agree) (L.loadWithin depth text origin) (L'.loadWithin depth text origin))
    (hdoc : DocumentAmong texts doc) : Action.Follows (InStep L L' texts Agree)
      (L.accept (L.loadWithin depth) doc) (L'.accept (L'.loadWithin depth) doc) := by
  intro s s' hs a t hok
  cases L.answered hok with
  | known mode found linked =>
    -- what is found under a uid that has just been drawn would not be fresh
    have huid : doc.uid ≠ "" := by
      intro huid
      rw [uidFor, if_pos huid, hs.fresh.find?_eq_none] at found
      cases found
    have found' : s'.registry.find? doc.name (L'.uidFor doc s') = some a := by
      rw [uidFor, if_neg huid] at found ⊢
      rw [hs.byUid doc.name doc.uid (hdoc.statesUid huid), found]
    exact ⟨_, accept_of_known _ (mode.trans hp.mode.symm) found' ((hs.isLinking a).trans linked),
      hs.identify doc⟩
  | linked o p u v hstages =>
    obtain ⟨o', opens', ho⟩ := hs.opens hp.mode hdoc hstages.opens
    obtain ⟨p', harvested', hp'⟩ := hp.harvest hdoc o o' ho () p hstages.harvested
    obtain ⟨u', v', hstages', hv⟩ :=
      hp.link hload hstages opens' harvested' hp' (hp.known doc hdoc) hs.nextHandle rfl rfl rfl
    refine ⟨_, ?_, (hp.leave hdoc hv).changed_same ((v.leave doc).completed_changed s.nextHandle)
      ((v'.leave doc).completed_changed s.nextHandle) fun _ => rfl⟩
    rw [hstages'.accept_eq, hs.nextHandle]

/-- Whatever one of the linkers loads, the other one loads in step. -/
theorem load (depth : Nat) : ∀ text ∈ texts, ∀ origin, Action.Follows (InStep L L' texts Agree)
    (L.loadWithin depth text origin) (L'.loadWithin depth text origin) := by
  -- on the depth, as the loads that a load makes are less deep
  induction depth with
  | zero =>
    intro text _ origin s s' _ a t hok
    cases hok
  | succ depth ih =>
    intro text htext origin
    unfold loadWithin
    cases hparse : Document.parse text origin with
    | error e =>
      intro s s' _ a t hok
      cases hok
    | ok doc => exact hp.accept ih ⟨text, htext, Document.parse_origin hparse ""⟩

end Parallel

end Linker

end AssemblyLinker
