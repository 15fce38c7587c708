import AssemblyLinker.Proofs.Document
import AssemblyLinker.Proofs.Loading.Steps
import AssemblyLinker.Proofs.Text.Payload

/-! # The bundle of an executable

    The payloads of an executable are put into the bundle before its references are
    resolved.  There is one bundle for the whole load: an executable that is met among the
    references puts its own payloads into it, and clears it when it is done.

    * **What a load does to the bundle**: it leaves it alone if it opens no executable, and
      clears it if it opens one (`Session.BundleKept`).
    * **What harvesting does**: of several payloads of one name the last one counts
      (`harvest_bundles`).

    So the payloads of an executable count up to the first of its references that leads to
    another executable, and not any longer (`payload_used_iff`).
-/

namespace AssemblyLinker

/-! ## The bundle during a load -/

namespace LoadContext

theorem bundled?_bundle (ctx : LoadContext) (name text other : String) :
    (ctx.bundle name text).bundled? other =
      if name = other then some text else ctx.bundled? other := by
  unfold bundled? bundle
  rw [List.lookup_append]
  by_cases hname : name = other
  · subst hname
    -- the old entry of the name is gone, and the new one stands at the end
    have hgone : (ctx.bundled.filter (·.1 ≠ name)).lookup name = none := by
      rw [List.lookup_eq_none_iff]
      intro p hp
      have hne := (List.mem_filter.1 hp).2
      simp only [ne_eq, decide_not, Bool.not_eq_true', decide_eq_false_iff_not] at hne
      simpa using Ne.symm hne
    rw [hgone]
    simp
  · have hkept : (ctx.bundled.filter (·.1 ≠ name)).lookup other = ctx.bundled.lookup other := by
      induction ctx.bundled with
      | nil => rfl
      | cons p rest ih =>
        obtain ⟨key, value⟩ := p
        by_cases hkey : key = name
        · subst hkey
          have hother : (other == key) = false := by simpa using Ne.symm hname
          rw [List.filter_cons_of_neg (by simp), ih, List.lookup_cons, hother]
        · rw [List.filter_cons_of_pos (by simpa using hkey), List.lookup_cons, List.lookup_cons,
            ih]
    have hother : (other == name) = false := by simpa using Ne.symm hname
    rw [hkept, if_neg hname, List.lookup_cons, hother]
    simp

@[simp] theorem bundled?_clearBundle (ctx : LoadContext) (name : String) :
    ctx.clearBundle.bundled? name = none := rfl

/-- The context after assemblies have been created: each executable among them has cleared
    the bundle. -/
def clearedBy (ctx : LoadContext) (executables : List Bool) : LoadContext :=
  if true ∈ executables then ctx.clearBundle else ctx

@[simp] theorem clearBundle_clearedBy (ctx : LoadContext) (executables : List Bool) :
    (ctx.clearedBy executables).clearBundle = ctx.clearBundle := by
  unfold clearedBy
  split <;> rfl

theorem clearedBy_append (ctx : LoadContext) (xs ys : List Bool) :
    ctx.clearedBy (xs ++ ys) = (ctx.clearedBy xs).clearedBy ys := by
  unfold clearedBy
  by_cases hxs : true ∈ xs
  · by_cases hys : true ∈ ys <;> simp [hxs, hys, clearBundle]
  · by_cases hys : true ∈ ys <;> simp [hxs, hys]

end LoadContext

namespace Session

/-- Which of the assemblies created so far are executables. -/
def executables (s : Session) : List Bool := s.store.map (·.executable)

/-- From one session to a later one the bundle has been left alone, if no executable has
    been created, and has been cleared otherwise. -/
def BundleKept (s t : Session) : Prop :=
  ∃ added, t.executables = s.executables ++ added ∧ t.context = s.context.clearedBy added

variable {s t u : Session}

theorem executables_update {f : Assembly → Assembly} {h : Handle}
    (hstore : t.store = s.store.update h f) (hf : ∀ a, (f a).executable = a.executable) :
    t.executables = s.executables := by
  unfold executables
  rw [hstore, Store.update]
  apply List.ext_getElem?
  intro i
  rw [List.getElem?_map, List.getElem?_map, List.getElem?_modify]
  cases s.store[i]? with
  | none => rfl
  | some a =>
    by_cases hi : h = i
    · simp [hi, hf]
    · simp [hi]

namespace BundleKept

theorem of_eq (hexecutables : t.executables = s.executables) (hcontext : t.context = s.context) :
    s.BundleKept t :=
  ⟨[], by rw [hexecutables, List.append_nil], hcontext⟩

theorem trans (hst : s.BundleKept t) (htu : t.BundleKept u) : s.BundleKept u := by
  obtain ⟨added, hexecutables, hcontext⟩ := hst
  obtain ⟨added', hexecutables', hcontext'⟩ := htu
  exact ⟨added ++ added', by rw [hexecutables', hexecutables, List.append_assoc],
    by rw [hcontext', hcontext, LoadContext.clearedBy_append]⟩

/-- A change of an assembly that keeps its kind keeps the bundle. -/
theorem update (h : s.BundleKept t) {f : Assembly → Assembly} {i : Handle}
    (hstore : u.store = t.store.update i f) (hcontext : u.context = t.context)
    (hf : ∀ a, (f a).executable = a.executable) : s.BundleKept u :=
  h.trans (.of_eq (executables_update hstore hf) hcontext)

theorem identify (s : Session) (doc : Document) : s.BundleKept (s.identify doc) := by
  apply of_eq
  · unfold executables
    rw [identify_store]
  · exact identify_context s doc

/-- An assembly that leaves the registry leaves the bundle alone. -/
theorem abandon (s : Session) (h : Handle) : s.BundleKept (s.record (.abandoned h)) := by
  apply of_eq
  · unfold executables
    rw [abandoned_store]
  · exact abandoned_context s h

theorem declare (s : Session) (h : Handle) (j : Json) : s.BundleKept (s.declare h j).2 := by
  unfold Session.declare
  split
  · exact .of_eq rfl rfl
  · split <;> exact .of_eq (executables_update rfl fun _ => rfl) rfl

theorem define (s : Session) (h : Handle) (j : Json) : s.BundleKept (s.define h j).2 := by
  unfold Session.define
  split
  · exact .of_eq rfl rfl
  · exact .of_eq (executables_update rfl fun _ => rfl) rfl

end BundleKept

end Session

namespace Linker

/-- What a load does to the bundle. -/
def KeepsBundle (_ : String) (s : Session) (r : Outcome Handle × Session) : Prop :=
  s.BundleKept r.2

/-- The bundle while the assembly of a document is being linked.  An executable may have put
    its payloads into it. -/
def BundleInUse (_ : String) (s : Session) (doc : Document) (t : Session) : Prop :=
  ∃ added, t.executables = s.executables ++ doc.executable :: added ∧
    t.context.clearBundle = s.context.clearBundle ∧
    (doc.executable = false → t.context = s.context.clearedBy added)

variable {L : Linker} {s t u : Session} {doc : Document} {text : String}

theorem BundleInUse.mono (h : BundleInUse text s doc t) (hkept : t.BundleKept u) :
    BundleInUse text s doc u := by
  obtain ⟨added, hexecutables, hcleared, hlibrary⟩ := h
  obtain ⟨added', hexecutables', hcontext⟩ := hkept
  refine ⟨added ++ added', by simp [hexecutables', hexecutables], ?_, fun hdoc => ?_⟩
  · rw [hcontext, LoadContext.clearBundle_clearedBy, hcleared]
  · rw [hcontext, hlibrary hdoc, LoadContext.clearedBy_append]

/-- A change of an assembly that keeps its kind keeps the bundle. -/
theorem BundleInUse.update (h : BundleInUse text s doc t) {f : Assembly → Assembly} {i : Handle}
    (hstore : u.store = t.store.update i f) (hcontext : u.context = t.context)
    (hf : ∀ a, (f a).executable = a.executable) : BundleInUse text s doc u :=
  h.mono (.of_eq (Session.executables_update hstore hf) hcontext)

/-- When the linking of a document is over, the bundle is as before or cleared. -/
theorem BundleInUse.leave (h : BundleInUse text s doc t) : s.BundleKept (t.leave doc) := by
  obtain ⟨added, hexecutables, hcleared, hlibrary⟩ := h
  refine ⟨doc.executable :: added, ?_, ?_⟩
  · unfold Session.executables
    rw [Session.leave_store]
    exact hexecutables
  · cases hdoc : doc.executable with
    | true =>
      rw [Session.leave, if_pos hdoc, LoadContext.clearedBy, if_pos List.mem_cons_self]
      exact hcleared
    | false =>
      rw [Session.leave, hdoc, if_neg Bool.false_ne_true, hlibrary hdoc]
      simp [LoadContext.clearedBy]

theorem keepsBundle : L.Contract KeepsBundle (fun text s doc _ t => BundleInUse text s doc t)
    BundleInUse where
  tooDeep _ s := .of_eq rfl rfl
  failed _ s e := .of_eq rfl rfl
  circular _ s doc := .identify s doc
  known _ _ s doc h _ _ _ _ := .identify s doc
  opens _ _ s doc t _ opens := by
    refine ⟨[], ?_, by rw [opens.context], fun _ => by rw [opens.context]; rfl⟩
    unfold Session.executables
    rw [opens.store, List.map_append]
    rfl
  bundles _ s doc t r found h hexecutable _ _ := by
    -- only an executable bundles anything, so nothing is left to show about libraries
    obtain ⟨added, hexecutables, hcleared, -⟩ := h
    refine ⟨added, hexecutables, hcleared, fun hlibrary => ?_⟩
    rw [hexecutable] at hlibrary
    cases hlibrary
  joins _ s doc done t r d h _ _ :=
    (h.update (u := t.record (.referenceAdded s.nextHandle r.name)) rfl rfl fun _ => rfl).update
      rfl rfl fun _ => rfl
  loads _ s doc done t r source found d u h _ _ loaded := by
    have hreferred : BundleInUse _ s doc (t.refer s.nextHandle r.name source found) :=
      h.update rfl rfl fun _ => rfl
    exact (hreferred.mono loaded).update rfl rfl fun _ => rfl
  declares _ s doc t j h := h.mono (.declare t s.nextHandle j)
  defines _ s doc t j h := h.mono (.define t s.nextHandle j)
  breaks _ s doc done t h := h
  breaksAtReference _ s doc done t name h := h.update rfl rfl fun _ => rfl
  breaksInLoad _ s doc done t r source found stop u h _ _ loaded := by
    have hreferred : BundleInUse _ s doc (t.refer s.nextHandle r.name source found) :=
      h.update rfl rfl fun _ => rfl
    exact hreferred.mono loaded
  completes _ s doc t _ _ _ _ h _ := h.leave.update rfl rfl fun _ => rfl
  abandons _ s doc t stop h := h.leave.trans (.abandon _ _)

/-- Resolving a reference keeps the bundle but for executables that it leads to. -/
theorem linkReference_keepsBundle (L : Linker) (depth : Nat) (assembly : String) (h : Handle)
    (r : Reference) (s : Session) :
    s.BundleKept (L.linkReference (L.loadWithin depth) assembly h r s).2 := by
  have hreferred : s.BundleKept (s.record (.referenceAdded h r.name)) :=
    .of_eq (Session.executables_update rfl fun _ => rfl) rfl
  have hload : ∀ source found, s.BundleKept
      (L.loadWithin depth found r.name (s.refer h r.name source found)).2 := by
    intro source found
    have hlocated : s.BundleKept (s.refer h r.name source found) := hreferred.trans (.of_eq rfl rfl)
    exact hlocated.trans (L.keepsBundle.holds depth found r.name _)
  have hresolved := L.resolved (L.loadWithin depth) assembly h r s
  generalize L.linkReference (L.loadWithin depth) assembly h r s = result at hresolved
  cases hresolved with
  | circular d found linking => exact hreferred
  | registered d found linked => exact hreferred.update rfl rfl fun _ => rfl
  | absent e free located => exact hreferred
  | stopped source found stop t free located loaded =>
    have hkept := hload source found
    rwa [loaded] at hkept
  | loaded source found d t free located loaded =>
    have hkept := hload source found
    rw [loaded] at hkept
    exact hkept.update rfl rfl fun _ => rfl

theorem references_keepBundle (L : Linker) (depth : Nat) (assembly : String) (h : Handle)
    (rs : List Reference) (s : Session) :
    (Action.forEach (L.linkReference (L.loadWithin depth) assembly h) rs).Ensures s
      (fun _ => s.BundleKept) s.BundleKept := by
  refine Action.Ensures.forEach (fun _ => s.BundleKept) (fun done r t _ ht => ?_) [] (.of_eq rfl rfl)
  have hstep := ht.trans (L.linkReference_keepsBundle depth assembly h r t)
  unfold Action.Ensures
  split
  next heq => rwa [heq] at hstep
  next heq => rwa [heq] at hstep

end Linker

/-! ## Harvesting -/

/-- The text that references of an executable ship for a name: of several payloads the last
    one counts. -/
def shippedAmong? (executable : String) (rs : List Reference) (name : String) : Option String :=
  (rs.reverse.find? (·.name = name)).bind fun r => (payload executable r).toOption

/-- The text that an executable ships for a name. -/
def Document.shipped? (doc : Document) (name : String) : Option String :=
  shippedAmong? doc.name doc.references name

theorem shippedAmong?_cons (executable : String) (r : Reference) (rs : List Reference)
    {text : String} (htext : payload executable r = .ok text) {name : String}
    (hall : ∀ r ∈ rs, ∃ text, payload executable r = .ok text) (older : Option String) :
    (shippedAmong? executable (r :: rs) name).or older =
      (shippedAmong? executable rs name).or (if r.name = name then some text else older) := by
  unfold shippedAmong?
  rw [List.reverse_cons, List.find?_append]
  cases hfind : rs.reverse.find? (·.name = name) with
  | some r' =>
    obtain ⟨text', htext'⟩ := hall r' (List.mem_reverse.1 (List.mem_of_find?_eq_some hfind))
    simp [htext', Except.toOption]
  | none => by_cases hname : r.name = name <;> simp [hname, htext, Except.toOption]

theorem forEach_harvestReference {executable : String} {rs : List Reference} {s t : Session}
    (h : Action.forEach (harvestReference executable) rs s = (.ok (), t)) :
    t.store = s.store ∧ (∀ r ∈ rs, ∃ text, payload executable r = .ok text) ∧
      ∀ name, t.context.bundled? name =
        (shippedAmong? executable rs name).or (s.context.bundled? name) := by
  induction rs generalizing s with
  | nil =>
    cases h
    refine ⟨rfl, ?_, fun name => rfl⟩
    intro r hr
    cases hr
  | cons r rs ih =>
    obtain ⟨_, u, hstep, hrest⟩ := Action.andThen_eq_ok h
    obtain ⟨text, htext, rfl⟩ := harvestReference_eq_ok_iff.1 hstep
    obtain ⟨hstore, hall, hbundled⟩ := ih hrest
    refine ⟨hstore, ?_, fun name => ?_⟩
    · intro r' hr'
      rcases List.mem_cons.1 hr' with rfl | hr'
      · exact ⟨text, htext⟩
      · exact hall r' hr'
    · rw [hbundled, shippedAmong?_cons executable r rs htext hall]
      show _ = (shippedAmong? executable rs name).or _
      rw [← LoadContext.bundled?_bundle]
      rfl

/-- The payloads of an executable go into the bundle, over those that are there. -/
theorem harvest_bundles {doc : Document} (hdoc : doc.executable = true) {s t : Session}
    (h : harvest doc s = (.ok (), t)) :
    t.store = s.store ∧ (∀ r ∈ doc.references, ∃ text, payload doc.name r = .ok text) ∧
      ∀ name, t.context.bundled? name = (doc.shipped? name).or (s.context.bundled? name) := by
  rw [harvest, if_pos hdoc] at h
  exact forEach_harvestReference h

/-- Harvesting changes the bundle and nothing else that a load looks at. -/
theorem harvest_eq {doc : Document} {s t : Session} (h : harvest doc s = (.ok (), t)) :
    t = { s with context := { s.context with bundled := t.context.bundled }, history := t.history } := by
  unfold harvest at h
  split at h
  · generalize doc.references = rs at h
    induction rs generalizing s with
    | nil =>
      cases h
      rfl
    | cons r rs ih =>
      obtain ⟨_, u, hstep, hrest⟩ := Action.andThen_eq_ok h
      obtain ⟨text, -, rfl⟩ := harvestReference_eq_ok_iff.1 hstep
      have hsame := ih hrest
      exact hsame
  · cases h
    rfl

/-- Where every reference has a payload that can be read, harvesting succeeds. -/
theorem forEach_harvestReference_isOk {executable : String} {rs : List Reference}
    (hall : ∀ r ∈ rs, ∃ text, payload executable r = .ok text) (s : Session) :
    ∃ t, Action.forEach (harvestReference executable) rs s = (.ok (), t) := by
  induction rs generalizing s with
  | nil => exact ⟨s, rfl⟩
  | cons r rs ih =>
    obtain ⟨text, htext⟩ := hall r List.mem_cons_self
    have hstep : harvestReference executable r s =
        (.ok (), s.record (.payloadBundled r.name text)) :=
      harvestReference_eq_ok_iff.2 ⟨text, htext, rfl⟩
    obtain ⟨t, ht⟩ := ih (fun r' hr' => hall r' (List.mem_cons_of_mem r hr'))
      (s.record (.payloadBundled r.name text))
    exact ⟨t, by rw [Action.forEach, Action.andThen_of_ok hstep, ht]⟩

theorem exists_shipped {doc : Document} {r : Reference} (hr : r ∈ doc.references)
    (hall : ∀ r ∈ doc.references, ∃ text, payload doc.name r = .ok text) :
    ∃ text, doc.shipped? r.name = some text := by
  unfold Document.shipped? shippedAmong?
  have hsome : (doc.references.reverse.find? (·.name = r.name)).isSome := by
    rw [List.find?_isSome]
    exact ⟨r, List.mem_reverse.2 hr, by simp⟩
  obtain ⟨r', hfind⟩ := Option.isSome_iff_exists.1 hsome
  obtain ⟨text, htext⟩ := hall r' (List.mem_reverse.1 (List.mem_of_find?_eq_some hfind))
  exact ⟨text, by simp [hfind, htext, Except.toOption]⟩

/-- The payload made of the text of a document is that text. -/
theorem payload_encodePayload {text origin : String} {d : Document}
    (h : Document.parse text origin = .ok d) (executable name : String) :
    payload executable ⟨name, some (Executable.encodePayload text)⟩ = .ok text := by
  unfold payload
  simp only
  rw [decodePayload_encodePayload, Document.parse_trimEnd h]
  rfl

theorem payload_render {d : Document} (hd : d.Readable) (executable name : String) :
    payload executable ⟨name, some (Executable.encodePayload d.render)⟩ = .ok d.render :=
  payload_encodePayload (Document.parse_render hd "") executable name

/-! ## The texts of references -/

namespace Linker

theorem loadWithin_render (L : Linker) {doc : Document} (hdoc : doc.Readable) (depth : Nat)
    (origin : String) : L.loadWithin (depth + 1) doc.render origin =
      L.accept (L.loadWithin depth) doc.reread := by
  rw [loadWithin, Document.parse_render hdoc]

theorem locateText_of_bundled {L : Linker} {ctx : LoadContext} {assembly name text : String}
    (hbootstrap : ctx.bootstrapDocument? name = none) (hbundled : ctx.bundled? name = some text) :
    L.locateText ctx assembly name = .ok (.bundle, text) := by
  rw [locateText, hbootstrap, hbundled]

/-- A text that comes from the bundle is bundled. -/
theorem bundled?_of_locateText {L : Linker} {ctx : LoadContext} {assembly name text : String}
    (h : L.locateText ctx assembly name = .ok (.bundle, text)) : ctx.bundled? name = some text := by
  unfold locateText at h
  split at h
  · cases h
  · split at h
    next hbundled =>
      cases h
      exact hbundled
    · split at h <;> cases h

/-- The first references of an executable, resolved one after the other, keep its payloads
    in the bundle until an executable is created. -/
theorem linkFirst_bundles {L : Linker} {depth : Nat} {doc : Document} {s t u : Session} {i : Nat}
    (hdoc : doc.executable = true) (hopens : L.Opens doc s t)
    (hlinked : L.linkFirst (L.loadWithin depth) doc s.nextHandle i t = (.ok (), u)) :
    ∃ v : Session, harvest doc t = (.ok (), v) ∧ u.context = v.context.clearedBy
      ((u.store.drop (s.nextHandle + 1)).map (·.executable)) := by
  unfold linkFirst at hlinked
  rcases hharvest : harvest doc t with ⟨stop | _, v⟩
  · rw [Action.andThen_of_error hharvest] at hlinked
    cases hlinked
  rw [Action.andThen_of_ok hharvest] at hlinked
  obtain ⟨hstore, -, -⟩ := harvest_bundles hdoc hharvest
  -- behind the harvest the loads of references only clear the bundle
  have hkept : v.BundleKept u :=
    (L.references_keepBundle depth doc.name s.nextHandle (doc.references.take i) v).of_ok hlinked
  obtain ⟨added, hexecutables, hcontext⟩ := hkept
  -- what they create stands behind the older assemblies and the one that is linked
  have hlength : v.executables.length = s.nextHandle + 1 := by
    unfold Session.executables
    rw [List.length_map, hstore, hopens.store, List.length_append]
    rfl
  have hadded : (u.store.drop (s.nextHandle + 1)).map (·.executable) = added := by
    rw [List.map_drop]
    show u.executables.drop _ = added
    rw [hexecutables, ← hlength, List.drop_left]
  exact ⟨v, rfl, by rw [hadded, hcontext]⟩

/-- While an executable is being linked, its payload is used for a reference that is not
    registered and that the bootstrap does not know, if and only if no executable has been
    created by the loads of its earlier references. -/
theorem payload_used_iff (L : Linker) (depth : Nat) (doc : Document) (s t u : Session) (i : Nat)
    (r : Reference) (hdoc : doc.executable = true) (hopens : L.Opens doc s t)
    (hlinked : L.linkFirst (L.loadWithin depth) doc s.nextHandle i t = (.ok (), u))
    (hr : doc.references[i]? = some r) (hfree : u.registry.findByName? r.name = none)
    (hbootstrap : u.context.bootstrapDocument? r.name = none) :
    ∃ text, doc.shipped? r.name = some text ∧
      (L.locateText u.context doc.name r.name = .ok (.bundle, text) ↔
        ∀ a ∈ u.store.drop (s.nextHandle + 1), a.executable = false) ∧
      ((∀ a ∈ u.store.drop (s.nextHandle + 1), a.executable = false) →
        L.linkReference (L.loadWithin depth) doc.name s.nextHandle r u =
          ((L.loadWithin depth text r.name).andThen fun d =>
            .record (.dependencyAdded s.nextHandle d))
          (u.refer s.nextHandle r.name .bundle text)) := by
  obtain ⟨v, hharvest, hcontext⟩ := linkFirst_bundles hdoc hopens hlinked
  obtain ⟨-, hall, hbundled⟩ := harvest_bundles hdoc hharvest
  obtain ⟨text, htext⟩ := exists_shipped (List.mem_of_getElem? hr) hall
  -- while no executable has been created, the context is the one after harvesting
  have hlocated : (∀ a ∈ u.store.drop (s.nextHandle + 1), a.executable = false) →
      L.locateText u.context doc.name r.name = .ok (.bundle, text) := by
    intro hlibraries
    apply locateText_of_bundled hbootstrap
    have hnone : ¬ true ∈ (u.store.drop (s.nextHandle + 1)).map (·.executable) := by
      intro hmem
      obtain ⟨a, ha, hexecutable⟩ := List.mem_map.1 hmem
      rw [hlibraries a ha] at hexecutable
      cases hexecutable
    rw [hcontext, LoadContext.clearedBy, if_neg hnone, hbundled, htext, Option.some_or]
  refine ⟨text, htext, ⟨fun hlocate a ha => ?_, hlocated⟩, fun hlibraries => ?_⟩
  · have hfound := bundled?_of_locateText hlocate
    cases hexecutable : a.executable with
    | false => rfl
    | true =>
      have hsome : true ∈ (u.store.drop (s.nextHandle + 1)).map (·.executable) :=
        List.mem_map.2 ⟨a, ha, hexecutable⟩
      rw [hcontext, LoadContext.clearedBy, if_pos hsome, LoadContext.bundled?_clearBundle] at hfound
      cases hfound
  · exact L.linkReference_of_located _ _ _ hfree (hlocated hlibraries)

/-! ### Executables among the references of an executable -/

section Shipping

/-- A document without references and modules. -/
def leaf (name : String) (executable : Bool) : Document :=
  { name, version := "1", uid := name, loomConfig := "", jit := false, executable,
    references := [], modules := [] }

/-- The reference that ships the text of a document. -/
def ship (d : Document) : Reference := ⟨d.name, some (Executable.encodePayload d.render)⟩

/-- An executable that ships an assembly, which may be an executable itself, and a library. -/
def shippingRoot (executable : Bool) : Document :=
  { leaf "Main" true with references := [ship (leaf "Tool" executable), ship (leaf "Library" false)] }

theorem readable_leaf (name : String) (executable : Bool) : (leaf name executable).Readable := by
  intro j hj
  cases hj

theorem harvestReference_ship (root : String) {d : Document} (hd : d.Readable) :
    harvestReference root (ship d) = .record (.payloadBundled d.name d.render) := by
  rw [harvestReference, ship, payload_render hd]

/-- The session in which the root has been created. -/
def rootOpened (executable : Bool) : Session :=
  ({} : Session).record (.created (newAssembly (shippingRoot executable) "Main"))

/-- The session in which the payloads of the root are in the bundle. -/
def rootHarvested (executable : Bool) : Session :=
  ((rootOpened executable).record
    (.payloadBundled "Tool" (leaf "Tool" executable).render)).record
      (.payloadBundled "Library" (leaf "Library" false).render)

theorem harvest_shippingRoot (executable : Bool) :
    harvest (shippingRoot executable) (rootOpened executable) = (.ok (), rootHarvested executable) := by
  have hreferences : harvest (shippingRoot executable) =
      .forEach (harvestReference "Main") [ship (leaf "Tool" executable), ship (leaf "Library" false)] :=
    rfl
  rw [hreferences, Action.forEach, Action.forEach, harvestReference_ship _ (readable_leaf _ _),
    harvestReference_ship _ (readable_leaf _ _)]
  rfl

/-- The session after the first reference of the root. -/
def toolLinked (depth : Nat) (executable : Bool) : Session :=
  (({} : Linker).accept (({} : Linker).loadWithin depth) (leaf "Tool" executable)
    ((rootHarvested executable).refer 0 "Tool" .bundle
      (leaf "Tool" executable).render)).2.record (.dependencyAdded 0 1)

theorem linkReference_tool (depth : Nat) (executable : Bool) :
    ({} : Linker).linkReference (({} : Linker).loadWithin (depth + 1))
      (shippingRoot executable).name 0 (ship (leaf "Tool" executable)) (rootHarvested executable) =
        (.ok (), toolLinked depth executable) := by
  have hfree : (rootHarvested executable).registry.findByName? (ship (leaf "Tool" executable)).name =
      none := by
    cases executable <;> rfl
  have hlocated : ({} : Linker).locateText (rootHarvested executable).context
      (shippingRoot executable).name (ship (leaf "Tool" executable)).name =
        .ok (.bundle, (leaf "Tool" executable).render) := rfl
  have hname : (ship (leaf "Tool" executable)).name = "Tool" := rfl
  rw [linkReference_of_located _ _ _ _ hfree hlocated, hname,
    ({} : Linker).loadWithin_render (readable_leaf "Tool" executable) depth "Tool"]
  cases executable <;> rfl

theorem linkFirst_shippingRoot (depth : Nat) (executable : Bool) :
    ({} : Linker).linkFirst (({} : Linker).loadWithin (depth + 1)) (shippingRoot executable) 0 1
      (rootOpened executable) = (.ok (), toolLinked depth executable) := by
  have htake : (shippingRoot executable).references.take 1 = [ship (leaf "Tool" executable)] := rfl
  unfold linkFirst
  rw [Action.andThen_of_ok (harvest_shippingRoot executable), htake, Action.forEach,
    Action.andThen_of_ok (linkReference_tool depth executable)]
  rfl

theorem opens_shippingRoot (executable : Bool) :
    ({} : Linker).Opens (shippingRoot executable) {} (rootOpened executable) :=
  ⟨rfl, rfl, rfl, rfl⟩

/-- Behind a library the payload is used. -/
theorem payload_used_behind_library :
    ∃ text, (shippingRoot false).shipped? "Library" = some text ∧
      ({} : Linker).locateText (toolLinked 0 false).context "Main" "Library" =
        .ok (.bundle, text) := by
  obtain ⟨text, htext, hused, -⟩ := payload_used_iff {} 1 (shippingRoot false) {}
    (rootOpened false) (toolLinked 0 false) 1 (ship (leaf "Library" false)) rfl
    (opens_shippingRoot false) (linkFirst_shippingRoot 0 false) rfl rfl rfl
  refine ⟨text, htext, hused.2 fun a ha => ?_⟩
  obtain rfl := List.mem_singleton.1 ha
  rfl

theorem linkReference_library (depth : Nat) : ∃ t, ({} : Linker).linkReference
    (({} : Linker).loadWithin (depth + 1)) (shippingRoot true).name 0 (ship (leaf "Library" false))
      (toolLinked depth true) = (.error (.failed (.unresolvedReference "Main" "Library")), t) :=
  ⟨_, rfl⟩

/-- The executable that ships another one does not find its library. -/
theorem load_shippingRoot (origin : String) :
    (({} : Linker).load (shippingRoot true).render origin {}).1 =
      .error (.failed (.unresolvedReference "Main" "Library")) := by
  have hreadable : (shippingRoot true).Readable := readable_leaf "Main" true
  obtain ⟨t, hlost⟩ := linkReference_library 3998
  have hreferences : (shippingRoot true).references =
      [ship (leaf "Tool" true), ship (leaf "Library" false)] := rfl
  have hlink : ({} : Linker).link (({} : Linker).loadWithin 3999) (shippingRoot true) 0
      (rootOpened true) = (.error (.failed (.unresolvedReference "Main" "Library")), t) := by
    unfold link
    rw [Action.andThen_of_ok (harvest_shippingRoot true), hreferences, Action.forEach,
      Action.forEach]
    apply Action.andThen_of_error
    rw [Action.andThen_of_ok (linkReference_tool 3998 true), Action.andThen_of_error hlost]
  have hload : ({} : Linker).load (shippingRoot true).render origin =
      ({} : Linker).accept (({} : Linker).loadWithin 3999) (shippingRoot true) :=
    ({} : Linker).loadWithin_render hreadable 3999 origin
  have haccept := accept_of_opens (({} : Linker).loadWithin 3999) (opens_shippingRoot true)
  rw [hload, haccept, show ({} : Session).nextHandle = 0 from rfl, hlink]
  rfl

/-- Behind another executable a payload is lost: the library that is shipped is not found. -/
theorem payload_lost_behind_executable :
    (shippingRoot true).executable = true ∧
    (∃ text, (shippingRoot true).shipped? "Library" = some text) ∧
    (({} : Linker).load (shippingRoot true).render "" {}).1 =
      .error (.failed (.unresolvedReference "Main" "Library")) := by
  have hlibrary : ship (leaf "Library" false) ∈ (shippingRoot true).references :=
    List.mem_cons_of_mem _ List.mem_cons_self
  have hexecutable : (shippingRoot true).executable = true := rfl
  obtain ⟨-, hall, -⟩ := harvest_bundles hexecutable (harvest_shippingRoot true)
  have hshipped := exists_shipped hlibrary hall
  exact ⟨hexecutable, hshipped, load_shippingRoot ""⟩

end Shipping

end Linker

end AssemblyLinker
