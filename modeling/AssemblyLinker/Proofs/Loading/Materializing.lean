import AssemblyLinker.Proofs.Loading.Course
import AssemblyLinker.Proofs.Loading.Sharing

/-! # Loads make what their texts say

    Every load that succeeds takes a course (`Linker.exists_takes`): its history, the registry,
    the store, and the number of uids drawn are those that the course tells.  So what holds of all
    courses holds of all such loads, and `load_materializes` puts this together.

    The uids have to be fresh, for only then is a document without a uid always opened.
-/

namespace AssemblyLinker

/-! ## Replayed sessions -/

namespace Session

/-- Whether an assembly is being linked does not depend on a reference that is added. -/
theorem referenceAdded_isLinking (s : Session) (h d : Handle) (name : String) :
    (s.record (.referenceAdded h name)).isLinking d = s.isLinking d := by
  have hchanged := s.referenceAdded_changed h name
  unfold isLinking
  by_cases hd : d = h
  · subst hd
    rw [hchanged.store, Store.get?_update_self, Option.any_map]
    rfl
  · rw [hchanged.get?_ne hd]

theorem leave_eq_replay (s : Session) (doc : Document) :
    s.leave doc = s.replay (if doc.executable then [.bundleCleared] else []) := by
  unfold leave
  split <;> rfl

end Session

namespace Linker

variable {L : Linker} {doc : Document} {s t u : Session} {h : Handle} {a : Assembly}

/-- What is harvested are the payloads of all references, in order. -/
theorem harvest_eq_replay (hok : harvest doc s = (.ok (), t)) :
    t = s.replay (Event.harvest doc) := by
  unfold harvest at hok
  unfold Event.harvest
  split at hok
  next hexecutable =>
    rw [if_pos hexecutable]
    generalize doc.references = rs at hok
    induction rs generalizing s with
    | nil =>
      cases hok
      rfl
    | cons r rs ih =>
      obtain ⟨_, u, hstep, hrest⟩ := Action.andThen_eq_ok hok
      obtain ⟨text, htext, rfl⟩ := harvestReference_eq_ok_iff.1 hstep
      rw [List.filterMap_cons, htext]
      exact ih hrest
  next hlibrary =>
    rw [if_neg hlibrary]
    cases hok
    rfl

/-- A pass over values records one call for each of them. -/
theorem pass_eq_replay (step : Session → Json → Except LinkError Unit × Session)
    (call : List ModuleInfo → Event)
    (hcall : ∀ (s : Session) (j : Json) (a : Assembly), s.store.get? h = some a →
      ∃ modules, (step s j).2 = s.record (call modules))
    (hchanged : ∀ (s : Session) modules, s.Rebuilt h modules (s.record (call modules)))
    (js : List Json) : ∀ {s : Session} {a : Assembly}, s.store.get? h = some a →
      Action.forEach (fun j => .ofStep (step · j)) js s = (.ok (), t) →
      ∃ (called : List (List ModuleInfo)) (b : Assembly), called.length = js.length ∧
        t = s.replay (called.map call) ∧ t.store.get? h = some b := by
  induction js with
  | nil =>
    intro s a ha hok
    cases hok
    exact ⟨[], a, rfl, rfl, ha⟩
  | cons j js ih =>
    intro s a ha hok
    obtain ⟨_, u, hstep, hrest⟩ := Action.andThen_eq_ok hok
    obtain ⟨modules, hrecord⟩ := hcall s j a ha
    obtain rfl : s.record (call modules) = u := hrecord.symm.trans (congrArg Prod.snd hstep)
    obtain ⟨called, b, hlength, hreplay, hb⟩ := ih ((hchanged s modules).get? ha) hrest
    exact ⟨modules :: called, b, congrArg Nat.succ hlength, hreplay, hb⟩

/-- Modules are built by both passes over all of their documents. -/
theorem buildModules_eq_replay {js : List Json} (ha : s.store.get? h = some a)
    (hok : buildModules h js s = (.ok (), t)) :
    ∃ declared defined, declared.length = js.length ∧ defined.length = js.length ∧
      t = s.replay (Event.passes h declared defined) := by
  obtain ⟨_, u, hdeclare, hdefine⟩ := Action.andThen_eq_ok hok
  obtain ⟨declared, b, hdeclared, hreplay, hb⟩ :=
    pass_eq_replay (fun s j => s.declare h j) (.declareCalled h)
      (fun _ j _ ha => Session.declare_records ha j) (fun s => s.declareCalled_changed h) js ha
      hdeclare
  obtain ⟨defined, -, hdefined, hreplay', -⟩ :=
    pass_eq_replay (fun s j => s.define h j) (.defineCalled h)
      (fun _ j _ ha => Session.define_records ha j) (fun s => s.defineCalled_changed h) js hb
      hdefine
  refine ⟨declared, defined, hdeclared, hdefined, ?_⟩
  rw [Event.passes, Session.replay_append, ← hreplay, ← hreplay']

end Linker

/-! ## Stores -/

namespace Store

/-- A change of an assembly that is there leaves more assemblies alone. -/
theorem update_append (store added : Store) {h : Nat} (hh : h < store.length)
    (f : Assembly → Assembly) : (store ++ added).update h f = store.update h f ++ added := by
  unfold update
  induction store generalizing h with
  | nil => exact absurd hh (Nat.not_lt_zero h)
  | cons a store ih =>
    cases h with
    | zero => rfl
    | succ h => exact congrArg (a :: ·) (ih (Nat.lt_of_succ_lt_succ hh))

theorem update_middle (store added : Store) (a : Assembly) (f : Assembly → Assembly) :
    (store ++ [a] ++ added).update store.length f = store ++ [f a] ++ added := by
  have hlt : store.length < (store ++ [a]).length := by simp
  rw [update_append _ _ hlt, update_concat]

theorem update_update (store : Store) (h : Handle) (f g : Assembly → Assembly) :
    (store.update h f).update h g = store.update h (g ∘ f) :=
  List.modify_modify_eq f g h store

end Store

/-! ## Courses of sessions -/

/-- What a stretch of a load does to the assemblies that are there: references are added to the
    one that they belong to. -/
def Stretch.link : Stretch → Store → Store
  | .load .., store => store
  | .references owner names ds, store => store.update owner (Assembly.addLinks names ds)

theorem Assembly.addLinks_cons (name : String) (d : Handle) (names : List String)
    (ds : List Handle) :
    addLinks names ds ∘ addLinks [name] [d] = addLinks (name :: names) (d :: ds) :=
  funext fun a => a.addLinks_addLinks [name] names [d] ds

namespace Linker

/-- From one session to another a load takes a course, and store and registry come to have what it
    makes. -/
structure Takes (L : Linker) (stretch : Stretch) (s t : Session) (made : List Made)
    (events : List Event) : Prop where
  course : Course L stretch s made events
  reaches : t = s.replay events
  entries : t.registry.entries = s.registry.entries ++ Made.entries s.nextHandle made
  store : t.store = stretch.link s.store ++ made.map (·.assembly)

variable {L : Linker} {doc : Document} {s t u : Session} {owner d h : Handle}
  {assembly name text origin : String} {names : List String} {ds : List Handle}
  {made made' : List Made} {events events' : List Event}

theorem takes_known (hparse : Document.parse text origin = .ok doc) (hmode : doc.mode = L.mode)
    (huid : doc.uid ≠ "") (hfound : s.registry.find? doc.name doc.uid = some h)
    (hlinked : s.Linked h) : L.Takes (.load text h) s s [] [] where
  course := .known (Document.parse_origin hparse "") hmode huid hfound hlinked
  reaches := rfl
  entries := (List.append_nil _).symm
  store := (List.append_nil _).symm

theorem takes_done : L.Takes (.references owner [] []) s s [] [] where
  course := .done
  reaches := rfl
  entries := (List.append_nil _).symm
  store := by
    have hsame : Assembly.addLinks [] [] = id := funext Assembly.addLinks_nil
    show s.store = s.store.update owner (Assembly.addLinks [] []) ++ []
    rw [hsame, List.append_nil]
    exact (List.modify_id owner s.store).symm

theorem Takes.joined (hfound : s.registry.findByName? name = some d) (hlinked : s.Linked d)
    (hrefs : L.Takes (.references owner names ds) (s.join owner name d) t made events) :
    L.Takes (.references owner (name :: names) (d :: ds)) s t made
      (Event.joining owner name d ++ events) := by
  have hjoin := s.join_changed owner name d
  obtain ⟨hcourse, hreaches, hentries, hstore⟩ := hrefs
  rw [hjoin.nextHandle, hjoin.registry] at hentries
  refine ⟨.joined hfound hlinked hcourse, hreaches, hentries, ?_⟩
  rw [hstore, Stretch.link, Stretch.link, hjoin.store, Store.update_update, Assembly.addLinks_cons]

theorem Takes.loaded {source : TextSource} (howner : owner < s.store.length)
    (hfree : s.registry.findByName? name = none)
    (hlocated : L.locateText s.context assembly name = .ok (source, text))
    (hload : L.Takes (.load text d) (s.refer owner name source text) u made events)
    (hrefs : L.Takes (.references owner names ds) (u.record (.dependencyAdded owner d)) t made'
      events') :
    L.Takes (.references owner (name :: names) (d :: ds)) s t (made ++ made')
      (Event.referring owner name source text ++ events ++ [.dependencyAdded owner d] ++
        events') := by
  have hrefer := s.refer_changed owner name source text
  obtain ⟨hcourse, hreaches, hentries, hstore⟩ := hload
  obtain ⟨hcourse', hreaches', hentries', hstore'⟩ := hrefs
  rw [hrefer.nextHandle, hrefer.registry] at hentries
  -- the owner gets its link, and what the load has made stands behind all older assemblies
  have hadded : (u.record (.dependencyAdded owner d)).store =
      s.store.update owner (Assembly.addLinks [name] [d]) ++ made.map (·.assembly) := by
    have hlt : owner < (s.store.update owner (·.addReference name)).length := by
      rwa [Store.length_update]
    show u.store.update owner (·.addDependency d) = _
    rw [hstore, Stretch.link, hrefer.store, Store.update_append _ _ hlt, Store.update_update]
    rfl
  have hnext : (u.record (.dependencyAdded owner d)).nextHandle = s.nextHandle + made.length := by
    unfold Session.nextHandle
    rw [hadded, List.length_append, Store.length_update, List.length_map]
  have hbetween : u.record (.dependencyAdded owner d) = s.replay
      (Event.referring owner name source text ++ events ++ [.dependencyAdded owner d]) := by
    rw [Session.replay_append, Session.replay_append, hreaches]
    rfl
  rw [hnext] at hentries'
  rw [hbetween] at hcourse' hreaches'
  refine ⟨.loaded hfree hlocated hcourse hcourse', ?_, ?_, ?_⟩
  · rw [Session.replay_append, hreaches']
  · rw [hentries', Made.entries_append, ← List.append_assoc, ← hentries]
    rfl
  · have hlt : owner < (s.store.update owner (Assembly.addLinks [name] [d])).length := by
      rwa [Store.length_update]
    rw [hstore', Stretch.link, Stretch.link, hadded, Store.update_append _ _ hlt,
      Store.update_update, Assembly.addLinks_cons, List.map_append, List.append_assoc]

theorem Takes.opened {load : Load} {o p v : Session}
    (hparse : Document.parse text origin = .ok doc) (hstages : Stages L load doc s o p u v)
    (hrefs : L.Takes (.references s.nextHandle (doc.references.map (·.name)) ds) p u made
      events) :
    ∃ made events, L.Takes (.load text s.nextHandle) s
      ((v.leave doc).record (.completed s.nextHandle)) made events := by
  have hopens := hstages.opens
  have hp := harvest_eq hstages.harvested
  obtain ⟨hcourse, hreaches, hentries, hstore⟩ := hrefs
  have hpstore : p.store = s.store ++ [newAssembly doc (L.uidFor doc s)] := by
    rw [hp, hopens.store]
  have hpentries : p.registry.entries =
      s.registry.entries ++ [⟨doc.name, L.uidFor doc s, s.nextHandle⟩] := by
    rw [hp]
    exact hopens.entries
  have hpnext : p.nextHandle = s.nextHandle + 1 := by
    unfold Session.nextHandle
    rw [hpstore, List.length_append]
    rfl
  rw [hpnext] at hentries
  -- the assembly stands between those from before and those that its references have brought
  have hustore : u.store = s.store ++ [Assembly.addLinks (doc.references.map (·.name)) ds
      (newAssembly doc (L.uidFor doc s))] ++ made.map (·.assembly) := by
    rw [hstore, Stretch.link, hpstore]
    exact congrArg (· ++ _) (Store.update_concat _ _ _)
  have hown : u.store.get? s.nextHandle = some (Assembly.addLinks (doc.references.map (·.name)) ds
      (newAssembly doc (L.uidFor doc s))) := by
    rw [hustore]
    exact Store.get?_of_prefix (List.prefix_append _ _) List.getElem?_concat_length
  obtain ⟨ms, hbuildable, hrebuilt⟩ := buildable_of_buildModules hown rfl hstages.modules
  obtain ⟨declared, defined, hdeclared, hdefined, hpasses⟩ :=
    buildModules_eq_replay hown hstages.modules
  have hcompleted := (v.leave doc).completed_changed s.nextHandle
  have hharvested := harvest_eq_replay hstages.harvested
  rw [hharvested] at hcourse
  refine ⟨_, _, .opened (Document.parse_origin hparse "") hopens hbuildable.read hcourse hdeclared
    hdefined, ?_, ?_, ?_⟩
  · rw [Session.replay_append, Session.replay_append, Session.replay_append, Session.replay_append,
      ← hopens.eq_replay, ← hharvested, ← hreaches, ← hpasses, Event.closing, Session.replay_append,
      ← Session.leave_eq_replay]
    rfl
  · rw [hcompleted.registry, Session.leave_registry, hrebuilt.registry, hentries, hpentries,
      Made.entries_cons, List.append_assoc]
    rfl
  · rw [hcompleted.store, Session.leave_store, hrebuilt.store, hustore]
    show ((s.store ++ [_] ++ _).update s.store.length _).update s.store.length _ = _
    rw [Store.update_middle, Store.update_middle, List.append_assoc]
    rfl

/-! ## Every load takes a course -/

section Loads

variable {texts : List String} {start : Session} (hsupplies : L.Supplies texts)
include hsupplies

/-- References that have been linked have taken a course, if all loads of the texts do. -/
theorem exists_takes_references {depth : Nat}
    (hload : ∀ text origin s h t, text ∈ texts → s.Sound → L.Run texts start s →
      L.loadWithin depth text origin s = (.ok h, t) →
      ∃ made events, L.Takes (.load text h) s t made events)
    (rs : List Reference) : ∀ {s : Session}, s.Sound → L.Run texts start s →
      owner < s.store.length →
      Action.forEach (L.linkReference (L.loadWithin depth) assembly owner) rs s = (.ok (), t) →
      ∃ ds made events, L.Takes (.references owner (rs.map (·.name)) ds) s t made events := by
  induction rs with
  | nil =>
    intro s _ _ _ hok
    cases hok
    exact ⟨[], [], [], takes_done⟩
  | cons r rs ih =>
    intro s hs hrun howner hok
    obtain ⟨_, u, hstep, hrest⟩ := Action.andThen_eq_ok hok
    have hresolved := L.resolved (L.loadWithin depth) assembly owner r s
    rw [hstep] at hresolved
    cases hresolved with
    | registered d found linked =>
      have hjoin := s.join_changed owner r.name d
      have howner' : owner < (s.join owner r.name d).store.length := by
        rwa [hjoin.store, Store.length_update]
      have hsound : (s.join owner r.name d).Sound :=
        hs.update hjoin.store hjoin.registry (fun _ => rfl) (fun _ => rfl)
      rw [Session.referenceAdded_isLinking] at linked
      have hprovides := hs.provides (Registry.mem_handles_of_findByName? found) linked
      obtain ⟨ds, made, events, hrefs⟩ :=
        ih hsound (hrun.congr hjoin.context hjoin.uidsDrawn hjoin.registry) howner' hrest
      exact ⟨_, _, _, hrefs.joined found hprovides.linked⟩
    | loaded source text d v free located loaded =>
      have hrefer := s.refer_changed owner r.name source text
      have hsound : (s.refer owner r.name source text).Sound :=
        hs.update hrefer.store hrefer.registry (fun _ => rfl) (fun _ => rfl)
      have hrun' := hrun.congr hrefer.context hrefer.uidsDrawn hrefer.registry
      have htext : text ∈ texts := hrun.located hsupplies located
      obtain ⟨made, events, htakes⟩ := hload text r.name _ d v htext hsound hrun' loaded
      -- the nested load keeps to the texts, and registry and store fit together behind it
      have hnested := (L.registersLinked.both (runs hsupplies start)).of_load loaded
      have hvsound : v.Sound := (hnested.1 hsound).1.sound
      have hadded := v.dependencyAdded_changed owner d
      -- the owner is still there when it is over
      have howner' : owner < (v.record (.dependencyAdded owner d)).store.length := by
        rw [hadded.store, Store.length_update, htakes.store, List.length_append, Stretch.link,
          hrefer.store, Store.length_update]
        exact Nat.lt_add_right _ howner
      obtain ⟨ds, made', events', hrefs⟩ :=
        ih (hvsound.update hadded.store hadded.registry (fun _ => rfl) (fun _ => rfl))
          ((hnested.2 htext hrun').congr rfl rfl rfl) howner' hrest
      exact ⟨_, _, _, htakes.loaded howner free located hrefs⟩

/-- Where uids are fresh, every load that succeeds takes a course. -/
theorem exists_takes (hfresh : L.FreshUids texts start) (depth : Nat) :
    ∀ text origin s h t, text ∈ texts → s.Sound → L.Run texts start s →
      L.loadWithin depth text origin s = (.ok h, t) →
      ∃ made events, L.Takes (.load text h) s t made events := by
  induction depth with
  | zero =>
    intro text origin s h t _ _ _ hok
    cases hok
  | succ depth ih =>
    intro text origin s h t htext hs hrun hok
    rw [loadWithin] at hok
    cases hparse : Document.parse text origin with
    | error e =>
      rw [hparse] at hok
      cases hok
    | ok doc =>
      rw [hparse] at hok
      cases L.answered hok with
      | known mode found linked =>
        -- a uid that is drawn would not be registered yet
        have huid : doc.uid ≠ "" := by
          intro huid
          have hentry := Registry.mem_of_find? found
          rw [uidFor, if_pos huid] at hentry
          exact hrun.next_free hfresh _ hentry rfl
        have hsame : s.identify doc = s := if_neg huid
        have hprovides := hs.provides (Registry.mem_handles_of_find? found) linked
        rw [uidFor, if_neg huid] at found
        rw [hsame]
        exact ⟨[], [], takes_known hparse mode huid found hprovides.linked⟩
      | linked o p u v hstages =>
        have hcontract := L.registersLinked.both (runs hsupplies start)
        have hharvested := (hcontract.harvest (hcontract.breaks text s doc [])
          (hcontract.opens text origin s doc o hparse hstages.opens)).of_ok hstages.harvested
        have howner : s.nextHandle < p.store.length := by
          rw [harvest_eq hstages.harvested, hstages.opens.store, List.length_append]
          exact Nat.lt_succ_self _
        obtain ⟨ds, made, events, hrefs⟩ := exists_takes_references hsupplies ih doc.references
          (hharvested.1 hs).1.1.sound (hharvested.2 htext hrun).1 howner hstages.references
        exact Takes.opened hparse hstages hrefs

end Loads

end Linker

/-! ## What a load comes to -/

/-- New assemblies are found under handles that count up behind the older ones. -/
theorem Made.filterMap_entries (made : List Made) : ∀ store : Store,
    ((Made.entries store.length made).map (·.handle)).filterMap
      (store ++ made.map (·.assembly)).get? = made.map (·.assembly) := by
  induction made with
  | nil => exact fun store => rfl
  | cons m made ih =>
    intro store
    have hfirst : (store ++ m.assembly :: made.map (·.assembly)).get? store.length =
        some m.assembly := by
      simp [Store.get?]
    have hrest := ih (store ++ [m.assembly])
    rw [List.length_append, List.append_assoc] at hrest
    rw [Made.entries_cons, List.map_cons, List.map_cons, List.filterMap_cons, hfirst]
    exact congrArg (m.assembly :: ·) hrest

/-- The registered assemblies are the older ones and the new ones behind them. -/
theorem Session.Sound.registered_append {s t : Session} {made : List Made} (hs : s.Sound)
    (hentries : t.registry.entries = s.registry.entries ++ Made.entries s.nextHandle made)
    (hstore : t.store = s.store ++ made.map (·.assembly)) :
    t.registered = s.registered ++ made.map (·.assembly) := by
  unfold Session.registered Registry.handles
  rw [hentries, hstore, List.map_append, List.filterMap_append]
  -- older handles stand for what they stood for, and the new ones count up
  congr 1
  · apply List.filterMap_congr
    intro i hi
    exact List.getElem?_append_left (hs.lt_nextHandle hi)
  · exact Made.filterMap_entries made s.store

/-- Let a load succeed where registry and store fit together, as they do after any series of
    loads, and let its uids be fresh.  Then there are assemblies and events that make up its
    course: the text is answered with what is registered under its name and uid, if there is such
    an assembly, or else an assembly comes first that is made from its document, and behind it come
    those that its references bring, in order.

    * The session in which the load ends is what the events of the course come to.
    * The registry has entries for these assemblies behind the older ones, in this order, and so
      has the store; the new events are those of the course.
    * Each assembly is what its document says; it has the uid that this states, or the next one of
      the stream, and so many uids have been drawn.
    * All modules of an assembly are declared, and then they are defined, in one go and once.  When
      this begins, whatever it depends on was linked before the load or has been completed.
    * So there are as many calls of each pass as the assemblies have modules. -/
theorem load_materializes (r : LoadRequest) {s t : Session} {h : Handle} (hs : s.Sound)
    (hfresh : r.linker.FreshUids r.texts (r.start s)) (hok : r.run s = (.ok h, t)) :
    ∃ made events, Course r.linker (.load r.text h) (r.start s) made events ∧
      t = (r.start s).replay events ∧
      t.history = events.reverse ++ s.history ∧
      t.registry.entries = s.registry.entries ++ made.mapIdx
        (fun i m => ⟨m.assembly.name, m.assembly.uid, s.nextHandle + i⟩) ∧
      t.store = s.store ++ made.map (·.assembly) ∧
      t.registered = s.registered ++ made.map (·.assembly) ∧
      t.uidsDrawn = s.uidsDrawn + Made.draws made ∧
      (∀ i m, made[i]? = some m → m.assembly.Realizes m.document ∧
        m.assembly.uid = (if m.document.uid = "" then
          r.linker.uids (s.uidsDrawn + Made.draws (made.take i)) else m.document.uid) ∧
        ∃ before, Event.BuildsOnce (s.nextHandle + i) m.assembly.modules.length before events ∧
          ∀ d ∈ m.assembly.dependencies, s.Linked d ∨ .completed d ∈ before) ∧
      t.declareCalls = s.declareCalls + (made.map (·.assembly.modules.length)).sum ∧
      t.defineCalls = s.defineCalls + (made.map (·.assembly.modules.length)).sum := by
  have hwithin := r.within_of_sound hs
  obtain ⟨made, events, htakes⟩ := Linker.exists_takes r.supplies_texts hfresh
    r.linker.maxDepth r.text r.origin (r.start s) h t hwithin.text hwithin.sound hwithin.run hok
  obtain ⟨hcourse, hreaches, hentries, hstore⟩ := htakes
  have hhistory : t.history = events.reverse ++ s.history := by
    rw [hreaches, Session.history_replay]
    rfl
  have hdrawn : t.uidsDrawn = s.uidsDrawn + Made.draws made := by
    rw [hreaches, hcourse.uidsDrawn_eq]
    rfl
  -- the events of the course are those that the load leads on by
  have hleads : (r.start s).Leads events t := by
    have hrunLeads := LoadRequest.run_leads (r := r) hs
    rw [hok] at hrunLeads
    have hsame : events = (r.start s).eventsSince t :=
      List.reverse_injective (List.append_cancel_right (hhistory.symm.trans hrunLeads.history_eq))
    rwa [← hsame] at hrunLeads
  refine ⟨made, events, hcourse, hreaches, hhistory, hentries, hstore,
    hs.registered_append hentries hstore, hdrawn, fun i m hm => ?_, ?_, ?_⟩
  · obtain ⟨before, hbuilds, hadded⟩ := hcourse.buildsOnce i m hm
    refine ⟨hcourse.realizes m (List.mem_of_getElem? hm), hcourse.uid_eq i m hm, before, hbuilds,
      fun d hd => ?_⟩
    obtain ⟨declared, defined, after, rfl, -⟩ := hbuilds
    rw [List.append_assoc] at hleads
    exact hleads.linked_before (hadded d hd)
  · rw [Session.declareCalls, hhistory, List.countP_append, List.countP_reverse,
      hcourse.countP_eq Event.isDeclareCall_countedBy, Nat.add_comm]
    rfl
  · rw [Session.defineCalls, hhistory, List.countP_append, List.countP_reverse,
      hcourse.countP_eq Event.isDefineCall_countedBy, Nat.add_comm]
    rfl

/-- The program that refers to a library twice comes before the library, which is made once. -/
theorem base_materialized :
    ({} : Session).Sound ∧
    (twiceRequest "Base").linker.FreshUids (twiceRequest "Base").texts
      ((twiceRequest "Base").start {}) ∧
    (twiceRequest "Base").run {} = (.ok 0, baseShared) ∧
    ∃ made, Course (twiceRequest "Base").linker (.load (twiceRequest "Base").text 0)
        ((twiceRequest "Base").start {}) made baseShared.history.reverse ∧
      made.map (·.assembly) = baseShared.registered ∧ made.length = 2 := by
  have hsound : ({} : Session).Sound := ⟨List.nodup_nil, fun e he => by cases he⟩
  have hfresh : (twiceRequest "Base").linker.FreshUids (twiceRequest "Base").texts
      ((twiceRequest "Base").start {}) := freshUids_bareRequest _ _ _
  refine ⟨hsound, hfresh, run_baseShared, ?_⟩
  obtain ⟨made, events, hcourse, -, hhistory, -, hstore, hregistered, -⟩ :=
    load_materializes (twiceRequest "Base") hsound hfresh run_baseShared
  have hevents : events = baseShared.history.reverse := by
    rw [hhistory]
    simp
  have hlength : made.length = 2 := by
    have hcount := congrArg List.length hstore
    rw [List.length_append, List.length_map] at hcount
    exact (Nat.zero_add _).symm.trans hcount.symm
  exact ⟨made, hevents ▸ hcourse, hregistered.symm, hlength⟩

end AssemblyLinker
