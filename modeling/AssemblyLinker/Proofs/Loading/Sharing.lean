import AssemblyLinker.Proofs.Loading.Accounts
import AssemblyLinker.Proofs.Loading.Recursion

/-! # Which references share an assembly

    A reference is resolved by the name that it states, and an assembly goes by the name that
    its document declares, and by its uid.  The two meet in the registry only, so two
    references of one name share an assembly

    * if the assembly goes by that name: then it is the first one registered under it;
    * if texts have been found for both whose documents state one name and one uid.

    Where the documents found state no uid, each text that is found makes another assembly.
    `shared_instance_iff` says that this is the whole story for a load that succeeds on an empty
    registry, and `alias_loaded_twice` is a library that is loaded twice under one name.
-/

namespace AssemblyLinker

namespace Linker

open Session

variable {L : Linker} {texts : List String} {start s t u : Session} {doc : Document} {d : Handle}
  {name text : String}

/-! ## Which assembly is the answer -/

/-- An answer that goes by a name which was not registered before is the first of that name. -/
theorem Answers.findByName? (hs : s.Sound) (ht : L.Advances s t) (h : Answers s (.ok d, t))
    (hfree : s.registry.findByName? name = none) (hname : t.GoesBy d name) :
    t.registry.findByName? name = some d := by
  obtain ⟨b, hb, rfl⟩ := hname
  obtain ⟨-, hold | ⟨-, hnext⟩⟩ := h
  · -- an older assembly does not go by the name
    obtain ⟨e, he, rfl⟩ := mem_handles.1 hold
    obtain ⟨a, ha, hname, -⟩ := hs.stored e he
    obtain rfl : a = b := Option.some.inj ((Store.get?_of_prefix ht.store ha).symm.trans hb)
    exact absurd hname.symm (Registry.findByName?_eq_none.1 hfree e he)
  · -- a new one is the answer as the first new entry
    obtain ⟨e, he, rfl⟩ := Option.map_eq_some_iff.1 hnext
    obtain ⟨a, ha, hname, -⟩ := ht.sound.stored e (List.mem_of_getElem? he)
    obtain rfl : a = b := Option.some.inj (ha.symm.trans hb)
    obtain ⟨added, hentries, -⟩ := ht.entries
    rw [hentries, List.getElem?_append_right (Nat.le_refl _), Nat.sub_self] at he
    cases added with
    | nil => cases he
    | cons first rest =>
      obtain rfl : first = e := Option.some.inj he
      rw [hname] at hfree ⊢
      exact Registry.findByName?_of_free hentries hfree

/-! ## Loads account for their links -/

/-- A session in which a text at hand is about to be loaded. -/
structure Begins (L : Linker) (texts : List String) (start : Session) (text : String)
    (s : Session) : Prop where
  sound : s.Sound
  ordered : s.Ordered
  logged : s.Logged
  text : text ∈ texts
  run : L.Run texts start s
  accounted : s.Accounted texts

/-- A session in which the assembly of a document is being linked that was opened in an earlier
    one. -/
structure Midway (L : Linker) (texts : List String) (start s : Session) (doc : Document)
    (t : Session) : Prop where
  frame : L.Frame s doc t
  balanced : Balanced s t
  ordered : t.Ordered
  logged : t.Logged
  run : L.Run texts start t
  accounted : t.Accounted texts

/-- What a load that yields a handle accounts for: all links, and that the handle stands for the
    assembly of the document, which nothing is linked to yet if the document states no uid. -/
structure Accounts (texts : List String) (text : String) (d : Handle) (t : Session) : Prop where
  accounted : t.Accounted texts
  stands : ∃ doc, Document.parse text "" = .ok doc ∧ t.StandsFor texts d doc ∧
    (doc.uid = "" → ∀ h i name, ¬ t.LinkedAt h i name d)

/-- A reference that is added is the next one to be linked. -/
theorem getElem?_addReference {a : Assembly}
    (hbalanced : a.dependencies.length = a.references.length) (name : String) :
    (a.addReference name).references[(a.addReference name).dependencies.length]? = some name := by
  show (a.references ++ [name])[a.dependencies.length]? = some name
  rw [hbalanced]
  exact List.getElem?_concat_length

namespace Midway

variable {assembly : String} {source : TextSource}

theorem own (h : L.Midway texts start s doc t) :
    ∃ a, t.store.get? s.nextHandle = some a ∧ a.dependencies.length = a.references.length := by
  obtain ⟨a, ha, -⟩ := h.frame.own
  exact ⟨a, ha, h.balanced a ha⟩

/-- A reference may be linked to what is registered under its name. -/
theorem join (h : L.Midway texts start s doc t) (hfound : t.registry.findByName? name = some d) :
    (t.join s.nextHandle name d).Accounted texts := by
  obtain ⟨a, ha, hbalanced⟩ := h.own
  -- its text has not been looked for
  have hnone : ∀ text, ¬ (t.record (.referenceAdded s.nextHandle name)).FoundAt s.nextHandle
      a.dependencies.length text := by
    intro text htext
    rw [foundAt_record rfl, hbalanced] at htext
    exact h.logged.not_foundAt ha htext
  have hgoes : t.GoesBy d name := by
    obtain ⟨e, he, rfl, rfl⟩ := Registry.mem_of_findByName? hfound
    exact goesBy_of_entry h.frame.sound he
  have hgoes' : (t.record (.referenceAdded s.nextHandle name)).GoesBy d name :=
    ((t.referenceAdded_changed s.nextHandle name).goesBy_iff fun _ => rfl).2 hgoes
  exact (h.accounted.referenceAdded ha hbalanced name).dependencyAdded
    ((t.referenceAdded_changed s.nextHandle name).get? ha) (getElem?_addReference hbalanced name)
    (fun _ => hfound) (fun hother => absurd hgoes' hother)
    (fun text htext => absurd htext (hnone text))
    fun text _ _ _ _ _ _ htext => absurd htext (hnone text)

/-- A load of a text that is found may begin. -/
theorem begins (h : L.Midway texts start s doc t) (hsupplies : L.Supplies texts)
    (hlocated : L.locateText t.context assembly name = .ok (source, text)) :
    L.Begins texts start text (t.refer s.nextHandle name source text) := by
  obtain ⟨a, ha, hbalanced⟩ := h.own
  have hframe := h.frame.refer name source text
  have hreferred := h.frame.leadsTo_refer (.refl t) name source text
  exact ⟨hframe.sound, lasting_ordered.leadsTo hreferred h.ordered, hreferred.logged h.logged,
    h.run.located hsupplies hlocated, h.run.congr rfl rfl rfl,
    h.accounted.refer h.logged ha hbalanced name source text⟩

/-- A reference may be linked to what the load of its text yields. -/
theorem loaded (h : L.Midway texts start s doc t) (hfree : t.registry.findByName? name = none)
    (hbegins : L.Begins texts start text (t.refer s.nextHandle name source text))
    (hadvances : L.Advances (t.refer s.nextHandle name source text) u)
    (hanswers : Answers (t.refer s.nextHandle name source text) (.ok d, u))
    (hleads : (t.refer s.nextHandle name source text).LeadsTo u) (hu : Accounts texts text d u) :
    (u.record (.dependencyAdded s.nextHandle d)).Accounted texts := by
  obtain ⟨a, ha, hbalanced⟩ := h.own
  obtain ⟨inner, hparse, hstands, halone⟩ := hu.stands
  have hreferred : (t.refer s.nextHandle name source text).store.get? s.nextHandle =
      some (a.addReference name) := (t.refer_changed s.nextHandle name source text).get? ha
  have hcount : t.history.countP (Event.refersFrom s.nextHandle) = a.dependencies.length := by
    rw [h.logged, referenceCount_of_get? ha, hbalanced]
  obtain ⟨events, hevents⟩ := hleads
  have hfound : u.FoundAt s.nextHandle a.dependencies.length text := by
    have hnew : (t.refer s.nextHandle name source text).FoundAt s.nextHandle
        a.dependencies.length text := ⟨[], name, source, t.history, rfl, hcount⟩
    exact hnew.of_append _ hevents.history_eq
  -- the nested load finds no text for a reference of this assembly
  have honly : ∀ other, u.FoundAt s.nextHandle a.dependencies.length other → other = text := by
    intro other hother
    have hlt : a.dependencies.length <
        (t.refer s.nextHandle name source text).history.countP (Event.refersFrom s.nextHandle) := by
      rw [hbegins.logged, referenceCount_of_get? hreferred, hbalanced]
      simp [Assembly.addReference]
    rcases (hother.of_later hevents.history_eq hlt).of_refer with hold | ⟨-, -, rfl⟩
    · rw [hbalanced] at hold
      exact absurd hold (h.logged.not_foundAt ha)
    · rfl
  refine hu.accounted.dependencyAdded (Store.get?_of_prefix hadvances.store hreferred)
    (getElem?_addReference hbalanced name)
    (fun hgoes => hanswers.findByName? hbegins.sound hadvances hfree hgoes)
    (fun _ => ⟨text, hfound⟩) (fun other hother => ?_)
    fun other outer g j name' text' outer' hother hparse' hlink htext' hparse'' => ?_
  · rw [honly other hother]
    exact ⟨inner, hparse, hstands⟩
  · obtain rfl := honly other hother
    obtain rfl : outer = inner := Except.ok.inj (hparse'.symm.trans hparse)
    have huid : outer.uid ≠ "" := fun huid => halone huid _ _ _ hlink
    refine ⟨huid, fun huid' => ?_⟩
    -- the uid that is stated would be one that no text states
    obtain ⟨doc', hdoc', hstands'⟩ := hu.accounted.found hlink htext'
    obtain rfl : doc' = outer' := Except.ok.inj (hdoc'.symm.trans hparse'')
    have hstated : StatesUid texts outer.uid := ⟨huid, other, hbegins.text, outer, hparse, rfl⟩
    exact hstands.uid_ne hadvances.sound hstands' hstated huid'

/-- When linking is over, the assembly stands for its document, and nothing is linked to it. -/
theorem completed (h : L.Midway texts start s doc t) (hfresh : L.FreshUids texts start)
    (hs : L.Run texts start s) (hparse : Document.parse text "" = .ok doc) :
    Accounts texts text s.nextHandle ((t.leave doc).record (.completed s.nextHandle)) := by
  have hchanged := (t.leave doc).completed_changed s.nextHandle
  refine ⟨(h.accounted.leave doc).record_changed hchanged (fun _ => rfl) (fun _ => rfl)
    (fun _ => rfl) rfl, doc, hparse, ⟨L.uidFor doc s, ?_, fun huid => if_neg huid, fun huid => ?_⟩,
    fun _ g i name hlink => ?_⟩
  · -- its entry has been there since it was opened
    obtain ⟨added, hentries, -⟩ := h.frame.entries
    rw [hchanged.registry, leave_registry, hentries]
    exact List.mem_append_right _ List.mem_cons_self
  · rw [uidFor, if_pos huid]
    exact hfresh.unstated _ hs.drawn
  · -- until now it has been linking, and nothing depends on such an assembly
    have hold : t.LinksTo g s.nextHandle := by
      have hlinks := hchanged.linksTo (fun _ => rfl) hlink.linksTo
      unfold LinksTo at hlinks ⊢
      rwa [leave_store] at hlinks
    exact (h.ordered.linked g _ hold).ne_of_isLinking h.frame.isLinking rfl

end Midway

/-- What the other contracts say about the middle of a load. -/
theorem Begins.midway {done : List Reference} (hs : L.Begins texts start text s)
    (h : ((L.Underway text s doc done t ∧ (s.Sound → s.LeadsTo t)) ∧
        (text ∈ texts → L.Run texts start s → L.Run texts start t ∧
          ∀ r ∈ doc.references, ∀ p, payload doc.name r = .ok p → p ∈ texts)) ∧
      (L.Begins texts start text s → Document.parse text "" = .ok doc ∧ t.Accounted texts)) :
    L.Midway texts start s doc t := by
  obtain ⟨⟨⟨hunderway, hleads⟩, hrun⟩, haccounted⟩ := h
  have hst : s.LeadsTo t := hleads hs.sound
  exact {
    frame := (hunderway hs.sound).1.1
    balanced := (hunderway hs.sound).1.2
    ordered := lasting_ordered.leadsTo hst hs.ordered
    logged := hst.logged hs.logged
    run := (hrun hs.text hs.run).1
    accounted := (haccounted hs).2 }

/-- A document that is known already has been registered under the uid that it states. -/
theorem Begins.known {origin : String} (hs : L.Begins texts start text s)
    (hfresh : L.FreshUids texts start) (hparse : Document.parse text origin = .ok doc)
    (hfound : s.registry.find? doc.name (L.uidFor doc s) = some d) :
    Accounts texts text d (s.identify doc) := by
  have hentry := Registry.mem_of_find? hfound
  -- a uid that is drawn for it would not be registered yet
  have huid : doc.uid ≠ "" := by
    intro huid
    rw [uidFor, if_pos huid] at hentry
    exact hs.run.next_free hfresh _ hentry rfl
  refine ⟨hs.accounted.identify doc, doc, Document.parse_origin hparse "",
    ⟨doc.uid, ?_, fun _ => rfl, fun hempty => absurd hempty huid⟩, fun hempty => absurd hempty huid⟩
  rw [uidFor, if_neg huid] at hentry
  rwa [identify_registry]

/-- A load that begins where all links have their reasons gives the new links theirs. -/
theorem accounts (hsupplies : L.Supplies texts) (hfresh : L.FreshUids texts start) : L.Contract
    (fun text s r => ((L.RegistersLinked text s r ∧ (s.Sound → s.LeadsTo r.2)) ∧
        (text ∈ texts → L.Run texts start s → L.Run texts start r.2)) ∧
      (L.Begins texts start text s → ∀ d, r.1 = .ok d → Accounts texts text d r.2))
    (fun text s doc done t => ((L.Underway text s doc done t ∧ (s.Sound → s.LeadsTo t)) ∧
        (text ∈ texts → L.Run texts start s → L.Run texts start t ∧
          ∀ r ∈ doc.references, ∀ p, payload doc.name r = .ok p → p ∈ texts)) ∧
      (L.Begins texts start text s → Document.parse text "" = .ok doc ∧ t.Accounted texts))
    (fun text s doc t => (((s.Sound → L.Frame s doc t) ∧ (s.Sound → s.LeadsTo t)) ∧
        (text ∈ texts → L.Run texts start s → L.Run texts start t)) ∧ True) :=
  -- the reasons of a link are in the events so far, and in the texts at hand
  (leadsOn.both (runs hsupplies start)).extend {
    tooDeep := fun _ _ _ _ h => by cases h
    failed := fun _ _ _ _ _ h => by cases h
    circular := fun _ _ _ _ _ h => by cases h
    known := by
      intro text origin s doc h hparse _ found _ hs d hd
      obtain rfl : h = d := Except.ok.inj hd
      exact hs.known hfresh hparse found
    opens := fun _ _ _ _ _ hparse opens hs =>
      ⟨Document.parse_origin hparse "", hs.accounted.opens hs.ordered opens⟩
    bundles := fun _ _ _ _ _ _ h _ _ _ hs =>
      ⟨(h.2 hs).1, (h.2 hs).2.record_same rfl rfl rfl⟩
    joins := fun _ _ _ _ _ _ _ h found _ hs => ⟨(h.2 hs).1, (hs.midway h).join found⟩
    loads := by
      intro text s doc done t r source found d u h free located loaded hs
      have hbegins := (hs.midway h).begins hsupplies located
      obtain ⟨hadvances, hanswers⟩ := loaded.1.1.1 hbegins.sound
      exact ⟨(h.2 hs).1, (hs.midway h).loaded free hbegins hadvances hanswers
        (loaded.1.1.2 hbegins.sound) (loaded.2 hbegins d rfl)⟩
    declares := by
      intro text s doc t j h hs
      obtain ⟨a, ha, -⟩ := (hs.midway h).own
      exact ⟨(h.2 hs).1, (h.2 hs).2.declare ha j⟩
    defines := by
      intro text s doc t j h hs
      obtain ⟨a, ha, -⟩ := (hs.midway h).own
      exact ⟨(h.2 hs).1, (h.2 hs).2.define ha j⟩
    breaks := fun _ _ _ _ _ _ => trivial
    breaksAtReference := fun _ _ _ _ _ _ _ => trivial
    breaksInLoad := fun _ _ _ _ _ _ _ _ _ _ _ _ _ _ => trivial
    completes := by
      intro text s doc t _ _ _ _ h _ hs d hd
      obtain rfl : s.nextHandle = d := Except.ok.inj hd
      exact (hs.midway h).completed hfresh hs.run (h.2 hs).1
    abandons := fun _ _ _ _ _ _ _ _ h => by cases h }

end Linker

/-- Where nothing has been loaded yet, there are no links. -/
theorem Session.accounted_of_empty {texts : List String} {s : Session} (hs : s.store = []) :
    s.Accounted texts := by
  have hnone : ∀ {h i name d}, ¬ s.LinkedAt h i name d := by
    rintro h i name d ⟨a, ha, -⟩
    rw [hs] at ha
    cases ha
  exact ⟨fun hlink => absurd hlink hnone, fun hlink => absurd hlink hnone,
    fun hlink => absurd hlink hnone, fun hlink => absurd hlink hnone⟩

/-- A first load that succeeds accounts for all links. -/
theorem LoadRequest.run_accounted {r : LoadRequest} {root : Handle} {t : Session}
    (hfresh : r.linker.FreshUids r.texts (r.start {})) (hok : r.run {} = (.ok root, t)) :
    t.Accounted r.texts := by
  have hwithin := r.within_point []
  have hbegins : r.linker.Begins r.texts (r.start {}) r.text (r.start {}) := by
    refine ⟨hwithin.sound, ?_, fun h => ?_, hwithin.text, hwithin.run,
      Session.accounted_of_empty rfl⟩
    · exact Session.lasting_ordered.context {} r.context Session.ordered_empty
    · rfl
  have hload := (Linker.accounts r.supplies_texts hfresh).holds r.linker.maxDepth r.text r.origin
    (r.start {})
  have hrun : r.linker.loadWithin r.linker.maxDepth r.text r.origin (r.start {}) = (.ok root, t) :=
    hok
  rw [hrun] at hload
  exact (hload.2 hbegins root rfl).accounted

/-- Let a first load succeed, with fresh uids.

    * Every assembly that is registered then has a link for each of its references.
    * Two references of one name share an assembly if and only if it goes by the name, or texts
      have been found for both whose documents state one name and one uid.
    * If one text has been found for two references, of whatever names, they share an assembly if
      and only if its document states a uid.
    * So one name stands for one assembly, the first one registered under it, if every text that is
      found for a name declares it. -/
theorem shared_instance_iff (r : LoadRequest) (root : Handle) (t : Session)
    (hfresh : r.linker.FreshUids r.texts (r.start {})) (hok : r.run {} = (.ok root, t)) :
    (∀ h ∈ t.registry.handles, ∃ a, t.store.get? h = some a ∧
      a.dependencies.length = a.references.length) ∧
    (∀ h i d h' i' d' name, t.LinkedAt h i name d → t.LinkedAt h' i' name d' →
      (h, i) ≠ (h', i') → (d = d' ↔ (t.GoesBy d name ∧ t.GoesBy d' name) ∨
        ∃ text doc text' doc', t.FoundAt h i text ∧ Document.parse text "" = .ok doc ∧
          t.FoundAt h' i' text' ∧ Document.parse text' "" = .ok doc' ∧
          doc.name = doc'.name ∧ doc.uid = doc'.uid ∧ doc.uid ≠ "")) ∧
    (∀ h i name d h' i' name' d' text doc, t.LinkedAt h i name d → t.LinkedAt h' i' name' d' →
      (h, i) ≠ (h', i') → t.FoundAt h i text → t.FoundAt h' i' text →
      Document.parse text "" = .ok doc → (d = d' ↔ doc.uid ≠ "")) ∧
    ((∀ h i name d text doc, t.LinkedAt h i name d → t.FoundAt h i text →
        Document.parse text "" = .ok doc → doc.name = name) →
      ∀ h i name d, t.LinkedAt h i name d → t.registry.findByName? name = some d) := by
  have haccounted := r.run_accounted hfresh hok
  obtain ⟨hsound, hsettled⟩ : t.Sound ∧ t.Settled [r] := by
    have hafter := Session.after_settled [r]
    rwa [Session.after, List.foldl_cons, List.foldl_nil, hok] at hafter
  refine ⟨fun h hh => ?_, ?_, ?_, ?_⟩
  · obtain ⟨e, he, rfl⟩ := Session.mem_handles.1 hh
    obtain ⟨a, ha, hcomplete, -⟩ := hsettled e he
    exact ⟨a, ha, hcomplete.balanced⟩
  · intro h i d h' i' d' name hlink hlink' hne
    exact haccounted.eq_iff hsound hlink hlink' hne
  · intro h i name d h' i' name' d' text doc hlink hlink' hne htext htext' hparse
    rw [haccounted.eq_iff_of_found hsound hlink hlink' hne htext htext' hparse hparse]
    exact ⟨fun hsame => hsame.2.2, fun huid => ⟨rfl, rfl, huid⟩⟩
  · intro hdeclared h i name d hlink
    exact haccounted.findByName?_of_declared hsound hdeclared hlink

/-! ### A library that is referred to twice -/

section Twice

open Linker

/-- A program that refers to a library twice. -/
def twiceProgram : Document := bareDocument "Main" ["Base", "Base"]

/-- The text of the library, which declares some name. -/
def baseText (declared : String) : String := (bareDocument declared []).render

/-- The load of the program with this library. -/
def twiceRequest (declared : String) : LoadRequest :=
  bareRequest [("Base", declared, [])] "Main" ["Base", "Base"]

/-- The session in which the program has been created. -/
def twiceCreated (declared : String) : Session :=
  (((twiceRequest declared).start {}).identify twiceProgram).record
    (.created (newAssembly twiceProgram (unaryUids 0)))

/-- What a load of the library for the program comes to. -/
def loadBase (declared : String) (s : Session) : Outcome Unit × Session :=
  ((unaryLinker.accept (unaryLinker.loadWithin 3998) (bareDocument declared [])).andThen
    fun d => .record (.dependencyAdded 0 d)) (s.refer 0 "Base" .bootstrap (baseText declared))

theorem linkReference_base (declared : String) {s : Session}
    (hcontext : s.context = (twiceRequest declared).context)
    (hfree : s.registry.findByName? "Base" = none) :
    unaryLinker.linkReference (unaryLinker.loadWithin 3999) "Main" 0 { name := "Base" } s =
      loadBase declared s := by
  have hlocated : unaryLinker.locateText s.context "Main" "Base" =
      .ok (.bootstrap, baseText declared) := by
    rw [hcontext]
    rfl
  rw [linkReference_of_located _ _ _ _ hfree hlocated]
  unfold loadWithin baseText
  rw [parse_bareDocument]
  rfl

/-- The program is linked when its two references are. -/
theorem run_twiceRequest {declared : String} {s t : Session}
    (hfirst : unaryLinker.linkReference (unaryLinker.loadWithin 3999) "Main" 0 { name := "Base" }
      (twiceCreated declared) = (.ok (), s))
    (hsecond : unaryLinker.linkReference (unaryLinker.loadWithin 3999) "Main" 0 { name := "Base" }
      s = (.ok (), t)) :
    (twiceRequest declared).run {} = (.ok 0, t.record (.completed 0)) := by
  have hparse : Document.parse (twiceRequest declared).text (twiceRequest declared).origin =
      .ok twiceProgram := parse_bareDocument _ _ _
  have hstages : Stages unaryLinker (unaryLinker.loadWithin 3999) twiceProgram
      ((twiceRequest declared).start {}) (twiceCreated declared) (twiceCreated declared) t t := by
    refine ⟨⟨rfl, rfl, rfl, rfl⟩, harvest_of_library rfl _, ?_, rfl⟩
    show Action.forEach (unaryLinker.linkReference (unaryLinker.loadWithin 3999) "Main" 0)
      [{ name := "Base" }, { name := "Base" }] (twiceCreated declared) = (.ok (), t)
    rw [Action.forEach, Action.andThen_of_ok hfirst, Action.forEach, Action.andThen_of_ok hsecond]
    rfl
  exact hstages.load_eq rfl hparse

/-- The session after the program, where the library declares the name of the references. -/
def baseShared : Session :=
  ((loadBase "Base" (twiceCreated "Base")).2.join 0 "Base" 1).record (.completed 0)

theorem run_baseShared : (twiceRequest "Base").run {} = (.ok 0, baseShared) :=
  run_twiceRequest (linkReference_base "Base" rfl rfl)
    (unaryLinker.linkReference_of_registered _ "Main" { name := "Base" } rfl rfl)

/-- Then all links of one name are to one assembly. -/
theorem base_loaded_once :
    (twiceRequest "Base").linker.FreshUids (twiceRequest "Base").texts
      ((twiceRequest "Base").start {}) ∧
    (twiceRequest "Base").run {} = (.ok 0, baseShared) ∧
    baseShared.LinkedAt 0 0 "Base" 1 ∧ baseShared.LinkedAt 0 1 "Base" 1 ∧
    ∀ h i name d, baseShared.LinkedAt h i name d →
      baseShared.registry.findByName? name = some d := by
  have hfresh : (twiceRequest "Base").linker.FreshUids (twiceRequest "Base").texts
      ((twiceRequest "Base").start {}) := freshUids_bareRequest _ _ _
  have hreferences : baseShared.store.map (·.references) = [["Base", "Base"], []] := rfl
  have hfinds : baseShared.history.filter Event.findsText =
      [.textLocated 0 "Base" .bootstrap (baseText "Base")] := rfl
  have hdeclared : ∀ h i name d text doc, baseShared.LinkedAt h i name d →
      baseShared.FoundAt h i text → Document.parse text "" = .ok doc → doc.name = name := by
    rintro h i name d text doc ⟨a, ha, hname, -⟩
      ⟨later, stated, source, earlier, hhistory, -⟩ hparse
    have hbase : name = "Base" := by
      have hmem : a.references ∈ [["Base", "Base"], []] :=
        hreferences ▸ List.mem_map_of_mem (List.mem_of_getElem? ha)
      have hname := List.mem_of_getElem? hname
      rcases List.mem_pair.1 hmem with hrefs | hrefs
      · simpa [hrefs] using hname
      · simp [hrefs] at hname
    -- the only text that has been found is that of the library
    have htext : text = baseText "Base" := by
      have hmem : .textLocated h stated source text ∈
          baseShared.history.filter Event.findsText := by
        rw [hhistory, List.mem_filter]
        exact ⟨List.mem_append_right _ List.mem_cons_self, rfl⟩
      rw [hfinds] at hmem
      cases List.mem_singleton.1 hmem
      rfl
    rw [htext, baseText, parse_bareDocument] at hparse
    cases hparse
    exact hbase.symm
  exact ⟨hfresh, run_baseShared, ⟨_, rfl, rfl, rfl⟩, ⟨_, rfl, rfl, rfl⟩,
    (shared_instance_iff (twiceRequest "Base") 0 baseShared hfresh run_baseShared).2.2.2 hdeclared⟩

/-- The session after the program, where the library declares another name. -/
def baseTwice : Session :=
  (loadBase "Real" (loadBase "Real" (twiceCreated "Real")).2).2.record (.completed 0)

/-- Then the one text is loaded for each of the references. -/
theorem alias_loaded_twice :
    (twiceRequest "Real").linker.FreshUids (twiceRequest "Real").texts
      ((twiceRequest "Real").start {}) ∧
    (twiceRequest "Real").run {} = (.ok 0, baseTwice) ∧
    baseTwice.LinkedAt 0 0 "Base" 1 ∧ baseTwice.FoundAt 0 0 (baseText "Real") ∧
    baseTwice.LinkedAt 0 1 "Base" 2 ∧ baseTwice.FoundAt 0 1 (baseText "Real") ∧
    ¬ ∀ h i d h' i' d' name, baseTwice.LinkedAt h i name d → baseTwice.LinkedAt h' i' name d' →
      d = d' := by
  have hfirst : baseTwice.LinkedAt 0 0 "Base" 1 := ⟨_, rfl, rfl, rfl⟩
  have hsecond : baseTwice.LinkedAt 0 1 "Base" 2 := ⟨_, rfl, rfl, rfl⟩
  refine ⟨freshUids_bareRequest _ _ _, run_twiceRequest (linkReference_base "Real" rfl rfl)
    (linkReference_base "Real" rfl rfl), hfirst, ?_, hsecond, ?_, fun hone => ?_⟩
  · exact ⟨baseTwice.history.take 11, "Base", .bootstrap, baseTwice.history.drop 13, rfl, rfl⟩
  · exact ⟨baseTwice.history.take 5, "Base", .bootstrap, baseTwice.history.drop 7, rfl, rfl⟩
  · exact absurd (hone _ _ _ _ _ _ _ hfirst hsecond) (by decide)

end Twice

end AssemblyLinker
