import AssemblyLinker.Proofs.Loading.Recursion
import AssemblyLinker.Proofs.Loading.Reloading

/-! # Programs without a cycle

    Let names have ranks such that every document at hand refers to names of lower ranks only,
    and the texts for these names declare names of lower ranks too (`Linker.Ranked`).  On the
    way down the ranks of the declared names fall, so of everything that is registered and
    still being linked the rank is above that of the text to be loaded
    (`Linker.Descends.of_triggers`).

    None of the looks at the registry then finds an assembly that is still being linked, and
    loads nest no deeper than the rank of the first text: `ranked_never_circular`.
-/

namespace AssemblyLinker

/-- A text that is no document is no fault of the recursion. -/
theorem Document.parse_kind {text origin : String} {e : LinkError}
    (h : parse text origin = .error e) : e.kind ≠ .circularReference := by
  unfold parse at h
  cases hjson : Json.parseFrom origin text with
  | error fault =>
    rw [hjson] at h
    cases h
    unfold Json.parseFrom at hjson
    split at hjson
    · cases hjson
    · cases hjson
      exact fun hkind => by cases hkind
  | ok j =>
    rw [hjson] at h
    have hdocument : (ofJson j).mapError
        (fun fault => LinkError.schema (declaredName? j) fault.message) = .error e := h
    cases hread : ofJson j with
    | ok doc =>
      rw [hread] at hdocument
      cases hdocument
    | error fault =>
      rw [hread] at hdocument
      cases hdocument
      exact fun hkind => by cases hkind

namespace Linker

/-! ## The texts for a name -/

/-- The texts that a load may come upon, with the names of the references that they are for.
    The text that is asked for is for none. -/
inductive AtHand (L : Linker) (ctx : LoadContext) (root : String) :
    Option String → String → Prop where
  | root : AtHand L ctx root none root
  | bootstrap {name text : String} : ctx.bootstrapDocument? name = some text →
      AtHand L ctx root (some name) text
  | bundled {name text : String} : (name, text) ∈ ctx.bundled → AtHand L ctx root (some name) text
  | library {dir name text : String} : dir ∈ ctx.searchPath →
      L.files.readText (LoadContext.libraryFile dir name) = .ok text →
      AtHand L ctx root (some name) text
  | payload {key : Option String} {text p : String} {doc : Document} {r : Reference} :
      AtHand L ctx root key text → Document.parse text "" = .ok doc → r ∈ doc.references →
      payload doc.name r = .ok p → AtHand L ctx root (some r.name) p

/-- A context offers nothing but what is at hand. -/
structure Offers (L : Linker) (ctx : LoadContext) (root : String) (offered : LoadContext) :
    Prop where
  searchPath : offered.searchPath = ctx.searchPath
  bootstrap : offered.bootstrap = ctx.bootstrap
  bundled : ∀ pair ∈ offered.bundled, L.AtHand ctx root (some pair.1) pair.2

variable {L : Linker} {ctx offered : LoadContext} {root : String}

theorem offers_self (L : Linker) (ctx : LoadContext) (root : String) : L.Offers ctx root ctx :=
  ⟨rfl, rfl, fun _ hpair => .bundled hpair⟩

theorem Offers.bundle (h : L.Offers ctx root offered) {name p : String}
    (hp : L.AtHand ctx root (some name) p) : L.Offers ctx root (offered.bundle name p) := by
  refine ⟨h.searchPath, h.bootstrap, fun pair hpair => ?_⟩
  rcases List.mem_append.1 hpair with hpair | hpair
  · exact h.bundled pair (List.mem_of_mem_filter hpair)
  · rw [List.mem_singleton.1 hpair]
    exact hp

theorem Offers.leave {t : Session} (h : L.Offers ctx root t.context) (doc : Document) :
    L.Offers ctx root (t.leave doc).context := by
  unfold Session.leave
  by_cases hexecutable : doc.executable = true
  · rw [if_pos hexecutable]
    exact ⟨h.searchPath, h.bootstrap, fun pair hpair => absurd hpair List.not_mem_nil⟩
  · rw [if_neg hexecutable]
    exact h

/-- A library that is found is read from the file of the name in one of the directories. -/
theorem exists_dir_of_findLibraryIn {files : FileSystem} {name path text : String}
    {dirs : List String} (h : LoadContext.findLibraryIn files name dirs = .ok (some (path, text))) :
    ∃ dir ∈ dirs, files.readText (LoadContext.libraryFile dir name) = .ok text := by
  induction dirs with
  | nil =>
    rw [LoadContext.findLibraryIn_nil] at h
    cases h
  | cons dir dirs ih =>
    rw [LoadContext.findLibraryIn_cons] at h
    split at h
    next hread =>
      cases h
      exact ⟨dir, List.mem_cons_self, hread⟩
    next =>
      obtain ⟨found, hmem, hread⟩ := ih h
      exact ⟨found, List.mem_cons_of_mem dir hmem, hread⟩
    next => cases h

/-- The text that is found for a name is one that is at hand for it. -/
theorem Offers.located (h : L.Offers ctx root offered) {assembly name text : String}
    {source : TextSource} (hlocated : L.locateText offered assembly name = .ok (source, text)) :
    L.AtHand ctx root (some name) text := by
  unfold locateText at hlocated
  split at hlocated
  next hbootstrap =>
    cases hlocated
    refine .bootstrap ?_
    unfold LoadContext.bootstrapDocument? at hbootstrap ⊢
    rwa [h.bootstrap] at hbootstrap
  next =>
    split at hlocated
    next hbundled =>
      cases hlocated
      exact h.bundled (name, text) (mem_of_lookup hbundled)
    next =>
      split at hlocated
      next hfound =>
        cases hlocated
        obtain ⟨dir, hdir, hread⟩ := exists_dir_of_findLibraryIn hfound
        exact .library (h.searchPath ▸ hdir) hread
      next => cases hlocated
      next => cases hlocated

/-- A load of a text that is at hand leaves a context that offers what is at hand. -/
theorem keepsOffers (ctx : LoadContext) (root : String) : L.Contract
    (fun text s r => (∃ key, L.AtHand ctx root key text) → L.Offers ctx root s.context →
      L.Offers ctx root r.2.context)
    (fun text s doc _ t => (∃ key, L.AtHand ctx root key text) → L.Offers ctx root s.context →
      L.Offers ctx root t.context ∧
        ∀ r ∈ doc.references, ∀ p, payload doc.name r = .ok p → L.AtHand ctx root (some r.name) p)
    (fun text s _ t => (∃ key, L.AtHand ctx root key text) → L.Offers ctx root s.context →
      L.Offers ctx root t.context) where
  tooDeep _ s _ hs := hs
  failed _ s e _ hs := hs
  circular _ s doc _ hs := (s.identify_context doc).symm ▸ hs
  known _ _ s doc h _ _ _ _ _ hs := (s.identify_context doc).symm ▸ hs
  opens text origin s doc t hparse opens htext hs := by
    refine ⟨opens.context ▸ hs, fun r hr p hp => ?_⟩
    obtain ⟨key, hkey⟩ := htext
    exact .payload hkey (Document.parse_origin hparse "") hr hp
  -- a payload that goes into the bundle is at hand with its document
  bundles text s doc t r p h _ hr hp htext hs :=
    ⟨(h htext hs).1.bundle ((h htext hs).2 r hr p hp), (h htext hs).2⟩
  joins text s doc done t r d h _ _ htext hs := h htext hs
  loads text s doc done t r source found d u h _ located loaded htext hs := by
    obtain ⟨ht, hpayloads⟩ := h htext hs
    exact ⟨loaded ⟨_, ht.located located⟩ ht, hpayloads⟩
  declares text s doc t j h htext hs := by
    refine ⟨?_, (h htext hs).2⟩
    unfold Session.declare
    split
    · exact (h htext hs).1
    · split <;> exact (h htext hs).1
  defines text s doc t j h htext hs := by
    refine ⟨?_, (h htext hs).2⟩
    unfold Session.define
    split <;> exact (h htext hs).1
  breaks text s doc done t h htext hs := (h htext hs).1
  breaksAtReference text s doc done t name h htext hs := (h htext hs).1
  breaksInLoad text s doc done t r source found stop u h _ located loaded htext hs :=
    loaded ⟨_, (h htext hs).1.located located⟩ (h htext hs).1
  completes text s doc t depth o p u h _ htext hs := (h htext hs).1.leave doc
  abandons text s doc t stop h htext hs := by
    rw [Session.abandoned_context]
    exact (h htext hs).leave doc

/-! ## Ranks -/

/-- Names have ranks that fall along references: the names that a document at hand refers to, and
    those that the texts for them declare, are of lower ranks than its own name. -/
structure Ranked (L : Linker) (ctx : LoadContext) (root : String) (rank : String → Nat) : Prop where
  references : ∀ key text doc, L.AtHand ctx root key text → Document.parse text "" = .ok doc →
    ∀ r ∈ doc.references, rank r.name < rank doc.name
  texts : ∀ key text doc, L.AtHand ctx root key text → Document.parse text "" = .ok doc →
    ∀ r ∈ doc.references, ∀ found doc', L.AtHand ctx root (some r.name) found →
      Document.parse found "" = .ok doc' → rank doc'.name < rank doc.name

/-- What holds of every load on the way down: everything that is registered and still being
    linked is of a higher rank than the text to be loaded. -/
structure Descends (L : Linker) (ctx : LoadContext) (root : String) (rank : String → Nat)
    (c : LoadPoint) : Prop where
  sound : c.session.Sound
  text : ∃ key, L.AtHand ctx root key c.text
  offers : L.Offers ctx root c.session.context
  above : ∀ doc, Document.parse c.text c.origin = .ok doc → ∀ e ∈ c.session.registry.entries,
    c.session.isLinking e.handle = true → rank doc.name < rank e.name

variable {s t u : Session} {doc : Document} {rank : String → Nat} {c c' : LoadPoint}

/-- What is still being linked in a frame was so before, or is the assembly of the frame. -/
theorem Frame.linking_entry (h : L.Frame s doc t) (hs : s.Sound) {e : Entry}
    (he : e ∈ t.registry.entries) (hlinking : t.isLinking e.handle = true) :
    (e ∈ s.registry.entries ∧ s.isLinking e.handle = true) ∨ e.name = doc.name := by
  obtain ⟨added, hentries, hadded⟩ := h.entries
  rw [hentries] at he
  rcases List.mem_append.1 he with hold | hnew
  · left
    obtain ⟨a, ha, -⟩ := hs.stored e hold
    have ha' : t.store.get? e.handle = some a := Store.get?_of_prefix h.store ha
    refine ⟨hold, ?_⟩
    unfold Session.isLinking at hlinking ⊢
    rw [ha'] at hlinking
    rw [ha]
    exact hlinking
  · right
    rcases List.mem_cons.1 hnew with rfl | hnew
    · rfl
    · -- the others have been linked
      obtain ⟨-, a, ha, hcomplete, -⟩ := hadded e hnew
      simp [Session.isLinking, ha, hcomplete.linked] at hlinking

/-- So on the way down nothing that is being linked is below the assembly of the frame. -/
theorem Descends.le_of_linking (hc : L.Descends ctx root rank c)
    (hparse : Document.parse c.text c.origin = .ok doc) (hframe : L.Frame c.session doc t)
    {e : Entry} (he : e ∈ t.registry.entries) (hlinking : t.isLinking e.handle = true) :
    rank doc.name ≤ rank e.name := by
  rcases hframe.linking_entry hc.sound he hlinking with ⟨hold, hlinking⟩ | hname
  · exact Nat.le_of_lt (hc.above doc hparse e hold hlinking)
  · rw [hname]

/-- The load that a load makes is on the way down too, with a lower rank. -/
theorem Descends.of_triggers (hranked : L.Ranked ctx root rank) (hc : L.Descends ctx root rank c)
    (h : L.Triggers c c') : L.Descends ctx root rank c' ∧
      ∃ doc, Document.parse c.text c.origin = .ok doc ∧ 0 < rank doc.name ∧
        ∀ doc', Document.parse c'.text c'.origin = .ok doc' → rank doc'.name < rank doc.name := by
  obtain ⟨doc, o, hparse, -⟩ := h.opens
  have hframe := h.frame hc.sound hparse
  obtain ⟨key, hkey⟩ := hc.text
  have hparse' : Document.parse c.text "" = .ok doc := Document.parse_origin hparse ""
  cases h with
  | intro doc' o u depth i r source text parsed opens linked reference free located =>
    obtain rfl : doc' = doc := Except.ok.inj (parsed.symm.trans hparse)
    have hr : r ∈ doc'.references := List.mem_of_getElem? reference
    have hoffers : L.Offers ctx root u.context :=
      ((L.keepsOffers ctx root).of_linkFirst parsed opens linked hc.text hc.offers).1
    have hfound : L.AtHand ctx root (some r.name) text := hoffers.located located
    -- the text is at hand for the reference, so that what it declares is of a lower rank
    have hlower : ∀ doc'', Document.parse text r.name = .ok doc'' →
        rank doc''.name < rank doc'.name := by
      intro doc'' hparse''
      exact hranked.texts key c.text doc' hkey hparse' r hr text doc'' hfound
        (Document.parse_origin hparse'' "")
    refine ⟨⟨hframe.sound, ⟨_, hfound⟩, hoffers, fun doc'' hparse'' e he hlinking => ?_⟩,
      doc', parsed, ?_, hlower⟩
    · exact Nat.lt_of_lt_of_le (hlower doc'' hparse'') (hc.le_of_linking parsed hframe he hlinking)
    · have hreference := hranked.references key c.text doc' hkey hparse' r hr
      omega

/-- On the way down no reference of a document stands for an assembly that is still being
    linked. -/
theorem Descends.reference_linked (hranked : L.Ranked ctx root rank)
    (hc : L.Descends ctx root rank c) (hparse : Document.parse c.text c.origin = .ok doc)
    (hopens : L.Opens doc c.session t) {depth i : Nat} {r : Reference} {d : Handle}
    (hlinked : L.linkFirst (L.loadWithin depth) doc c.session.nextHandle i t = (.ok (), u))
    (hr : r ∈ doc.references) (hfind : u.registry.findByName? r.name = some d) :
    (u.record (.referenceAdded c.session.nextHandle r.name)).isLinking d = false := by
  have hframe : L.Frame c.session doc (u.record (.referenceAdded c.session.nextHandle r.name)) :=
    (L.registersLinked.of_linkFirst hparse hopens hlinked hc.sound).1.1.addReference rfl rfl
  obtain ⟨key, hkey⟩ := hc.text
  have hlower := hranked.references key c.text doc hkey (Document.parse_origin hparse "") r hr
  obtain ⟨e, he, hname, rfl⟩ := Registry.mem_of_findByName? hfind
  rw [Bool.eq_false_iff]
  intro hlinking
  have hle := hc.le_of_linking hparse hframe he hlinking
  rw [hname] at hle
  omega

/-- If the recursion is at fault for the end of a load on the way down, then loads may not nest as
    deep as the rank of its text. -/
theorem Descends.stop_eq (hranked : L.Ranked ctx root rank) (depth : Nat) :
    ∀ {c : LoadPoint} {stop : Stop}, L.Descends ctx root rank c →
      (c.run L depth).1 = .error stop → stop.OfRecursion → stop = .tooDeep ∧
        (0 < depth → ∃ doc, Document.parse c.text c.origin = .ok doc ∧ depth ≤ rank doc.name) := by
  induction depth with
  | zero =>
    intro c stop _ hrun _
    cases hrun
    exact ⟨rfl, fun h => absurd h (Nat.lt_irrefl 0)⟩
  | succ depth ih =>
    intro c stop hc hrun hrecursion
    unfold LoadPoint.run loadWithin at hrun
    cases hparse : Document.parse c.text c.origin with
    | error e =>
      rw [hparse] at hrun
      cases hrun
      exact absurd hrecursion (Document.parse_kind hparse)
    | ok doc =>
      rw [hparse] at hrun
      have haccepted := L.accepted (L.loadWithin depth) doc c.session
      have hrun : (L.accept (L.loadWithin depth) doc c.session).1 = .error stop := hrun
      generalize L.accept (L.loadWithin depth) doc c.session = result at haccepted hrun
      cases haccepted with
      | wrongMode mode =>
        cases hrun
        cases hrecursion
      | circular mode linking =>
        -- one of the two looks has found an entry of the name of the document
        have hfound : ∃ e ∈ c.session.registry.entries, e.name = doc.name ∧
            c.session.isLinking e.handle = true := by
          rcases linking with linking | linking
          · obtain ⟨d, hfind, hlinking⟩ := (Option.any_eq_true _ _).1 linking
            exact ⟨_, Registry.mem_of_find? hfind, rfl, hlinking⟩
          · obtain ⟨d, hfind, hlinking⟩ := (Option.any_eq_true _ _).1 linking
            obtain ⟨e, he, hname, rfl⟩ := Registry.mem_of_findByName? hfind
            exact ⟨e, he, hname, hlinking⟩
        obtain ⟨e, he, hname, hlinking⟩ := hfound
        have hlt := hc.above doc hparse e he hlinking
        rw [hname] at hlt
        exact absurd hlt (Nat.lt_irrefl _)
      | known i mode found linked => cases hrun
      | opened t opens =>
        rcases link_stops hparse opens (linking_stops hrun) hrecursion with
          ⟨c', htrigger, hrun'⟩ | ⟨i, u, r, d, hfirst, hreference, hfind, hlinking, -⟩
        · obtain ⟨hc', doc', hparse', hpos, hlower⟩ := hc.of_triggers hranked htrigger
          obtain rfl : doc = doc' := Except.ok.inj (hparse.symm.trans hparse')
          obtain ⟨hstop, hdepth⟩ := ih hc' hrun' hrecursion
          refine ⟨hstop, fun _ => ⟨doc, rfl, ?_⟩⟩
          by_cases hzero : 0 < depth
          · obtain ⟨inner, hinner, hle⟩ := hdepth hzero
            have hlt := hlower inner hinner
            omega
          · omega
        · have hlinked := hc.reference_linked hranked hparse opens hfirst
            (List.mem_of_getElem? hreference) hfind
          rw [hlinking] at hlinked
          cases hlinked

end Linker

/-- Where everything that is registered is linked, and names have ranks that fall along the
    references of all documents at hand: a load never ends in a circular reference, whatever else
    it ends in, and it comes to an end by itself if loads may nest deep enough. -/
theorem ranked_never_circular (L : Linker) (s : Session) (text origin : String)
    (rank : String → Nat) (hs : s.Sound) (hlinked : s.AllLinked)
    (hranked : L.Ranked s.context text rank) :
    (∀ depth assembly name, (L.loadWithin depth text origin s).1 ≠
      .error (.failed (.circularReference assembly name))) ∧
    ∃ bound, ∀ depth, bound < depth → (L.loadWithin depth text origin s).1 ≠ .error .tooDeep := by
  have hroot : L.Descends s.context text rank ⟨text, origin, s⟩ := by
    refine ⟨hs, ⟨none, .root⟩, L.offers_self s.context text, fun doc _ e he hlinking => ?_⟩
    -- nothing is being linked yet
    rw [(hlinked e he).isLinking] at hlinking
    cases hlinking
  constructor
  · intro depth assembly name hstop
    obtain ⟨heq, -⟩ := hroot.stop_eq hranked depth hstop rfl
    cases heq
  · have hdeep : ∀ depth, 0 < depth → (L.loadWithin depth text origin s).1 = .error .tooDeep →
        ∃ doc, Document.parse text origin = .ok doc ∧ depth ≤ rank doc.name := by
      intro depth hpos hstop
      exact (hroot.stop_eq hranked depth hstop trivial).2 hpos
    cases hparse : Document.parse text origin with
    | error e =>
      refine ⟨0, fun depth hdepth hstop => ?_⟩
      obtain ⟨doc, hdoc, -⟩ := hdeep depth hdepth hstop
      rw [hparse] at hdoc
      cases hdoc
    | ok root =>
      refine ⟨rank root.name, fun depth hdepth hstop => ?_⟩
      obtain ⟨doc, hdoc, hle⟩ := hdeep depth (Nat.zero_lt_of_lt hdepth) hstop
      rw [hparse] at hdoc
      obtain rfl := Except.ok.inj hdoc
      omega

/-! ### A library that is shared and registered already -/

section Shared

/-- A library is provided under another name than its own, and another one is registered. -/
def sharingSession : Session :=
  { coreSession with
    context := { bootstrap := some [("ui", (bareDocument "UI" ["Core"]).render)] } }

/-- A program that refers to the first one, and to the one that both need. -/
def sharingProgram : String := (bareDocument "Main" ["ui", "Core"]).render

/-- The ranks of their names. -/
def sharingRank (name : String) : Nat :=
  if name = "Main" then 2 else if name = "ui" ∨ name = "UI" then 1 else 0

theorem atHand_sharing {key : Option String} {text : String}
    (h : ({} : Linker).AtHand sharingSession.context sharingProgram key text) :
    (key = none ∧ text = sharingProgram) ∨
      (key = some "ui" ∧ text = (bareDocument "UI" ["Core"]).render) := by
  induction h with
  | root => exact .inl ⟨rfl, rfl⟩
  | @bootstrap name text hlookup =>
    right
    have hpair : [("ui", (bareDocument "UI" ["Core"]).render)].lookup name = some text := hlookup
    obtain ⟨rfl, rfl⟩ := Prod.mk.inj (List.mem_singleton.1 (mem_of_lookup hpair))
    exact ⟨rfl, rfl⟩
  | bundled hmem => exact absurd hmem List.not_mem_nil
  | library hdir => exact absurd hdir List.not_mem_nil
  | @payload key text p doc r _ hparse hr hp ih =>
    -- neither of the two texts has payloads
    have hnone : payloadTexts text = [] := by
      rcases ih with ⟨-, rfl⟩ | ⟨-, rfl⟩ <;> exact payloadTexts_bareDocument _ _
    have hmem := mem_payloadTexts hparse hr hp
    rw [hnone] at hmem
    exact absurd hmem List.not_mem_nil

theorem ranked_sharing :
    ({} : Linker).Ranked sharingSession.context sharingProgram sharingRank := by
  -- the documents at hand, with the names that they refer to
  have hdocument : ∀ key text doc,
      ({} : Linker).AtHand sharingSession.context sharingProgram key text →
      Document.parse text "" = .ok doc → (key = none ∧ doc = bareDocument "Main" ["ui", "Core"]) ∨
        (key = some "ui" ∧ doc = bareDocument "UI" ["Core"]) := by
    intro key text doc htext hparse
    rcases atHand_sharing htext with ⟨hkey, rfl⟩ | ⟨hkey, rfl⟩
    · have hread := parse_bareDocument "Main" ["ui", "Core"] ""
      exact .inl ⟨hkey, Except.ok.inj (hparse.symm.trans hread)⟩
    · exact .inr ⟨hkey, Except.ok.inj (hparse.symm.trans (parse_bareDocument "UI" ["Core"] ""))⟩
  constructor
  · intro key text doc htext hparse r hr
    rcases hdocument key text doc htext hparse with ⟨-, rfl⟩ | ⟨-, rfl⟩
    · obtain ⟨name, hname, rfl⟩ := List.mem_map.1 hr
      rcases List.mem_pair.1 hname with rfl | rfl <;> decide
    · obtain ⟨name, hname, rfl⟩ := List.mem_map.1 hr
      obtain rfl := List.mem_singleton.1 hname
      decide
  · intro key text doc htext hparse r hr found doc' hfound hparse'
    rcases hdocument _ found doc' hfound hparse' with ⟨hkey, -⟩ | ⟨hkey, rfl⟩
    · cases hkey
    · -- only the program refers to the library by this name
      rcases hdocument key text doc htext hparse with ⟨-, rfl⟩ | ⟨-, rfl⟩
      · show sharingRank "UI" < sharingRank "Main"
        decide
      · obtain ⟨name, hname, rfl⟩ := List.mem_map.1 hr
        obtain rfl := List.mem_singleton.1 hname
        exact absurd (Option.some.inj hkey) (by decide)

/-- The program is loaded without a circular reference. -/
theorem sharing_never_circular :
    (∀ depth assembly name, (({} : Linker).loadWithin depth sharingProgram "" sharingSession).1 ≠
      .error (.failed (.circularReference assembly name))) ∧
    ∃ bound, ∀ depth, bound < depth →
      (({} : Linker).loadWithin depth sharingProgram "" sharingSession).1 ≠ .error .tooDeep := by
  have hentry : ∀ e ∈ sharingSession.registry.entries, e = ⟨"Core", "Core", 0⟩ := fun e he =>
    List.mem_singleton.1 he
  refine ranked_never_circular {} sharingSession sharingProgram "" sharingRank
    ⟨List.nodup_singleton _, fun e he => ?_⟩ (fun e he => ?_) ranked_sharing
  · rw [hentry e he]
    exact ⟨coreLibrary, rfl, rfl, rfl⟩
  · rw [hentry e he]
    exact ⟨coreLibrary, rfl, rfl⟩

end Shared

end AssemblyLinker
