import AssemblyLinker.Proofs.Loading.Registration
import AssemblyLinker.Proofs.Loading.Texts
import Mathlib.Data.List.Nodup
import Mathlib.Logic.Relation

/-! # How deep loads nest

    The loads that one load makes form a tree (`Linker.Triggers`).  On the way down, every
    document that has been opened is still being linked (`Linker.StillLinking`), and what
    stops the recursion are two looks at the registry: for the name and uid of a document,
    and for the first assembly of its name.

    * A document that states its uid is found under it when the way comes back to it.
    * A document without a uid gets another one each time, so it is found by its name alone,
      and only if no older assembly of that name is registered.

    `recursion_stops_iff` says that this is the whole story: loads nest no deeper than there
    are texts, and each way back ends in a circular reference, if and only if no document
    without a uid that a way comes back to was opened behind an older assembly of its name.
-/

namespace AssemblyLinker

/-! ## Parts that do not nest -/

/-- The recursion itself is at fault: loads nest too deep, or one comes back to an assembly that
    is still being linked. -/
def Stop.OfRecursion : Stop → Prop
  | .tooDeep => True
  | .failed e => e.kind = .circularReference

namespace Action

variable {α β : Type}

/-- A part of a load that makes no loads, so that the recursion is not at fault where it stops. -/
def StaysShallow (act : Action α) : Prop := ∀ s stop, (act s).1 = .error stop → ¬ stop.OfRecursion

theorem StaysShallow.andThen {first : Action α} {second : α → Action β}
    (h : first.StaysShallow) (h' : ∀ a, (second a).StaysShallow) :
    (first.andThen second).StaysShallow := by
  intro s stop hstop
  rcases hfirst : first s with ⟨stop' | a, t⟩
  · rw [andThen_of_error hfirst] at hstop
    obtain rfl : stop' = stop := Except.error.inj hstop
    exact h s stop' (congrArg Prod.fst hfirst)
  · rw [andThen_of_ok hfirst] at hstop
    exact h' a t stop hstop

theorem StaysShallow.forEach {act : α → Action Unit} (h : ∀ a, (act a).StaysShallow)
    (xs : List α) : (Action.forEach act xs).StaysShallow := by
  induction xs with
  | nil =>
    intro s stop hstop
    cases hstop
  | cons x xs ih => exact (h x).andThen fun _ => ih

theorem staysShallow_ofStep {step : Session → Except LinkError Unit × Session}
    (hstep : ∀ s e, (step s).1 = .error e → e.kind ≠ .circularReference) :
    (ofStep step).StaysShallow := by
  intro s stop hstop
  unfold ofStep at hstop
  cases hresult : (step s).1 with
  | ok =>
    rw [hresult] at hstop
    cases hstop
  | error e =>
    rw [hresult] at hstop
    obtain rfl : Stop.failed e = stop := Except.error.inj hstop
    exact hstep s e hresult

end Action

/-- A payload that cannot be read is no fault of the recursion. -/
theorem payload_kind {executable : String} {r : Reference} {e : LinkError}
    (h : payload executable r = .error e) : e.kind ≠ .circularReference := by
  unfold payload at h
  cases hbinary : r.binary with
  | none =>
    rw [hbinary] at h
    cases h
    exact fun hkind => by cases hkind
  | some encoded =>
    rw [hbinary] at h
    simp only at h
    cases hdecode : decodePayload encoded with
    | ok text =>
      rw [hdecode] at h
      cases h
    | error message =>
      rw [hdecode] at h
      cases h
      exact fun hkind => by cases hkind

theorem staysShallow_harvest (doc : Document) : (harvest doc).StaysShallow := by
  unfold harvest
  split
  · refine Action.StaysShallow.forEach (fun r => ?_) _
    unfold harvestReference
    cases hpayload : payload doc.name r with
    | ok text => exact fun s stop hstop => by cases hstop
    | error e =>
      intro s stop hstop
      cases hstop
      exact payload_kind hpayload
  · exact fun s stop hstop => by cases hstop

theorem Session.declare_kind {s : Session} {h : Handle} {j : Json} {e : LinkError}
    (hstop : (s.declare h j).1 = .error e) : e.kind = .module := by
  unfold declare at hstop
  split at hstop
  · cases hstop
  · split at hstop
    · cases hstop
    · cases hstop
      rfl

theorem Session.define_kind {s : Session} {h : Handle} {j : Json} {e : LinkError}
    (hstop : (s.define h j).1 = .error e) : e.kind = .module := by
  unfold define at hstop
  split at hstop
  · cases hstop
  next a _ =>
    cases hresult : (ModuleDocument.define s.store j a).2 with
    | ok =>
      simp only [hresult] at hstop
      cases hstop
    | error r =>
      simp only [hresult] at hstop
      cases hstop
      rfl

theorem Linker.staysShallow_buildModules (h : Handle) (modules : List Json) :
    (Linker.buildModules h modules).StaysShallow := by
  refine (Action.StaysShallow.forEach
    (fun j => Action.staysShallow_ofStep fun s e hstop => ?_) _).andThen
    fun _ => .forEach (fun j => Action.staysShallow_ofStep fun s e hstop => ?_) _
  · rw [Session.declare_kind hstop]
    exact fun hkind => by cases hkind
  · rw [Session.define_kind hstop]
    exact fun hkind => by cases hkind

/-- A text that is not found is no fault of the recursion. -/
theorem Linker.locateText_kind {L : Linker} {ctx : LoadContext} {assembly name : String}
    {e : LinkError} (h : L.locateText ctx assembly name = .error e) :
    e.kind ≠ .circularReference := by
  have hlibrary : ∀ dirs e, LoadContext.findLibraryIn L.files name dirs = .error e →
      e.kind = .io := by
    intro dirs
    induction dirs with
    | nil =>
      intro e hstop
      cases hstop
    | cons dir dirs ih =>
      intro e hstop
      rw [LoadContext.findLibraryIn_cons] at hstop
      split at hstop
      · cases hstop
      · exact ih e hstop
      · cases hstop
        rfl
  unfold locateText at h
  split at h
  · cases h
  · split at h
    · cases h
    · split at h
      · cases h
      · cases h
        exact fun hkind => by cases hkind
      next hfound =>
        cases h
        rw [hlibrary _ _ hfound]
        exact fun hkind => by cases hkind

/-! ## The tree of loads -/

/-- A load about to be made. -/
structure LoadPoint where
  text : String
  origin : String
  session : Session

/-- What a load comes to whose own loads nest at most as deep as given. -/
def LoadPoint.run (c : LoadPoint) (L : Linker) (depth : Nat) : Outcome Handle × Session :=
  L.loadWithin depth c.text c.origin c.session

namespace Linker

/-- One load makes another: its document has been opened, some of the references have been
    resolved, and the text of the next one has to be loaded. -/
inductive Triggers (L : Linker) (c : LoadPoint) : LoadPoint → Prop where
  | intro (doc : Document) (t u : Session) (depth i : Nat) (r : Reference) (source : TextSource)
      (text : String) (parsed : Document.parse c.text c.origin = .ok doc)
      (opens : L.Opens doc c.session t)
      (linked : L.linkFirst (L.loadWithin depth) doc c.session.nextHandle i t = (.ok (), u))
      (reference : doc.references[i]? = some r)
      (free : u.registry.findByName? r.name = none)
      (located : L.locateText u.context doc.name r.name = .ok (source, text)) :
      Triggers L c ⟨text, r.name, u.refer c.session.nextHandle r.name source text⟩

/-- A load makes another, directly or by way of loads in between. -/
abbrev Reaches (L : Linker) : LoadPoint → LoadPoint → Prop := Relation.ReflTransGen L.Triggers

/-- The way down from a load comes back to its text. -/
def Reenters (L : Linker) (c c' : LoadPoint) : Prop :=
  Relation.TransGen L.Triggers c c' ∧ c'.text = c.text

variable {L : Linker} {c c' c'' : LoadPoint} {doc : Document} {s t u : Session}

/-- While one load makes another, the assembly of its document alone is being linked, of all
    that have come since. -/
theorem Triggers.frame (h : L.Triggers c c') (hs : c.session.Sound)
    (hparse : Document.parse c.text c.origin = .ok doc) : L.Frame c.session doc c'.session := by
  cases h with
  | intro doc' t u depth i r source text parsed opens linked reference free located =>
    obtain rfl : doc' = doc := Except.ok.inj (parsed.symm.trans hparse)
    have hframe := (L.registersLinked.of_linkFirst parsed opens linked hs).1.1
    exact hframe.update rfl rfl (fun _ => rfl) (fun _ => rfl) (fun _ => rfl) (fun _ => rfl)
      fun _ _ hd => .inl hd

theorem Triggers.opens (h : L.Triggers c c') :
    ∃ doc t, Document.parse c.text c.origin = .ok doc ∧ L.Opens doc c.session t := by
  cases h with
  | intro doc t u depth i r source text parsed opens linked reference free located =>
    exact ⟨doc, t, parsed, opens⟩

/-- What holds of every load of a tree: registry and store fit together, and neither text
    nor session leave what is at hand. -/
structure Within (L : Linker) (texts : List String) (start : Session) (c : LoadPoint) :
    Prop where
  sound : c.session.Sound
  text : c.text ∈ texts
  run : L.Run texts start c.session

section Tree

variable {texts : List String} {start : Session} (hsupplies : L.Supplies texts)
include hsupplies

theorem Triggers.within (h : L.Triggers c c') (hc : L.Within texts start c) :
    L.Within texts start c' := by
  obtain ⟨doc, t, hparse, -⟩ := h.opens
  have hframe := h.frame hc.sound hparse
  cases h with
  | intro doc t u depth i r source text parsed opens linked reference free located =>
    have hrun : L.Run texts start u :=
      ((runs hsupplies start).of_linkFirst parsed opens linked hc.text hc.run).1
    exact ⟨hframe.sound, hrun.located hsupplies located, hrun.congr rfl rfl rfl⟩

theorem Reaches.within (h : L.Reaches c c') (hc : L.Within texts start c) :
    L.Within texts start c' := by
  induction h with
  | refl => exact hc
  | tail _ hlast ih => exact hlast.within hsupplies ih

end Tree

/-! ## On the way down -/

/-- In a session the assembly created for the document of a load is still being linked, and
    what was there before the load is still there. -/
structure StillLinking (L : Linker) (c : LoadPoint) (doc : Document) (t : Session) : Prop where
  own : ∃ a, t.store.get? c.session.nextHandle = some a ∧ a.state = .linking
  store : c.session.store <+: t.store
  entries : ∃ added, t.registry.entries = c.session.registry.entries ++
    ⟨doc.name, L.uidFor doc c.session, c.session.nextHandle⟩ :: added

theorem Frame.stillLinking (h : L.Frame c.session doc t) : L.StillLinking c doc t := by
  obtain ⟨a, ha, hlinking, -⟩ := h.own
  obtain ⟨added, hentries, -⟩ := h.entries
  exact ⟨⟨a, ha, hlinking⟩, h.store, added, hentries⟩

/-- The frames of later loads leave it so. -/
theorem StillLinking.frame {inner : Document} (h : L.StillLinking c doc t)
    (hframe : L.Frame t inner u) : L.StillLinking c doc u := by
  obtain ⟨a, ha, hlinking⟩ := h.own
  obtain ⟨added, hentries⟩ := h.entries
  obtain ⟨added', hentries', -⟩ := hframe.entries
  refine ⟨⟨a, Store.get?_of_prefix hframe.store ha, hlinking⟩, h.store.trans hframe.store, ?_⟩
  exact ⟨_, by rw [hentries', hentries, List.append_assoc, List.cons_append]⟩

theorem stillLinking_of_transGen {texts : List String} {start : Session}
    (hsupplies : L.Supplies texts) (hc : L.Within texts start c)
    (hparse : Document.parse c.text c.origin = .ok doc) (h : Relation.TransGen L.Triggers c c') :
    L.StillLinking c doc c'.session := by
  induction h with
  | single h => exact (h.frame hc.sound hparse).stillLinking
  | @tail b d hpath hlast ih =>
    obtain ⟨inner, -, hinner, -⟩ := hlast.opens
    have hb : L.Within texts start b := Reaches.within hsupplies hpath.to_reflTransGen hc
    exact ih.frame (hlast.frame hb.sound hinner)

/-- Where a load comes back to a text, the assembly that was opened for it is being linked. -/
theorem stillLinking_of_back {texts : List String} {start : Session}
    (hsupplies : L.Supplies texts) (hc : L.Within texts start c)
    (hparse : Document.parse c.text c.origin = .ok doc) (hback : L.Reenters c c') :
    L.Within texts start c' ∧ L.StillLinking c doc c'.session ∧ ∃ t, L.Opens doc c.session t := by
  refine ⟨Reaches.within hsupplies hback.1.to_reflTransGen hc,
    stillLinking_of_transGen hsupplies hc hparse hback.1, ?_⟩
  obtain ⟨b, hfirst, -⟩ := Relation.TransGen.head'_iff.1 hback.1
  obtain ⟨doc', t, hparse', hopens⟩ := hfirst.opens
  obtain rfl : doc' = doc := Except.ok.inj (hparse'.symm.trans hparse)
  exact ⟨t, hopens⟩

theorem StillLinking.isLinking (h : L.StillLinking c doc t) :
    t.isLinking c.session.nextHandle = true := by
  obtain ⟨a, ha, hlinking⟩ := h.own
  simp [Session.isLinking, ha, hlinking]

/-- A document that states its uid is found under it. -/
theorem StillLinking.find?_of_uid (h : L.StillLinking c doc t) (ht : t.Sound)
    (huid : doc.uid ≠ "") :
    t.registry.find? doc.name (L.uidFor doc t) = some c.session.nextHandle := by
  have hsame : ∀ s, L.uidFor doc s = doc.uid := fun s => if_neg huid
  obtain ⟨added, hentries⟩ := h.entries
  rw [hsame] at hentries ⊢
  have hown : (⟨doc.name, doc.uid, c.session.nextHandle⟩ : Entry) ∈ t.registry.entries := by
    rw [hentries]
    exact List.mem_append_right _ List.mem_cons_self
  cases hfind : t.registry.find? doc.name doc.uid with
  | none =>
    have hnot := Registry.find?_eq_none.1 hfind _ hown
    simp [Entry.isFor] at hnot
  | some i =>
    have hmem := Registry.mem_of_find? hfind
    have heq := List.inj_on_of_nodup_map ht.distinct hmem hown rfl
    rw [Entry.mk.injEq] at heq
    rw [heq.2.2]

/-- Where no older assembly has its name, a document is found by it. -/
theorem StillLinking.findByName?_of_free (h : L.StillLinking c doc t)
    (hfree : c.session.registry.findByName? doc.name = none) :
    t.registry.findByName? doc.name = some c.session.nextHandle := by
  obtain ⟨added, hentries⟩ := h.entries
  exact Registry.findByName?_of_free hentries hfree

/-! ## Coming back -/

/-- A uid that is drawn is not found. -/
theorem Within.find?_of_drawn {texts : List String} {start : Session}
    (hc : L.Within texts start c) (hfresh : L.FreshUids texts start) (huid : doc.uid = "") :
    c.session.registry.find? doc.name (L.uidFor doc c.session) = none := by
  rw [Registry.find?_eq_none]
  intro e he
  have hne := hc.run.next_free hfresh e he
  rw [uidFor, if_pos huid]
  simp [Entry.isFor, hne]

section Back

variable {texts : List String} {start : Session} (hsupplies : L.Supplies texts)
  (hfresh : L.FreshUids texts start)
include hsupplies hfresh

/-- A document that is found in either way is not opened again. -/
theorem circular_of_back (hc : L.Within texts start c)
    (hparse : Document.parse c.text c.origin = .ok doc) (hback : L.Reenters c c')
    (hcond : doc.uid = "" → c.session.registry.findByName? doc.name = none) (load : Load) :
    L.accept load doc c'.session =
      (.error (.failed (.circularReference doc.name doc.name)), c'.session.identify doc) := by
  obtain ⟨hc', hstill, t, hopens⟩ := stillLinking_of_back hsupplies hc hparse hback
  have haccepted := L.accepted load doc c'.session
  generalize L.accept load doc c'.session = result at haccepted
  cases haccepted with
  | wrongMode mode => exact absurd hopens.mode mode
  | circular mode linking => rfl
  | known i mode found linked =>
    by_cases huid : doc.uid = ""
    · rw [hc'.find?_of_drawn hfresh huid] at found
      cases found
    · rw [hstill.find?_of_uid hc'.sound huid] at found
      cases found
      rw [hstill.isLinking] at linked
      cases linked
  | opened t' opens =>
    by_cases huid : doc.uid = ""
    · have hunlinked := opens.unlinked
      rw [hstill.findByName?_of_free (hcond huid)] at hunlinked
      simp [hstill.isLinking] at hunlinked
    · have hfound := opens.unregistered
      rw [hstill.find?_of_uid hc'.sound huid] at hfound
      cases hfound

/-- A document without a uid is opened again if it was opened behind an older assembly of its
    name: that one is found in its place. -/
theorem opens_of_back (hc : L.Within texts start c)
    (hparse : Document.parse c.text c.origin = .ok doc) (hback : L.Reenters c c')
    (huid : doc.uid = "") {i : Handle}
    (holder : c.session.registry.findByName? doc.name = some i) :
    ∃ t, L.Opens doc c'.session t := by
  obtain ⟨hc', hstill, t, hopens⟩ := stillLinking_of_back hsupplies hc hparse hback
  refine ⟨_, hopens.mode, hc'.find?_of_drawn hfresh huid, ?_, rfl⟩
  obtain ⟨added, hentries⟩ := hstill.entries
  rw [Registry.findByName?_append hentries holder]
  -- the older assembly was not being linked when the document was opened
  have hidle : c.session.isLinking i = false := by
    have hunlinked := hopens.unlinked
    rwa [holder] at hunlinked
  obtain ⟨-, a, ha, hlinked⟩ :=
    hc.sound.provides (Registry.mem_handles_of_findByName? holder) hidle
  have ha' := Store.get?_of_prefix hstill.store ha
  simp [Session.isLinking, ha', hlinked]

end Back

/-- A document that is opened leaves its assembly in the store, and is not answered with the
    session as it was. -/
theorem Opens.accept_ne (h : L.Opens doc s t) (hs : s.Sound) {text origin : String}
    (hparse : Document.parse text origin = .ok doc) (depth : Nat) (stop : Stop) :
    L.accept (L.loadWithin depth) doc s ≠ (.error stop, s.identify doc) := by
  have hgrown : ∀ u, L.Frame s doc u → s.store.length < (u.leave doc).store.length := by
    intro u hu
    obtain ⟨a, ha, -⟩ := hu.own
    rw [Session.leave_store]
    exact Store.lt_length_of_get? ha
  rw [accept_of_opens _ h]
  rcases hresult : L.link (L.loadWithin depth) doc s.nextHandle t with ⟨stop' | _, u⟩
  · intro heq
    have hsame : ((u.leave doc).record (.abandoned s.nextHandle)).store = (s.identify doc).store :=
      congrArg (·.2.store) heq
    rw [Session.abandoned_store, Session.identify_store] at hsame
    have hlt := hgrown u (L.registersLinked.of_link_error hparse h hresult hs)
    rw [hsame] at hlt
    exact absurd hlt (Nat.lt_irrefl _)
  · intro heq
    cases congrArg Prod.fst heq

/-! ## The depth of the tree -/

/-- Where the recursion is at fault, a load stops that is made for a reference, or a reference is
    found to be still linking. -/
theorem link_stops {depth : Nat} {stop : Stop} (hparse : Document.parse c.text c.origin = .ok doc)
    (hopens : L.Opens doc c.session t)
    (h : (L.link (L.loadWithin depth) doc c.session.nextHandle t).1 = .error stop)
    (hrecursion : stop.OfRecursion) :
    (∃ c', L.Triggers c c' ∧ (c'.run L depth).1 = .error stop) ∨
    ∃ i u r d, L.linkFirst (L.loadWithin depth) doc c.session.nextHandle i t = (.ok (), u) ∧
      doc.references[i]? = some r ∧ u.registry.findByName? r.name = some d ∧
      (u.record (.referenceAdded c.session.nextHandle r.name)).isLinking d = true ∧
      stop = .failed (.circularReference doc.name r.name) := by
  rcases hlink : L.link (L.loadWithin depth) doc c.session.nextHandle t with ⟨stop' | _, v⟩
  · rw [hlink] at h
    obtain rfl : stop' = stop := Except.error.inj h
    -- harvesting and building load nothing, so that only the references can be at fault
    cases L.stopped hlink with
    | atPayload harvested =>
      exact absurd hrecursion (staysShallow_harvest doc t stop' (congrArg Prod.fst harvested))
    | @atReference i u _ r _ linked reference resolved =>
      have hresolved := L.resolved (L.loadWithin depth) doc.name c.session.nextHandle r u
      rw [resolved] at hresolved
      cases hresolved with
      | circular d found linking => exact .inr ⟨i, u, r, d, linked, reference, found, linking, rfl⟩
      | absent e free located => exact absurd hrecursion (locateText_kind located)
      | stopped source text _ _ free located loaded =>
        exact .inl ⟨_, .intro doc t u depth i r source text hparse hopens linked reference free
          located, congrArg Prod.fst loaded⟩
    | atModule _ built =>
      exact absurd hrecursion (staysShallow_buildModules _ _ _ _ (congrArg Prod.fst built))
  · rw [hlink] at h
    cases h

/-- Linking nests too deep only if a load that it makes does. -/
theorem exists_trigger_of_tooDeep {depth : Nat} (hparse : Document.parse c.text c.origin = .ok doc)
    (hopens : L.Opens doc c.session t)
    (h : (L.link (L.loadWithin depth) doc c.session.nextHandle t).1 = .error .tooDeep) :
    ∃ c', L.Triggers c c' ∧ (c'.run L depth).1 = .error .tooDeep := by
  rcases link_stops hparse hopens h trivial with htrigger | ⟨_, _, _, _, _, _, _, _, hstop⟩
  · exact htrigger
  · cases hstop

/-- If no way down opens a text again, loads nest no deeper than there are texts: the texts
    on a way down are different from each other. -/
theorem run_ne_tooDeep {texts : List String} {start : Session} (hsupplies : L.Supplies texts)
    {root : LoadPoint} (hroot : L.Within texts start root)
    (hback : ∀ a c doc t, L.Reaches root a → L.Reenters a c →
      Document.parse c.text c.origin = .ok doc → ¬ L.Opens doc c.session t) (depth : Nat) :
    ∀ (c : LoadPoint) (way : List LoadPoint), L.Reaches root c →
      (∀ a ∈ way, L.Reaches root a ∧ Relation.TransGen L.Triggers a c) →
      (way.map (·.text)).Nodup → texts.length < depth + way.length →
      (c.run L depth).1 ≠ .error .tooDeep := by
  induction depth with
  | zero =>
    intro c way hc hway hnodup hlt
    -- there are not so many texts that none would be left
    have hsubset : way.map (·.text) ⊆ texts := by
      intro text htext
      obtain ⟨a, ha, rfl⟩ := List.mem_map.1 htext
      exact (Reaches.within hsupplies (hway a ha).1 hroot).text
    have hle := hnodup.length_le_of_subset hsubset
    rw [List.length_map] at hle
    omega
  | succ depth ih =>
    intro c way hc hway hnodup hlt
    unfold LoadPoint.run loadWithin
    cases hparse : Document.parse c.text c.origin with
    | error e => exact fun h => by cases h
    | ok doc =>
      have haccepted := L.accepted (L.loadWithin depth) doc c.session
      show (L.accept (L.loadWithin depth) doc c.session).1 ≠ _
      generalize L.accept (L.loadWithin depth) doc c.session = result at haccepted
      cases haccepted with
      | wrongMode mode => exact fun h => by cases h
      | circular mode linking => exact fun h => by cases h
      | known i mode found linked => exact fun h => by cases h
      | opened t opens =>
        intro htooDeep
        obtain ⟨c', htrigger, hrun⟩ :=
          exists_trigger_of_tooDeep hparse opens (linking_stops htooDeep)
        refine ih c' (c :: way) (hc.tail htrigger) (fun a ha => ?_) ?_ (by simp; omega) hrun
        · rcases List.mem_cons.1 ha with rfl | ha
          · exact ⟨hc, .single htrigger⟩
          · exact ⟨(hway a ha).1, (hway a ha).2.tail htrigger⟩
        · rw [List.map_cons, List.nodup_cons]
          refine ⟨fun hmem => ?_, hnodup⟩
          obtain ⟨a, ha, htext⟩ := List.mem_map.1 hmem
          exact hback a c doc t (hway a ha).1 ⟨(hway a ha).2, htext.symm⟩ hparse opens

end Linker

/-- The load that is asked for in a session. -/
def LoadRequest.point (r : LoadRequest) (s : Session) : LoadPoint :=
  ⟨r.text, r.origin, { s with context := r.context }⟩

/-- The texts that the load that is asked for may come upon. -/
def LoadRequest.texts (r : LoadRequest) : List String :=
  r.linker.textsAtHand r.context r.text

theorem LoadRequest.supplies_texts (r : LoadRequest) : r.linker.Supplies r.texts :=
  r.linker.supplies_textsAtHand r.context r.text

/-- A load that begins where registry and store fit together begins with its own texts. -/
theorem LoadRequest.within_of_sound (r : LoadRequest) {s : Session} (hs : s.Sound) :
    r.linker.Within r.texts (r.point s).session (r.point s) := by
  refine ⟨⟨hs.distinct, hs.stored⟩, Linker.root_mem_textsAtHand _ _, ?_, ?_, ?_⟩
  · exact fun text htext => Linker.context_mem_textsAtHand _ _ htext
  · exact Nat.le_refl _
  · exact fun e he => .inl ⟨e, he, rfl⟩

theorem LoadRequest.within_point (r : LoadRequest) (earlier : List LoadRequest) :
    r.linker.Within r.texts (r.point (Session.after earlier)).session
      (r.point (Session.after earlier)) :=
  r.within_of_sound (Session.after_settled earlier).1

/-- After any series of loads, and with fresh uids: a load comes to an end however deep loads
    may nest, as long as they may nest deeper than there are texts, and each way back to a
    document that is still being linked is answered with a circular reference, if and only
    if no document without a uid that a way comes back to is opened behind an older assembly
    of its name. -/
theorem recursion_stops_iff (earlier : List LoadRequest) (r : LoadRequest)
    (hfresh : r.linker.FreshUids r.texts (r.point (Session.after earlier)).session) :
    let root := r.point (Session.after earlier)
    ((∀ depth, r.texts.length < depth → (root.run r.linker depth).1 ≠ .error .tooDeep) ∧
      ∀ c c' doc, r.linker.Reaches root c → r.linker.Reenters c c' →
        Document.parse c.text c.origin = .ok doc → ∀ depth, c'.run r.linker (depth + 1) =
          (.error (.failed (.circularReference doc.name doc.name)), c'.session.identify doc)) ↔
    ∀ c c' doc, r.linker.Reaches root c → r.linker.Reenters c c' →
      Document.parse c.text c.origin = .ok doc → doc.uid = "" →
        c.session.registry.findByName? doc.name = none := by
  intro root
  have hsupplies := r.supplies_texts
  have hroot := r.within_point earlier
  constructor
  · rintro ⟨-, hcircular⟩ c c' doc hreach hback hparse huid
    have hc := Linker.Reaches.within hsupplies hreach hroot
    have hc' := Linker.Reaches.within hsupplies hback.1.to_reflTransGen hc
    cases holder : c.session.registry.findByName? doc.name with
    | none => rfl
    | some i =>
      obtain ⟨t, hopens⟩ := Linker.opens_of_back hsupplies hfresh hc hparse hback huid holder
      have hparse' : Document.parse c'.text c'.origin = .ok doc := by
        rw [hback.2]
        exact Document.parse_origin hparse c'.origin
      have hrun := hcircular c c' doc hreach hback hparse 0
      unfold LoadPoint.run Linker.loadWithin at hrun
      rw [hparse'] at hrun
      exact absurd hrun (hopens.accept_ne hc'.sound hparse' 0 _)
  · intro hfree
    have hanswer : ∀ c c' doc, r.linker.Reaches root c → r.linker.Reenters c c' →
        Document.parse c.text c.origin = .ok doc → ∀ load, r.linker.accept load doc c'.session =
          (.error (.failed (.circularReference doc.name doc.name)), c'.session.identify doc) := by
      intro c c' doc hreach hback hparse load
      have hc := Linker.Reaches.within hsupplies hreach hroot
      exact Linker.circular_of_back hsupplies hfresh hc hparse hback
        (hfree c c' doc hreach hback hparse) load
    refine ⟨fun depth hdepth => ?_, fun c c' doc hreach hback hparse depth => ?_⟩
    · apply Linker.run_ne_tooDeep hsupplies hroot ?_ depth root [] .refl ?_ List.nodup_nil hdepth
      · intro a c doc t hreach hback hparse hopens
        have hparse' : Document.parse a.text a.origin = .ok doc := by
          rw [← hback.2]
          exact Document.parse_origin hparse a.origin
        have ha := Linker.Reaches.within hsupplies hreach hroot
        have hc := Linker.Reaches.within hsupplies hback.1.to_reflTransGen ha
        exact hopens.accept_ne hc.sound hparse 0 _
          (hanswer a c doc hreach hback hparse' _)
      · intro a ha
        cases ha
    · have hparse' : Document.parse c'.text c'.origin = .ok doc := by
        rw [hback.2]
        exact Document.parse_origin hparse c'.origin
      unfold LoadPoint.run Linker.loadWithin
      rw [hparse']
      exact hanswer c c' doc hreach hback hparse _

/-! ### Two loads that come back -/

/-- A document without a uid, modules and payloads. -/
def bareDocument (name : String) (references : List String) : Document :=
  { name, version := "1", loomConfig := "", jit := false,
    references := references.map ({ name := · }), modules := [] }

theorem parse_bareDocument (name : String) (references : List String) (origin : String) :
    Document.parse (bareDocument name references).render origin =
      .ok (bareDocument name references) := by
  have hreadable : (bareDocument name references).Readable := fun j hj => by cases hj
  exact Document.parse_render hreadable origin

theorem payloadTexts_bareDocument (name : String) (references : List String) :
    payloadTexts (bareDocument name references).render = [] := by
  apply payloadTexts_eq_nil (parse_bareDocument name references "")
  intro r hr
  obtain ⟨reference, -, rfl⟩ := List.mem_map.1 hr
  rfl

/-- Uids of one, two, three letters and so on. -/
def unaryUids : UidStream := fun n => String.ofList (List.replicate (n + 1) 'u')

theorem unaryUids_ne {m n : Nat} (h : m < n) : unaryUids m ≠ unaryUids n := by
  intro heq
  have hlength := congrArg String.length heq
  simp only [unaryUids, String.length_ofList, List.length_replicate] at hlength
  omega

/-- A first load with such uids.  The bootstrap has a document of some name and references
    under each key. -/
def bareRequest (provided : List (String × String × List String)) (name : String)
    (references : List String) : LoadRequest :=
  { linker := { uids := unaryUids },
    context :=
      { bootstrap := some (provided.map fun p => (p.1, (bareDocument p.2.1 p.2.2).render)) },
    text := (bareDocument name references).render,
    origin := "" }

section Bare

variable (provided : List (String × String × List String)) (name : String)
  (references : List String)

theorem mem_bareRequest_texts {text : String}
    (h : text ∈ (bareRequest provided name references).texts) :
    text = (bareDocument name references).render ∨
      ∃ p ∈ provided, text = (bareDocument p.2.1 p.2.2).render := by
  have hthere : ∀ text ∈ (bareDocument name references).render :: ((bareRequest provided name
      references).context.texts ++ (bareRequest provided name references).linker.files.texts),
      text = (bareDocument name references).render ∨
        ∃ p ∈ provided, text = (bareDocument p.2.1 p.2.2).render := by
    intro text htext
    rcases List.mem_cons.1 htext with rfl | htext
    · exact .inl rfl
    · have hmem : ∃ p ∈ provided, (bareDocument p.2.1 p.2.2).render = text := by
        simpa [bareRequest, LoadContext.texts, FileSystem.texts] using htext
      obtain ⟨p, hp, rfl⟩ := hmem
      exact .inr ⟨p, hp, rfl⟩
  have htexts := Linker.textsAtHand_of_nil fun text htext => by
    rcases hthere text htext with rfl | ⟨p, -, rfl⟩ <;> exact payloadTexts_bareDocument _ _
  exact hthere text (htexts ▸ h)

theorem freshUids_bareRequest : (bareRequest provided name references).linker.FreshUids
    (bareRequest provided name references).texts
    ((bareRequest provided name references).point {}).session := by
  refine ⟨fun m n _ hlt => unaryUids_ne hlt, fun n _ e he => (by cases he), fun n _ hstated => ?_⟩
  obtain ⟨huid, text, htext, doc, hparse, hdoc⟩ := hstated
  have hbare : ∃ name references, text = (bareDocument name references).render := by
    rcases mem_bareRequest_texts provided name references htext with h | ⟨p, -, h⟩
    · exact ⟨_, _, h⟩
    · exact ⟨_, _, h⟩
  obtain ⟨name', references', rfl⟩ := hbare
  rw [parse_bareDocument] at hparse
  cases hparse
  exact huid hdoc.symm

end Bare

/-- A library that refers to itself by another name. -/
def aliasRequest : LoadRequest := bareRequest [("alias", "Real", ["alias"])] "Real" ["alias"]

theorem aliasRequest_text {text : String} (h : text ∈ aliasRequest.texts) :
    text = (bareDocument "Real" ["alias"]).render := by
  rcases mem_bareRequest_texts _ _ _ h with h | ⟨p, hp, h⟩
  · exact h
  · obtain rfl := List.mem_singleton.1 hp
    exact h

/-- The way back to the library ends there. -/
theorem alias_cycle_stops :
    (∀ depth, aliasRequest.texts.length < depth →
      ((aliasRequest.point {}).run aliasRequest.linker depth).1 ≠ .error .tooDeep) ∧
    ∀ c c' doc, aliasRequest.linker.Reaches (aliasRequest.point {}) c →
      aliasRequest.linker.Reenters c c' → Document.parse c.text c.origin = .ok doc →
      ∀ depth, c'.run aliasRequest.linker (depth + 1) =
        (.error (.failed (.circularReference doc.name doc.name)), c'.session.identify doc) := by
  have hfresh : aliasRequest.linker.FreshUids aliasRequest.texts (aliasRequest.point {}).session :=
    freshUids_bareRequest _ _ _
  have hsupplies := aliasRequest.supplies_texts
  have hroot := aliasRequest.within_point []
  apply (recursion_stops_iff [] aliasRequest hfresh).2
  intro c c' doc hreach hback hparse huid
  rcases Relation.reflTransGen_iff_eq_or_transGen.1 hreach with rfl | hpath
  · rfl
  -- a load further down would be a way back to the root, which is not opened again
  · have hc := Linker.Reaches.within hsupplies hreach hroot
    have hagain : aliasRequest.linker.Reenters (aliasRequest.point (Session.after [])) c :=
      ⟨hpath, aliasRequest_text hc.text⟩
    obtain ⟨b, hfirst, -⟩ := Relation.TransGen.head'_iff.1 hback.1
    obtain ⟨doc', t, hparse', hopens⟩ := hfirst.opens
    have hroot' : Document.parse (aliasRequest.point (Session.after [])).text "" = .ok doc' := by
      rw [← hagain.2]
      exact Document.parse_origin hparse' ""
    exact absurd (Linker.circular_of_back hsupplies hfresh hroot hroot' hagain (fun _ => rfl) _)
      (hopens.accept_ne hc.sound hparse' 0 _)

/-- A load whose document is opened stops where one of its references does. -/
theorem Linker.accept_of_stuck {L : Linker} {load : Load} {doc : Document} {s t u : Session}
    (hopens : L.Opens doc s t) {i : Nat} {r : Reference}
    (hlinked : L.linkFirst load doc s.nextHandle i t = (.ok (), u))
    (hreference : doc.references[i]? = some r) {source : TextSource} {text : String} {stop : Stop}
    (hfree : u.registry.findByName? r.name = none)
    (hlocated : L.locateText u.context doc.name r.name = .ok (source, text))
    (hload : (load text r.name (u.refer s.nextHandle r.name source text)).1 = .error stop) :
    (L.accept load doc s).1 = .error stop := by
  have hstuck : load text r.name (u.refer s.nextHandle r.name source text) =
      (.error stop, (load text r.name (u.refer s.nextHandle r.name source text)).2) :=
    Prod.ext hload rfl
  have hresolved := L.linkReference_of_stuck load s.nextHandle r hfree hlocated hstuck
  rw [L.accept_of_stopped hopens (L.link_of_linkFirst hlinked hreference hresolved)]

section Endless

variable {main older inner : String}

/-- A linker with uids that count up. -/
def unaryLinker : Linker := { uids := unaryUids }

/-- A context that provides two libraries. -/
def pairContext (older inner : String) : LoadContext :=
  { bootstrap := some [("A", older), ("B", inner)] }

/-- The older library is linked, nothing goes by the name of the reference, and the uids are
    drawn ones. -/
structure Trapped (older inner : String) (s : Session) : Prop where
  context : s.context = pairContext older inner
  older : ∃ i a, s.registry.findByName? "A" = some i ∧ s.store.get? i = some a ∧
    a.state = .linked
  free : s.registry.findByName? "B" = none
  drawn : ∀ e ∈ s.registry.entries, ∃ n < s.uidsDrawn, e.uid = unaryUids n

namespace Trapped

variable {s : Session}

/-- In such a session the library is opened. -/
theorem opens (h : Trapped older inner s) :
    ∃ t, unaryLinker.Opens (bareDocument "A" ["B"]) s t := by
  refine ⟨_, rfl, ?_, ?_, rfl⟩
  · rw [Registry.find?_eq_none]
    intro e he
    obtain ⟨n, hlt, huid⟩ := h.drawn e he
    have hne : e.uid ≠ unaryUids s.uidsDrawn := huid ▸ unaryUids_ne hlt
    have hnext : unaryLinker.uidFor (bareDocument "A" ["B"]) s = unaryUids s.uidsDrawn := rfl
    rw [hnext]
    simp [Entry.isFor, hne]
  · obtain ⟨i, a, hfind, ha, hlinked⟩ := h.older
    show (s.registry.findByName? "A").any s.isLinking = false
    rw [hfind]
    simp [Session.isLinking, ha, hlinked]

/-- And its reference leads to such a session again. -/
theorem refer (h : Trapped older inner s) {t : Session}
    (hopens : unaryLinker.Opens (bareDocument "A" ["B"]) s t) (source : TextSource)
    (text : String) : Trapped older inner (t.refer s.nextHandle "B" source text) := by
  have hentries : (t.refer s.nextHandle "B" source text).registry.entries = s.registry.entries ++
      [⟨"A", unaryUids s.uidsDrawn, s.nextHandle⟩] := hopens.entries
  have hstore : (t.refer s.nextHandle "B" source text).store =
      t.store.update s.nextHandle (·.addReference "B") := rfl
  have hdrawn : (t.refer s.nextHandle "B" source text).uidsDrawn = s.uidsDrawn + 1 := by
    show t.uidsDrawn = _
    rw [hopens.session]
    rfl
  -- the new entry stands behind the older one of its name, under the next uid
  refine ⟨hopens.context.trans h.context, ?_, ?_, fun e he => ?_⟩
  · obtain ⟨i, a, hfind, ha, hlinked⟩ := h.older
    refine ⟨i, a, Registry.findByName?_append hentries hfind, ?_, hlinked⟩
    have hne : i ≠ s.nextHandle := Nat.ne_of_lt (Store.lt_length_of_get? ha)
    rw [hstore, Store.get?_update_ne _ _ hne, hopens.store]
    exact Store.get?_of_prefix (List.prefix_append _ _) ha
  · rw [Registry.findByName?_eq_none]
    intro e he
    rw [hentries] at he
    rcases List.mem_append.1 he with he | he
    · exact Registry.findByName?_eq_none.1 h.free e he
    · obtain rfl := List.mem_singleton.1 he
      show "A" ≠ "B"
      decide
  · rw [hentries] at he
    rw [hdrawn]
    rcases List.mem_append.1 he with he | he
    · obtain ⟨n, hlt, huid⟩ := h.drawn e he
      exact ⟨n, Nat.lt_succ_of_lt hlt, huid⟩
    · obtain rfl := List.mem_singleton.1 he
      exact ⟨s.uidsDrawn, Nat.lt_succ_self _, rfl⟩

/-- A load of the library in such a session does not end, however deep loads may nest. -/
theorem tooDeep (hinner : ∀ origin, Document.parse inner origin = .ok (bareDocument "A" ["B"]))
    (depth : Nat) : ∀ s : Session, Trapped older inner s →
      (unaryLinker.loadWithin depth inner "B" s).1 = .error .tooDeep := by
  induction depth with
  | zero => exact fun s _ => rfl
  | succ depth ih =>
    intro s hs
    obtain ⟨t, hopens⟩ := hs.opens
    have hnext := hs.refer hopens .bootstrap inner
    have hcontext : t.context = pairContext older inner := hopens.context.trans hs.context
    have hlocated : unaryLinker.locateText t.context "A" "B" = .ok (.bootstrap, inner) := by
      rw [hcontext]
      rfl
    unfold Linker.loadWithin
    rw [hinner]
    exact Linker.accept_of_stuck (i := 0) hopens rfl rfl hnext.free hlocated (ih _ hnext)

end Trapped

/-- The session in which the root has been created. -/
def rootCreated (older inner : String) : Session :=
  (({ context := pairContext older inner } : Session).identify
    (bareDocument "Main" ["A", "B"])).record
      (.created (Linker.newAssembly (bareDocument "Main" ["A", "B"]) (unaryUids 0)))

theorem opens_root : unaryLinker.Opens (bareDocument "Main" ["A", "B"])
    { context := pairContext older inner } (rootCreated older inner) :=
  ⟨rfl, rfl, rfl, rfl⟩

/-- The session after the first reference of the root. -/
def olderLinked (older inner : String) (depth : Nat) : Session :=
  (unaryLinker.accept (unaryLinker.loadWithin depth) (bareDocument "A" [])
    ((rootCreated older inner).refer 0 "A" .bootstrap older)).2.record (.dependencyAdded 0 1)

theorem trapped_olderLinked (depth : Nat) :
    Trapped older inner ((olderLinked older inner depth).refer 0 "B" .bootstrap inner) := by
  refine ⟨rfl, ⟨1, _, rfl, rfl, rfl⟩, rfl, fun e he => ?_⟩
  have he : e ∈ [⟨"Main", unaryUids 0, 0⟩, ⟨"A", unaryUids 1, 1⟩] := he
  show ∃ n < 2, e.uid = unaryUids n
  rcases List.mem_cons.1 he with rfl | he
  · exact ⟨0, by decide, rfl⟩
  · obtain rfl := List.mem_singleton.1 he
    exact ⟨1, by decide, rfl⟩

theorem linkReference_older
    (holder : ∀ origin, Document.parse older origin = .ok (bareDocument "A" [])) (depth : Nat) :
    unaryLinker.linkReference (unaryLinker.loadWithin (depth + 1)) "Main" 0 { name := "A" }
      (rootCreated older inner) = (.ok (), olderLinked older inner depth) := by
  have hlocated : unaryLinker.locateText (rootCreated older inner).context "Main" "A" =
      .ok (.bootstrap, older) := rfl
  rw [Linker.linkReference_of_located _ _ _ _ rfl hlocated]
  unfold Linker.loadWithin
  rw [holder]
  rfl

theorem accept_root_tooDeep
    (holder : ∀ origin, Document.parse older origin = .ok (bareDocument "A" []))
    (hinner : ∀ origin, Document.parse inner origin = .ok (bareDocument "A" ["B"])) (depth : Nat) :
    (unaryLinker.accept (unaryLinker.loadWithin depth) (bareDocument "Main" ["A", "B"])
      { context := pairContext older inner }).1 = .error .tooDeep := by
  cases depth with
  | zero =>
    -- the first reference cannot be loaded at all
    exact Linker.accept_of_stuck (i := 0) opens_root rfl rfl rfl rfl rfl
  | succ depth =>
    have hfirst : unaryLinker.linkFirst (unaryLinker.loadWithin (depth + 1))
        (bareDocument "Main" ["A", "B"]) 0 1 (rootCreated older inner) =
          (.ok (), olderLinked older inner depth) := by
      show Action.forEach (unaryLinker.linkReference _ "Main" 0) [{ name := "A" }] _ = _
      rw [Action.forEach, Action.andThen_of_ok (linkReference_older holder depth)]
      rfl
    exact Linker.accept_of_stuck opens_root hfirst rfl rfl rfl
      (Trapped.tooDeep hinner (depth + 1) _ (trapped_olderLinked depth))

end Endless

/-- A library that is found behind another one of its name, and refers to itself. -/
def endlessRequest : LoadRequest :=
  bareRequest [("A", "A", []), ("B", "A", ["B"])] "Main" ["A", "B"]

/-- The uids are fresh, and loads nest without an end. -/
theorem endless_recursion :
    endlessRequest.linker.FreshUids endlessRequest.texts (endlessRequest.point {}).session ∧
    ∀ depth, ((endlessRequest.point {}).run endlessRequest.linker depth).1 = .error .tooDeep := by
  refine ⟨freshUids_bareRequest _ _ _, fun depth => ?_⟩
  cases depth with
  | zero => rfl
  | succ depth =>
    have hparse : Document.parse (endlessRequest.point {}).text (endlessRequest.point {}).origin =
        .ok (bareDocument "Main" ["A", "B"]) := parse_bareDocument _ _ _
    have hsession : (endlessRequest.point {}).session =
        { context := pairContext (bareDocument "A" []).render (bareDocument "A" ["B"]).render } :=
      rfl
    have hlinker : endlessRequest.linker = unaryLinker := rfl
    rw [LoadPoint.run, hsession, hlinker, Linker.loadWithin, hparse]
    exact accept_root_tooDeep (parse_bareDocument "A" []) (parse_bareDocument "A" ["B"]) depth

end AssemblyLinker
