import AssemblyLinker.Proofs.Loading.Occurrences
import AssemblyLinker.Proofs.Loading.Texts

/-! # The reasons of links

    A reference is linked to the first assembly that goes by its name, or to the assembly of
    the text that has been found for it (`Session.Accounted`).  The events of a load keep it
    so: what concerns the links is that a dependency is added (`Accounted.dependencyAdded`),
    and all others leave them alone.

    Two links with their reasons in hand can be compared (`Accounted.eq_iff`).
-/

namespace AssemblyLinker

open Linker

namespace Session

/-! ## What is known about a link -/

/-- The assembly of a handle goes by a name. -/
def GoesBy (s : Session) (d : Handle) (name : String) : Prop :=
  ∃ a, s.store.get? d = some a ∧ a.name = name

/-- A handle stands for the assembly of a document: it is registered under the name of the document
    and under the uid that this states, or else under one that no text states. -/
def StandsFor (s : Session) (texts : List String) (d : Handle) (doc : Document) : Prop :=
  ∃ uid, (⟨doc.name, uid, d⟩ : Entry) ∈ s.registry.entries ∧ (doc.uid ≠ "" → uid = doc.uid) ∧
    (doc.uid = "" → ¬ StatesUid texts uid)

/-- Every link has its reason.

    * A link to an assembly of the name of the reference is one to the first such assembly.
    * For any other one a text has been found.
    * Where a text has been found, the link is to the assembly of its document.
    * If this document states no uid, the text found for no other link is that of the assembly. -/
structure Accounted (texts : List String) (s : Session) : Prop where
  byName : ∀ {h i name d}, s.LinkedAt h i name d → s.GoesBy d name →
    s.registry.findByName? name = some d
  located : ∀ {h i name d}, s.LinkedAt h i name d → ¬ s.GoesBy d name → ∃ text, s.FoundAt h i text
  found : ∀ {h i name d text}, s.LinkedAt h i name d → s.FoundAt h i text →
    ∃ doc, Document.parse text "" = .ok doc ∧ s.StandsFor texts d doc
  alone : ∀ {h i name d text doc h' i' name' text'}, s.LinkedAt h i name d → s.FoundAt h i text →
    Document.parse text "" = .ok doc → doc.uid = "" → s.LinkedAt h' i' name' d →
    s.FoundAt h' i' text' → h' = h ∧ i' = i

variable {texts : List String} {s t u : Session} {e : Event} {h d : Handle} {i : Nat}
  {name text : String} {doc : Document}

theorem goesBy_of_entry (hs : s.Sound) {uid : String}
    (he : (⟨name, uid, d⟩ : Entry) ∈ s.registry.entries) : s.GoesBy d name := by
  obtain ⟨a, ha, hname, -⟩ := hs.stored _ he
  exact ⟨a, ha, hname⟩

/-- A handle is registered under one name and uid. -/
theorem Sound.key_eq (hs : s.Sound) {e e' : Entry} (he : e ∈ s.registry.entries)
    (he' : e' ∈ s.registry.entries) (hhandle : e.handle = e'.handle) :
    e.name = e'.name ∧ e.uid = e'.uid := by
  obtain ⟨a, ha, hname, huid⟩ := hs.stored e he
  obtain ⟨b, hb, hname', huid'⟩ := hs.stored e' he'
  obtain rfl : a = b := Option.some.inj (ha.symm.trans (hhandle ▸ hb))
  exact ⟨hname.symm.trans hname', huid.symm.trans huid'⟩

/-- A uid that a text states is not one that was drawn for another one. -/
theorem StandsFor.uid_ne (hs : s.Sound) {doc' : Document} (hd : s.StandsFor texts d doc)
    (hd' : s.StandsFor texts d doc') (hstated : StatesUid texts doc.uid) : doc'.uid ≠ "" := by
  obtain ⟨uid, he, huid, -⟩ := hd
  obtain ⟨uid', he', -, hdrawn⟩ := hd'
  intro hempty
  obtain ⟨-, rfl : uid = uid'⟩ := hs.key_eq he he' rfl
  exact hdrawn hempty (huid hstated.1 ▸ hstated)

/-- One name and one uid that is stated make one handle. -/
theorem StandsFor.handle_eq (hs : s.Sound) {d' : Handle} {doc' : Document}
    (hd : s.StandsFor texts d doc) (hd' : s.StandsFor texts d' doc') (hname : doc.name = doc'.name)
    (huid : doc.uid = doc'.uid) (hstated : doc.uid ≠ "") : d = d' := by
  obtain ⟨uid, he, heq, -⟩ := hd
  obtain ⟨uid', he', heq', -⟩ := hd'
  have hkey : Entry.key ⟨doc.name, uid, d⟩ = Entry.key ⟨doc'.name, uid', d'⟩ := by
    simp only [Entry.key, hname, heq hstated, heq' (huid ▸ hstated), huid]
  exact congrArg Entry.handle (List.inj_on_of_nodup_map hs.distinct he he' hkey)

theorem StandsFor.mono {added : List Entry} (hd : s.StandsFor texts d doc)
    (hentries : t.registry.entries = s.registry.entries ++ added) : t.StandsFor texts d doc := by
  obtain ⟨uid, he, huid⟩ := hd
  exact ⟨uid, hentries ▸ List.mem_append_left added he, huid⟩

/-- What is known stays known where there are no other links, and neither names nor texts of those
    that there are change. -/
theorem Accounted.mono {added : List Entry} (hs : s.Accounted texts)
    (hlinks : ∀ {h i name d}, t.LinkedAt h i name d → s.LinkedAt h i name d)
    (hnames : ∀ {h i name d}, s.LinkedAt h i name d → (t.GoesBy d name ↔ s.GoesBy d name))
    (hfound : ∀ {h i name d text}, s.LinkedAt h i name d →
      (t.FoundAt h i text ↔ s.FoundAt h i text))
    (hentries : t.registry.entries = s.registry.entries ++ added) : t.Accounted texts where
  byName hlink hname := Registry.findByName?_append hentries
    (hs.byName (hlinks hlink) ((hnames (hlinks hlink)).1 hname))
  located hlink hname := by
    obtain ⟨text, htext⟩ := hs.located (hlinks hlink) fun h => hname ((hnames (hlinks hlink)).2 h)
    exact ⟨text, (hfound (hlinks hlink)).2 htext⟩
  found hlink htext := by
    obtain ⟨doc, hparse, hd⟩ := hs.found (hlinks hlink) ((hfound (hlinks hlink)).1 htext)
    exact ⟨doc, hparse, hd.mono hentries⟩
  alone hlink htext hparse huid hlink' htext' :=
    hs.alone (hlinks hlink) ((hfound (hlinks hlink)).1 htext) hparse huid (hlinks hlink')
      ((hfound (hlinks hlink')).1 htext')

theorem Changed.goesBy_iff {g : Handle} {f : Assembly → Assembly} (ht : s.Changed g f t)
    (hf : ∀ a, (f a).name = a.name) : t.GoesBy d name ↔ s.GoesBy d name := by
  unfold GoesBy
  by_cases hd : d = g
  · subst hd
    rw [ht.store, Store.get?_update_self]
    constructor
    · rintro ⟨a, ha, hname⟩
      obtain ⟨b, hb, rfl⟩ := Option.map_eq_some_iff.1 ha
      exact ⟨b, hb, (hf b).symm.trans hname⟩
    · rintro ⟨a, ha, hname⟩
      exact ⟨f a, by rw [ha]; rfl, (hf a).trans hname⟩
  · rw [ht.get?_ne hd]

/-- An event that neither links anything nor finds a text. -/
theorem Accounted.record_changed {g : Handle} {f : Assembly → Assembly} (hs : s.Accounted texts)
    (ht : s.Changed g f (s.record e)) (hname : ∀ a, (f a).name = a.name)
    (hreferences : ∀ a, (f a).references = a.references)
    (hdependencies : ∀ a, (f a).dependencies = a.dependencies) (he : e.findsText = false) :
    (s.record e).Accounted texts := by
  refine hs.mono (fun hlink => ?_) (fun _ => ht.goesBy_iff hname) (fun _ => foundAt_record he)
    (by rw [ht.registry, List.append_nil])
  refine ht.linkedAt (fun a _ i name d hi hd => ?_) hlink
  rw [hreferences] at hi
  rw [hdependencies] at hd
  exact ⟨hi, hd⟩

/-- An event that changes no assembly, and finds no text. -/
theorem Accounted.record_same (hs : s.Accounted texts) (hstore : (s.record e).store = s.store)
    (hregistry : (s.record e).registry = s.registry) (he : e.findsText = false) :
    (s.record e).Accounted texts := by
  have hlinks : ∀ {h i name d}, (s.record e).LinkedAt h i name d ↔ s.LinkedAt h i name d := by
    intro h i name d
    unfold LinkedAt
    rw [hstore]
  have hnames : ∀ {d name}, (s.record e).GoesBy d name ↔ s.GoesBy d name := by
    intro d name
    unfold GoesBy
    rw [hstore]
  exact hs.mono hlinks.1 (fun _ => hnames) (fun _ => foundAt_record he)
    (by rw [hregistry, List.append_nil])

theorem Accounted.identify (hs : s.Accounted texts) (doc : Document) :
    (s.identify doc).Accounted texts := by
  unfold Session.identify
  split
  · exact hs.record_same rfl rfl rfl
  · exact hs

theorem Accounted.leave (hs : s.Accounted texts) (doc : Document) :
    (s.leave doc).Accounted texts := by
  unfold Session.leave
  split
  · exact hs.record_same rfl rfl rfl
  · exact hs

theorem Accounted.declare (hs : s.Accounted texts) {a : Assembly} (ha : s.store.get? h = some a)
    (j : Json) : (s.declare h j).2.Accounted texts := by
  obtain ⟨modules, hdeclare⟩ := declare_records ha j
  rw [hdeclare]
  exact hs.record_changed (s.declareCalled_changed h modules) (fun _ => rfl) (fun _ => rfl)
    (fun _ => rfl) rfl

theorem Accounted.define (hs : s.Accounted texts) {a : Assembly} (ha : s.store.get? h = some a)
    (j : Json) : (s.define h j).2.Accounted texts := by
  obtain ⟨modules, hdefine⟩ := define_records ha j
  rw [hdefine]
  exact hs.record_changed (s.defineCalled_changed h modules) (fun _ => rfl) (fun _ => rfl)
    (fun _ => rfl) rfl

/-- A new assembly has no links yet. -/
theorem Accounted.opens {L : Linker} (hs : s.Accounted texts) (hordered : s.Ordered)
    (hopens : L.Opens doc s t) : t.Accounted texts := by
  have hgrown : s.store <+: t.store := hopens.store ▸ List.prefix_append _ _
  have hhistory : ∀ {h i text}, t.FoundAt h i text ↔ s.FoundAt h i text := by
    intro h i text
    rw [hopens.session, foundAt_record rfl, Session.identify]
    split
    · exact foundAt_record rfl
    · exact Iff.rfl
  refine hs.mono (fun {h i name d} hlink => ?_) (fun {h i name d} hlink => ?_)
    (fun _ => hhistory) hopens.entries
  · obtain ⟨a, ha, hname, hd⟩ := hlink
    rw [hopens.store] at ha
    rcases Store.get?_concat ha with hold | rfl
    · exact ⟨a, hold, hname, hd⟩
    · cases hd
  · -- what is linked to was there before
    obtain ⟨b, hb, -⟩ := hordered.linked h d hlink.linksTo
    unfold GoesBy
    rw [hb, Store.get?_of_prefix hgrown hb]

/-! ## Linking one more reference -/

/-- A reference has been added, and is about to be linked: those before it are. -/
theorem Accounted.referenceAdded (hs : s.Accounted texts) {a : Assembly}
    (ha : s.store.get? h = some a) (hbalanced : a.dependencies.length = a.references.length)
    (name : String) : (s.record (.referenceAdded h name)).Accounted texts := by
  have hchanged := s.referenceAdded_changed h name
  exact hs.mono (fun hlink => hlink.of_referenceAdded ha hbalanced)
    (fun _ => hchanged.goesBy_iff fun _ => rfl) (fun _ => foundAt_record rfl)
    (by rw [hchanged.registry, List.append_nil])

theorem Accounted.refer (hs : s.Accounted texts) (hlogged : s.Logged) {a : Assembly}
    (ha : s.store.get? h = some a) (hbalanced : a.dependencies.length = a.references.length)
    (name : String) (source : TextSource) (text : String) :
    (s.refer h name source text).Accounted texts := by
  have hchanged := s.refer_changed h name source text
  refine hs.mono (fun hlink => ?_) (fun _ => hchanged.goesBy_iff fun _ => rfl)
    (fun {g i name d found} hlink => ⟨fun hfound => ?_, fun hfound => ?_⟩)
    (by rw [hchanged.registry, List.append_nil])
  · have hlink : (s.record (.referenceAdded h name)).LinkedAt _ _ _ _ := hlink
    exact hlink.of_referenceAdded ha hbalanced
  · rcases hfound.of_refer with hold | ⟨rfl, hi, -⟩
    · exact hold
    · -- the new text is for a reference that is not linked
      obtain ⟨b, hb, hname, -⟩ := hlink
      have hlt := (List.getElem?_eq_some_iff.1 hname).1
      rw [hi, hlogged g, referenceCount_of_get? hb] at hlt
      exact absurd hlt (Nat.lt_irrefl _)
  · exact hfound.of_append [_, _] rfl

/-- A link is added that has its reason. -/
theorem Accounted.dependencyAdded (hs : s.Accounted texts) {a : Assembly}
    (ha : s.store.get? h = some a) (hlast : a.references[a.dependencies.length]? = some name)
    (hname : s.GoesBy d name → s.registry.findByName? name = some d)
    (hlocated : ¬ s.GoesBy d name → ∃ text, s.FoundAt h a.dependencies.length text)
    (hfound : ∀ text, s.FoundAt h a.dependencies.length text →
      ∃ doc, Document.parse text "" = .ok doc ∧ s.StandsFor texts d doc)
    (halone : ∀ text doc g j name' text' doc', s.FoundAt h a.dependencies.length text →
      Document.parse text "" = .ok doc → s.LinkedAt g j name' d → s.FoundAt g j text' →
      Document.parse text' "" = .ok doc' → doc.uid ≠ "" ∧ doc'.uid ≠ "") :
    (s.record (.dependencyAdded h d)).Accounted texts := by
  have hchanged := s.dependencyAdded_changed h d
  have hnames : ∀ {d' name}, (s.record (.dependencyAdded h d)).GoesBy d' name ↔ s.GoesBy d' name :=
    hchanged.goesBy_iff fun _ => rfl
  have htexts : ∀ {g j text}, (s.record (.dependencyAdded h d)).FoundAt g j text ↔
      s.FoundAt g j text := foundAt_record rfl
  refine { byName := ?byName, located := ?located, found := ?found, alone := ?alone }
  case byName =>
    intro g j name' e hlink hgoes
    rcases hlink.of_dependencyAdded ha hlast with hold | ⟨rfl, rfl, rfl, rfl⟩
    · exact hs.byName hold (hnames.1 hgoes)
    · exact hname (hnames.1 hgoes)
  case located =>
    intro g j name' e hlink hother
    replace hother : ¬ s.GoesBy e name' := fun hgoes => hother (hnames.2 hgoes)
    rcases hlink.of_dependencyAdded ha hlast with hold | ⟨rfl, rfl, rfl, rfl⟩
    · obtain ⟨text, htext⟩ := hs.located hold hother
      exact ⟨text, htexts.2 htext⟩
    · obtain ⟨text, htext⟩ := hlocated hother
      exact ⟨text, htexts.2 htext⟩
  case found =>
    intro g j name' e text hlink htext
    rcases hlink.of_dependencyAdded ha hlast with hold | ⟨rfl, rfl, rfl, rfl⟩
    · exact hs.found hold (htexts.1 htext)
    · exact hfound _ (htexts.1 htext)
  case alone =>
    intro g j name' e text doc g' j' name'' text' hlink htext hparse huid hlink' htext'
    replace htext := htexts.1 htext
    replace htext' := htexts.1 htext'
    -- of the two links, either both are old, or one is, or they are the new one
    rcases hlink.of_dependencyAdded ha hlast with hold | ⟨rfl, rfl, rfl, rfl⟩
    · rcases hlink'.of_dependencyAdded ha hlast with hold' | ⟨rfl, rfl, rfl, rfl⟩
      · exact hs.alone hold htext hparse huid hold' htext'
      · obtain ⟨doc', hparse', -⟩ := hfound _ htext'
        exact absurd huid (halone _ _ _ _ _ _ _ htext' hparse' hold htext hparse).2
    · rcases hlink'.of_dependencyAdded ha hlast with hold' | ⟨rfl, rfl, rfl, -⟩
      · obtain ⟨doc', hparse', -⟩ := hs.found hold' htext'
        exact absurd huid (halone _ _ _ _ _ _ _ htext hparse hold' htext' hparse').1
      · exact ⟨rfl, rfl⟩

/-! ## Comparing links -/

section Compare

variable {h' : Handle} {i' : Nat} {name' text' : String} {d' : Handle} {doc' : Document}

/-- Two references that texts have been found for share an assembly if and only if the documents
    state one name and one uid. -/
theorem Accounted.eq_iff_of_found (hs : s.Accounted texts) (hsound : s.Sound)
    (hlink : s.LinkedAt h i name d) (hlink' : s.LinkedAt h' i' name' d')
    (hne : (h, i) ≠ (h', i')) (htext : s.FoundAt h i text) (htext' : s.FoundAt h' i' text')
    (hparse : Document.parse text "" = .ok doc) (hparse' : Document.parse text' "" = .ok doc') :
    d = d' ↔ doc.name = doc'.name ∧ doc.uid = doc'.uid ∧ doc.uid ≠ "" := by
  obtain ⟨found, hfound, hstands⟩ := hs.found hlink htext
  obtain ⟨found', hfound', hstands'⟩ := hs.found hlink' htext'
  obtain rfl : found = doc := Except.ok.inj (hfound.symm.trans hparse)
  obtain rfl : found' = doc' := Except.ok.inj (hfound'.symm.trans hparse')
  constructor
  · rintro rfl
    -- an assembly of a document without a uid would be that of one text alone
    have hstated : found.uid ≠ "" := by
      intro huid
      obtain ⟨rfl, rfl⟩ := hs.alone hlink htext hparse huid hlink' htext'
      exact hne rfl
    have hstated' : found'.uid ≠ "" := by
      intro huid
      obtain ⟨rfl, rfl⟩ := hs.alone hlink' htext' hparse' huid hlink htext
      exact hne rfl
    obtain ⟨uid, he, huid, -⟩ := hstands
    obtain ⟨uid', he', huid', -⟩ := hstands'
    obtain ⟨hname, hsame⟩ := hsound.key_eq he he' rfl
    exact ⟨hname, (huid hstated).symm.trans (hsame.trans (huid' hstated')), hstated⟩
  · rintro ⟨hname, huid, hstated⟩
    exact hstands.handle_eq hsound hstands' hname huid hstated

/-- Two references of one name share an assembly if and only if it goes by the name, or texts have
    been found for both whose documents state one name and one uid. -/
theorem Accounted.eq_iff (hs : s.Accounted texts) (hsound : s.Sound)
    (hlink : s.LinkedAt h i name d) (hlink' : s.LinkedAt h' i' name d') (hne : (h, i) ≠ (h', i')) :
    d = d' ↔ (s.GoesBy d name ∧ s.GoesBy d' name) ∨ ∃ text doc text' doc',
      s.FoundAt h i text ∧ Document.parse text "" = .ok doc ∧
      s.FoundAt h' i' text' ∧ Document.parse text' "" = .ok doc' ∧
      doc.name = doc'.name ∧ doc.uid = doc'.uid ∧ doc.uid ≠ "" := by
  constructor
  · rintro rfl
    by_cases hgoes : s.GoesBy d name
    · exact .inl ⟨hgoes, hgoes⟩
    · right
      obtain ⟨text, htext⟩ := hs.located hlink hgoes
      obtain ⟨text', htext'⟩ := hs.located hlink' hgoes
      obtain ⟨doc, hparse, -⟩ := hs.found hlink htext
      obtain ⟨doc', hparse', -⟩ := hs.found hlink' htext'
      exact ⟨text, doc, text', doc', htext, hparse, htext', hparse',
        (hs.eq_iff_of_found hsound hlink hlink' hne htext htext' hparse hparse').1 rfl⟩
  · rintro (⟨hgoes, hgoes'⟩ | ⟨text, doc, text', doc', htext, hparse, htext', hparse', hsame⟩)
    · exact Option.some.inj ((hs.byName hlink hgoes).symm.trans (hs.byName hlink' hgoes'))
    · exact (hs.eq_iff_of_found hsound hlink hlink' hne htext htext' hparse hparse').2 hsame

/-- If every text that is found states the name that it is found under, every link is to the first
    assembly of the name. -/
theorem Accounted.findByName?_of_declared (hs : s.Accounted texts) (hsound : s.Sound)
    (hdeclared : ∀ h i name d text doc, s.LinkedAt h i name d → s.FoundAt h i text →
      Document.parse text "" = .ok doc → doc.name = name)
    (hlink : s.LinkedAt h i name d) : s.registry.findByName? name = some d := by
  refine hs.byName hlink ?_
  by_contra hgoes
  obtain ⟨text, htext⟩ := hs.located hlink hgoes
  obtain ⟨doc, hparse, uid, he, -⟩ := hs.found hlink htext
  exact hgoes (hdeclared _ _ _ _ _ _ hlink htext hparse ▸ goesBy_of_entry hsound he)

end Compare

end Session

end AssemblyLinker
