import AssemblyLinker.Proofs.Loading.Steps
import Mathlib.Data.List.Induction

/-! # What is registered

    An assembly is registered before its references are resolved, and it leaves the registry
    when it cannot be linked.  In between other assemblies come and go.  The invariant of
    the recursion is that the assemblies which are being linked are exactly the open
    frames, and that every other entry is complete (`Linker.Frame`).

    So a load adds entries of complete assemblies (`LoadRequest.run_registers`), and after any
    series of loads on a registry that is empty at first, registry and store fit together
    and every registered assembly is linked and has all of its dependencies
    (`Session.after_settled`).
-/

namespace AssemblyLinker

/-! ## States of the registry -/

namespace Session

/-- Registry and store fit together: each name and uid is registered once, for an assembly
    of that name and uid. -/
structure Sound (s : Session) : Prop where
  distinct : (s.registry.entries.map (·.key)).Nodup
  stored : ∀ e ∈ s.registry.entries,
    ∃ a, s.store.get? e.handle = some a ∧ a.name = e.name ∧ a.uid = e.uid

/-- A handle stands for a registered assembly that is linked. -/
structure Provides (s : Session) (h : Handle) : Prop where
  registered : h ∈ s.registry.handles
  linked : ∃ a, s.store.get? h = some a ∧ a.state = .linked

/-- An assembly is linked and has a dependency for each of its references, each of them
    registered and linked. -/
structure Complete (s : Session) (a : Assembly) : Prop where
  linked : a.state = .linked
  balanced : a.dependencies.length = a.references.length
  provided : ∀ d ∈ a.dependencies, s.Provides d

/-- From one session to a later one all linked assemblies stay as they are and stay
    registered. -/
structure Keeps (s t : Session) : Prop where
  store : ∀ h a, s.store.get? h = some a → a.state = .linked → t.store.get? h = some a
  registry : ∀ h, s.Provides h → h ∈ t.registry.handles

variable {s t u : Session}

theorem mem_handles {h : Handle} :
    h ∈ s.registry.handles ↔ ∃ e ∈ s.registry.entries, e.handle = h := by
  simp [Registry.handles]

theorem Provides.mono {h : Handle} (hkeep : s.Keeps t) (hs : s.Provides h) : t.Provides h := by
  obtain ⟨a, ha, hlinked⟩ := hs.linked
  exact ⟨hkeep.registry h hs, a, hkeep.store h a ha hlinked, hlinked⟩

theorem Complete.mono {a : Assembly} (hkeep : s.Keeps t) (ha : s.Complete a) : t.Complete a :=
  ⟨ha.linked, ha.balanced, fun d hd => (ha.provided d hd).mono hkeep⟩

theorem Sound.lt_nextHandle (hs : s.Sound) {h : Handle} (hh : h ∈ s.registry.handles) :
    h < s.nextHandle := by
  obtain ⟨e, he, rfl⟩ := mem_handles.1 hh
  obtain ⟨a, ha, -⟩ := hs.stored e he
  exact Store.lt_length_of_get? ha

/-- A change of an assembly, but not of its name and uid, leaves registry and store fitting
    together. -/
theorem Sound.update (hs : s.Sound) {h : Handle} {f : Assembly → Assembly}
    (hstore : t.store = s.store.update h f) (hregistry : t.registry = s.registry)
    (hname : ∀ a, (f a).name = a.name) (huid : ∀ a, (f a).uid = a.uid) : t.Sound := by
  refine ⟨hregistry ▸ hs.distinct, fun e he => ?_⟩
  obtain ⟨a, ha, ha'⟩ := hs.stored e (hregistry ▸ he)
  by_cases hown : e.handle = h
  · refine ⟨f a, ?_, (hname a).trans ha'.1, (huid a).trans ha'.2⟩
    rw [hstore, hown, Store.get?_update_self, ← hown, ha]
    rfl
  · refine ⟨a, ?_, ha'⟩
    rw [hstore, Store.get?_update_ne _ _ hown]
    exact ha

/-- A registered assembly that is not being linked is linked. -/
theorem Sound.provides (hs : s.Sound) {h : Handle} (hh : h ∈ s.registry.handles)
    (hlinking : s.isLinking h = false) : s.Provides h := by
  obtain ⟨e, he, rfl⟩ := mem_handles.1 hh
  obtain ⟨a, ha, -⟩ := hs.stored e he
  refine ⟨hh, a, ha, ?_⟩
  cases hstate : a.state with
  | linked => rfl
  | linking => simp [isLinking, ha, hstate] at hlinking

end Session

/-! ## Frames -/

namespace Linker

/-- An entry stands for a complete assembly that a load of the linker has created. -/
def HasAdded (L : Linker) (t : Session) (e : Entry) : Prop :=
  ∃ a, t.store.get? e.handle = some a ∧ t.Complete a ∧ a.mode = L.mode ∧
    ((∀ n, L.uids n ≠ "") → a.uid ≠ "")

/-- What a whole load does to registry and store: entries of complete assemblies come to
    the end, and of the assemblies created the linked ones are the registered ones. -/
structure Advances (L : Linker) (s t : Session) : Prop where
  sound : t.Sound
  store : s.store <+: t.store
  entries : ∃ added, t.registry.entries = s.registry.entries ++ added ∧
    ∀ e ∈ added, s.nextHandle ≤ e.handle ∧ L.HasAdded t e
  settled : ∀ i a, s.nextHandle ≤ i → t.store.get? i = some a →
    (a.state = .linked ↔ i ∈ t.registry.handles)

/-- The state of registry and store while the assembly created for a document in `s` is
    being linked: of all that came since `s`, it alone is being linked. -/
structure Frame (L : Linker) (s : Session) (doc : Document) (t : Session) : Prop where
  sound : t.Sound
  store : s.store <+: t.store
  own : ∃ a, t.store.get? s.nextHandle = some a ∧ a.state = .linking ∧ a.mode = L.mode ∧
    ∀ d ∈ a.dependencies, t.Provides d
  entries : ∃ added, t.registry.entries =
      s.registry.entries ++ ⟨doc.name, L.uidFor doc s, s.nextHandle⟩ :: added ∧
    ∀ e ∈ added, s.nextHandle < e.handle ∧ L.HasAdded t e
  settled : ∀ i a, s.nextHandle < i → t.store.get? i = some a →
    (a.state = .linked ↔ i ∈ t.registry.handles)

/-- The assembly that is being linked has as many dependencies as references. -/
def Balanced (s t : Session) : Prop :=
  ∀ a, t.store.get? s.nextHandle = some a → a.dependencies.length = a.references.length

variable {L : Linker} {s t u : Session} {doc : Document}

theorem HasAdded.mono {e : Entry} (hkeep : t.Keeps u) (he : L.HasAdded t e) :
    L.HasAdded u e := by
  obtain ⟨a, ha, hcomplete, hmode, huid⟩ := he
  exact ⟨a, hkeep.store _ a ha hcomplete.linked, hcomplete.mono hkeep, hmode, huid⟩

theorem Advances.keeps (h : L.Advances s t) : s.Keeps t := by
  refine ⟨fun _ a ha _ => Store.get?_of_prefix h.store ha, fun i hi => ?_⟩
  obtain ⟨added, hentries, -⟩ := h.entries
  simp only [Registry.handles, hentries, List.map_append]
  exact List.mem_append_left _ hi.registered

/-- Where registry and store are as before, so is the frame. -/
theorem Frame.congr (h : L.Frame s doc t) (hstore : u.store = t.store)
    (hregistry : u.registry = t.registry) : L.Frame s doc u := by
  obtain ⟨store, registry, context, drawn, history⟩ := t
  obtain ⟨store', registry', context', drawn', history'⟩ := u
  simp only at hstore hregistry
  subst hstore hregistry
  have hkeep : Session.Keeps ⟨store', registry', context, drawn, history⟩
      ⟨store', registry', context', drawn', history'⟩ :=
    ⟨fun _ _ ha _ => ha, fun _ hi => hi.registered⟩
  obtain ⟨a, ha, hstate, hmode, hdeps⟩ := h.own
  obtain ⟨added, hentries, hadded⟩ := h.entries
  exact ⟨⟨h.sound.distinct, h.sound.stored⟩, h.store,
    ⟨a, ha, hstate, hmode, fun d hd => (hdeps d hd).mono hkeep⟩,
    ⟨added, hentries, fun e he => ⟨(hadded e he).1, (hadded e he).2.mono hkeep⟩⟩, h.settled⟩

/-- A change of the assembly that is being linked keeps all linked ones. -/
theorem Frame.keeps_update (h : L.Frame s doc t) {f : Assembly → Assembly}
    (hstore : u.store = t.store.update s.nextHandle f) (hregistry : u.registry = t.registry) :
    t.Keeps u := by
  refine ⟨fun i a ha hlinked => ?_, fun i hi => hregistry ▸ hi.registered⟩
  have hi : i ≠ s.nextHandle := by
    rintro rfl
    obtain ⟨b, hb, hlinking, -⟩ := h.own
    rw [ha] at hb
    cases hb
    rw [hlinked] at hlinking
    cases hlinking
  rw [hstore, Store.get?_update_ne _ _ hi]
  exact ha

theorem Frame.store_update (h : L.Frame s doc t) {f : Assembly → Assembly}
    (hstore : u.store = t.store.update s.nextHandle f) : s.store <+: u.store := by
  rw [hstore]
  exact Store.prefix_update h.store (Nat.le_refl _) f

/-- The frame survives a change of the references, the dependencies and the modules of the
    assembly that is being linked, as long as dependencies are registered and linked. -/
theorem Frame.update (h : L.Frame s doc t) {f : Assembly → Assembly}
    (hstore : u.store = t.store.update s.nextHandle f) (hregistry : u.registry = t.registry)
    (hname : ∀ a, (f a).name = a.name) (huid : ∀ a, (f a).uid = a.uid)
    (hmode : ∀ a, (f a).mode = a.mode) (hstate : ∀ a, (f a).state = a.state)
    (hdeps : ∀ a, ∀ d ∈ (f a).dependencies, d ∈ a.dependencies ∨ t.Provides d) :
    L.Frame s doc u := by
  have hkeep := h.keeps_update hstore hregistry
  refine ⟨h.sound.update hstore hregistry hname huid, h.store_update hstore, ?_, ?_,
    fun i a hi ha => ?_⟩
  · obtain ⟨a, ha, halinking, hamode, hadeps⟩ := h.own
    refine ⟨f a, by rw [hstore, Store.get?_update_self, ha]; rfl, (hstate a).trans halinking,
      (hmode a).trans hamode, fun d hd => ?_⟩
    rcases hdeps a d hd with hd | hd
    · exact (hadeps d hd).mono hkeep
    · exact hd.mono hkeep
  · obtain ⟨added, hentries, hadded⟩ := h.entries
    exact ⟨added, hregistry ▸ hentries,
      fun e he => ⟨(hadded e he).1, (hadded e he).2.mono hkeep⟩⟩
  · rw [hstore, Store.get?_update_ne _ _ (Nat.ne_of_gt hi)] at ha
    rw [hregistry]
    exact h.settled i a hi ha

theorem Frame.addReference (h : L.Frame s doc t) {name : String}
    (hstore : u.store = t.store.update s.nextHandle (·.addReference name))
    (hregistry : u.registry = t.registry) : L.Frame s doc u :=
  h.update hstore hregistry (fun _ => rfl) (fun _ => rfl) (fun _ => rfl) (fun _ => rfl)
    (fun _ _ hd => .inl hd)

/-- The frame survives that a reference is added and its text is found. -/
theorem Frame.refer (h : L.Frame s doc t) (name : String) (source : TextSource) (text : String) :
    L.Frame s doc (t.refer s.nextHandle name source text) :=
  h.addReference rfl rfl

theorem Frame.addDependency (h : L.Frame s doc t) {d : Handle} (hprovides : t.Provides d)
    (hstore : u.store = t.store.update s.nextHandle (·.addDependency d))
    (hregistry : u.registry = t.registry) : L.Frame s doc u := by
  refine h.update hstore hregistry (fun _ => rfl) (fun _ => rfl) (fun _ => rfl) (fun _ => rfl) ?_
  intro a e he
  rcases List.mem_append.1 he with he | he
  · exact .inl he
  · exact .inr (List.mem_singleton.1 he ▸ hprovides)

/-- A dependency makes up for the reference before it. -/
theorem Balanced.addDependency {a : Assembly} {name : String} {d : Handle}
    (hbalanced : a.dependencies.length = a.references.length)
    (ha : t.store.get? s.nextHandle = some (a.addReference name))
    (hstore : u.store = t.store.update s.nextHandle (·.addDependency d)) : Balanced s u := by
  intro b hb
  have hself : u.store.get? s.nextHandle = some ((a.addReference name).addDependency d) := by
    rw [hstore, Store.get?_update_self, ha]
    rfl
  obtain rfl := Option.some.inj (hself.symm.trans hb)
  simp [Assembly.addReference, Assembly.addDependency, hbalanced]

/-- A nested load leaves the frame of the assembly that it is made for. -/
theorem Frame.nested (h : L.Frame s doc t) (hu : L.Advances t u) : L.Frame s doc u := by
  have hkeep := hu.keeps
  obtain ⟨a, ha, hstate, hmode, hdeps⟩ := h.own
  have hlt : s.nextHandle < t.nextHandle := Store.lt_length_of_get? ha
  obtain ⟨added, hentries, hadded⟩ := h.entries
  obtain ⟨added', hentries', hadded'⟩ := hu.entries
  refine ⟨hu.sound, h.store.trans hu.store,
    ⟨a, Store.get?_of_prefix hu.store ha, hstate, hmode, fun d hd => (hdeps d hd).mono hkeep⟩,
    ⟨added ++ added', by simp [hentries', hentries], fun e he => ?_⟩, fun i b hi hb => ?_⟩
  · rcases List.mem_append.1 he with he | he
    · exact ⟨(hadded e he).1, (hadded e he).2.mono hkeep⟩
    · exact ⟨Nat.lt_of_lt_of_le hlt (hadded' e he).1, (hadded' e he).2⟩
  · by_cases hle : t.nextHandle ≤ i
    · exact hu.settled i b hle hb
    -- an older assembly is as it was, and it is registered as it was
    · have hi' : i < t.store.length := Nat.lt_of_not_le hle
      have hb' : t.store.get? i = some b := by
        obtain ⟨more, hmore⟩ := hu.store
        rwa [← hmore, Store.get?, List.getElem?_append_left hi'] at hb
      rw [h.settled i b hi hb']
      simp only [Registry.handles, hentries', List.map_append, List.mem_append]
      refine ⟨Or.inl, fun hmem => hmem.resolve_right fun hmem => ?_⟩
      obtain ⟨e, he, rfl⟩ := List.mem_map.1 hmem
      exact hle (hadded' e he).1

/-! ## How a frame begins and ends -/

theorem Opens.frame (h : L.Opens doc s t) (hs : s.Sound) :
    L.Frame s doc t ∧ Balanced s t := by
  have hown : t.store.get? s.nextHandle = some (newAssembly doc (L.uidFor doc s)) := by
    rw [h.store]
    exact List.getElem?_concat_length
  refine ⟨⟨⟨?_, fun e he => ?_⟩, ?_, ⟨_, hown, rfl, h.mode, ?_⟩, ⟨[], h.entries, ?_⟩, ?_⟩, ?_⟩
  -- the key of the new entry is none of those that are registered
  · have hfresh := Registry.find?_eq_none.1 h.unregistered
    rw [h.entries, List.map_append, List.nodup_append]
    refine ⟨hs.distinct, by simp, fun k hk k' hk' => ?_⟩
    obtain ⟨e, he, rfl⟩ := List.mem_map.1 hk
    have hne := hfresh e he
    rw [List.mem_singleton.1 hk']
    rintro heq
    simp only [Entry.key, Prod.mk.injEq] at heq
    simp [Entry.isFor, heq.1, heq.2] at hne
  · rw [h.entries] at he
    rcases List.mem_append.1 he with he | he
    · obtain ⟨a, ha, ha'⟩ := hs.stored e he
      exact ⟨a, Store.get?_of_prefix (h.store ▸ List.prefix_append _ _) ha, ha'⟩
    · obtain rfl := List.mem_singleton.1 he
      exact ⟨_, hown, rfl, rfl⟩
  · exact h.store ▸ List.prefix_append _ _
  · intro d hd
    cases hd
  · intro e he
    cases he
  · intro i a hi ha
    have hlt := Store.lt_length_of_get? ha
    rw [h.store, List.length_append, List.length_singleton] at hlt
    exact absurd hlt (Nat.not_lt.2 hi)
  · intro a ha
    rw [hown] at ha
    cases ha
    rfl

/-- The entry of the assembly that is being linked. -/
theorem Frame.own_registered (h : L.Frame s doc t) : s.nextHandle ∈ t.registry.handles := by
  obtain ⟨added, hentries, -⟩ := h.entries
  simp [Registry.handles, hentries]

/-- The assembly of a frame goes by the name and uid of its document. -/
theorem Frame.own_named (h : L.Frame s doc t) {a : Assembly}
    (ha : t.store.get? s.nextHandle = some a) :
    a.name = doc.name ∧ a.uid = L.uidFor doc s := by
  obtain ⟨added, hentries, -⟩ := h.entries
  obtain ⟨b, hb, hb'⟩ := h.sound.stored ⟨doc.name, L.uidFor doc s, s.nextHandle⟩
    (by rw [hentries]; exact List.mem_append_right _ List.mem_cons_self)
  rw [ha] at hb
  cases hb
  exact hb'

theorem Frame.completed (h : L.Frame s doc t) (hbalanced : Balanced s t)
    (huid : (∀ n, L.uids n ≠ "") → L.uidFor doc s ≠ "")
    (hstore : u.store = t.store.update s.nextHandle ({ · with state := .linked }))
    (hregistry : u.registry = t.registry) :
    L.Advances s u ∧ u.Provides s.nextHandle := by
  have hkeep := h.keeps_update hstore hregistry
  obtain ⟨a, ha, -, hmode, hdeps⟩ := h.own
  have hown : u.store.get? s.nextHandle = some { a with state := .linked } := by
    rw [hstore, Store.get?_update_self, ha]
    rfl
  obtain ⟨added, hentries, hadded⟩ := h.entries
  have hauid := (h.own_named ha).2
  have hregistered : s.nextHandle ∈ u.registry.handles := hregistry ▸ h.own_registered
  -- its references have brought complete assemblies, and now it is complete itself
  refine ⟨⟨h.sound.update hstore hregistry (fun _ => rfl) (fun _ => rfl),
    h.store_update hstore, ⟨_, hregistry ▸ hentries, fun e he => ?_⟩, fun i b hi hb => ?_⟩,
    ⟨hregistered, _, hown, rfl⟩⟩
  · rcases List.mem_cons.1 he with rfl | he
    · refine ⟨Nat.le_refl _, _, hown, ⟨rfl, hbalanced a ha, fun d hd => ?_⟩, hmode, fun hu => ?_⟩
      · exact (hdeps d hd).mono hkeep
      · exact hauid ▸ huid hu
    · exact ⟨Nat.le_of_lt (hadded e he).1, (hadded e he).2.mono hkeep⟩
  · rcases Nat.eq_or_lt_of_le hi with rfl | hi
    · rw [hown] at hb
      cases hb
      exact iff_of_true rfl hregistered
    · rw [hstore, Store.get?_update_ne _ _ (Nat.ne_of_gt hi)] at hb
      rw [hregistry]
      exact h.settled i b hi hb

/-- An assembly that is given up leaves the registry under its name and uid. -/
theorem Frame.registry_abandoned (h : L.Frame s doc t) :
    ((t.leave doc).record (.abandoned s.nextHandle)).registry =
      t.registry.unregister doc.name (L.uidFor doc s) := by
  obtain ⟨a, ha, -⟩ := h.own
  have ha' : (t.leave doc).store.get? s.nextHandle = some a := by
    rw [Session.leave_store]
    exact ha
  obtain ⟨hname, huid⟩ := h.own_named ha
  rw [Session.record_abandoned ha', hname, huid, Session.leave_registry]

/-- Of the entries, that of the assembly itself is the only one to go when it is given up. -/
theorem Frame.entries_abandoned (h : L.Frame s doc t)
    (hregistry : u.registry = t.registry.unregister doc.name (L.uidFor doc s)) :
    ∃ added, t.registry.entries =
        s.registry.entries ++ ⟨doc.name, L.uidFor doc s, s.nextHandle⟩ :: added ∧
      u.registry.entries = s.registry.entries ++ added ∧
      ∀ e ∈ added, s.nextHandle < e.handle ∧ L.HasAdded t e := by
  obtain ⟨added, hentries, hadded⟩ := h.entries
  refine ⟨added, hentries, ?_, hadded⟩
  rw [hregistry]
  exact Registry.unregister_of_distinct hentries h.sound.distinct

theorem Frame.handles_abandoned (h : L.Frame s doc t) (hs : s.Sound)
    (hregistry : u.registry = t.registry.unregister doc.name (L.uidFor doc s)) (i : Handle) :
    i ∈ u.registry.handles ↔ i ∈ t.registry.handles ∧ i ≠ s.nextHandle := by
  obtain ⟨added, hentries, hleft, hadded⟩ := h.entries_abandoned hregistry
  have hold : i ∈ s.registry.handles → i ≠ s.nextHandle := fun hi =>
    Nat.ne_of_lt (hs.lt_nextHandle hi)
  have hnew : i ∈ added.map (·.handle) → i ≠ s.nextHandle := by
    intro hi
    obtain ⟨e, he, rfl⟩ := List.mem_map.1 hi
    exact Nat.ne_of_gt (hadded e he).1
  simp only [Registry.handles] at hold ⊢
  rw [hleft, hentries]
  simp only [List.map_append, List.map_cons, List.mem_append, List.mem_cons]
  constructor
  · rintro (hi | hi)
    · exact ⟨.inl hi, hold hi⟩
    · exact ⟨.inr (.inr hi), hnew hi⟩
  · rintro ⟨hi | hi | hi, hne⟩
    · exact .inl hi
    · exact absurd hi hne
    · exact .inr hi

theorem Frame.abandoned (h : L.Frame s doc t) (hs : s.Sound) (hstore : u.store = t.store)
    (hregistry : u.registry = t.registry.unregister doc.name (L.uidFor doc s)) :
    L.Advances s u ∧ ∀ a, u.store.get? s.nextHandle = some a → a.state = .linking := by
  obtain ⟨added, hentries, hleft, hadded⟩ := h.entries_abandoned hregistry
  have hhandles := h.handles_abandoned hs hregistry
  have hsublist : (s.registry.entries ++ added).Sublist t.registry.entries := by
    rw [hentries]
    exact List.Sublist.append_left (List.sublist_cons_self _ _) _
  obtain ⟨a, ha, hstate, -⟩ := h.own
  have hkeep : t.Keeps u := by
    refine ⟨fun i b hb _ => hstore ▸ hb, fun i hi => (hhandles i).2 ⟨hi.registered, ?_⟩⟩
    rintro rfl
    obtain ⟨b, hb, hlinked⟩ := hi.linked
    rw [ha] at hb
    cases hb
    rw [hstate] at hlinked
    cases hlinked
  refine ⟨⟨⟨?_, fun e he => ?_⟩, hstore ▸ h.store, ⟨added, hleft, fun e he => ?_⟩,
    fun i b hi hb => ?_⟩, fun b hb => ?_⟩
  · rw [hleft]
    exact (hsublist.map _).nodup h.sound.distinct
  · rw [hstore]
    exact h.sound.stored e (hsublist.subset (hleft ▸ he))
  · exact ⟨Nat.le_of_lt (hadded e he).1, (hadded e he).2.mono hkeep⟩
  · rw [hstore] at hb
    rcases Nat.eq_or_lt_of_le hi with rfl | hlt
    · rw [ha] at hb
      cases hb
      refine iff_of_false (by simp [hstate]) fun hmem => ((hhandles _).1 hmem).2 rfl
    · rw [h.settled i b hlt hb, hhandles]
      exact ⟨fun hmem => ⟨hmem, Nat.ne_of_gt hlt⟩, And.left⟩
  · rw [hstore, ha] at hb
    cases hb
    exact hstate

/-! ## What a load does to the registry -/

/-- How the answer of a load fits the registry.  A handle stands for a registered and linked
    assembly, an older one or the one that was created first; without a handle, what was
    created first is not linked. -/
def Answers (s : Session) : Outcome Handle × Session → Prop
  | (.ok h, t) => t.Provides h ∧ (h ∈ s.registry.handles ∨ h = s.nextHandle ∧
      (t.registry.entries[s.registry.entries.length]?).map (·.handle) = some h)
  | (.error _, t) => ∀ a, t.store.get? s.nextHandle = some a → a.state = .linking

/-- The registry and the store after a load, given that they fitted together before. -/
def RegistersLinked (L : Linker) (_ : String) (s : Session)
    (r : Outcome Handle × Session) : Prop :=
  s.Sound → L.Advances s r.2 ∧ Answers s r

/-- The frame of an assembly between two of its references, where it has as many
    dependencies as references. -/
def Underway (L : Linker) (_ : String) (s : Session) (doc : Document) (_ : List Reference)
    (t : Session) : Prop :=
  s.Sound → (L.Frame s doc t ∧ Balanced s t) ∧ ((∀ n, L.uids n ≠ "") → L.uidFor doc s ≠ "")

/-- Where no assembly is created, registry and store are as before. -/
theorem Advances.of_eq (hs : s.Sound) (hstore : t.store = s.store)
    (hregistry : t.registry = s.registry) : L.Advances s t := by
  refine ⟨⟨hregistry ▸ hs.distinct, fun e he => ?_⟩, hstore ▸ List.prefix_refl _,
    ⟨[], by rw [hregistry, List.append_nil], fun e he => (by cases he)⟩, fun i a hi ha => ?_⟩
  · rw [hstore]
    exact hs.stored e (hregistry ▸ he)
  · exact absurd (Store.lt_length_of_get? ha) (Nat.not_lt.2 (hstore ▸ hi))

theorem Answers.of_store_eq {stop : Stop} (hstore : t.store = s.store) :
    Answers s (.error stop, t) := by
  intro a ha
  exact absurd (Store.lt_length_of_get? ha) (Nat.not_lt.2 (hstore ▸ Nat.le_refl _))

/-- Other modules do not matter to the frame. -/
theorem Underway.rebuild {text : String} {done : List Reference}
    (h : L.Underway text s doc done t) {modules : List ModuleInfo}
    (hstore : u.store = t.store.update s.nextHandle ({ · with modules }))
    (hregistry : u.registry = t.registry) : L.Underway text s doc done u := by
  intro hs
  obtain ⟨⟨hframe, hbalanced⟩, huid⟩ := h hs
  refine ⟨⟨hframe.update hstore hregistry (fun _ => rfl) (fun _ => rfl) (fun _ => rfl)
    (fun _ => rfl) (fun _ _ hd => .inl hd), fun a ha => ?_⟩, huid⟩
  rw [hstore, Store.get?_update_self] at ha
  obtain ⟨b, hb, rfl⟩ := Option.map_eq_some_iff.1 ha
  exact hbalanced b hb

theorem registersLinked : L.Contract L.RegistersLinked L.Underway
    (fun _ s doc t => s.Sound → L.Frame s doc t) where
  tooDeep _ s := fun hs => ⟨.of_eq hs rfl rfl, .of_store_eq rfl⟩
  failed _ s e := fun hs => ⟨.of_eq hs rfl rfl, .of_store_eq rfl⟩
  circular _ s doc := fun hs => ⟨.of_eq hs (by simp) (by simp), .of_store_eq (by simp)⟩
  known _ _ s doc h _ _ found linked := by
    intro hs
    have hmem : h ∈ s.registry.handles := Registry.mem_handles_of_find? found
    have hadvances : L.Advances s (s.identify doc) := .of_eq hs (by simp) (by simp)
    exact ⟨hadvances, (hs.provides hmem linked).mono hadvances.keeps, .inl hmem⟩
  opens _ _ s doc t _ opens := by
    intro hs
    refine ⟨opens.frame hs, fun huids => ?_⟩
    unfold uidFor
    split
    · exact huids _
    · assumption
  bundles _ s doc t r found h _ _ _ := fun hs =>
    ⟨⟨(h hs).1.1.congr rfl rfl, (h hs).1.2⟩, (h hs).2⟩
  joins _ s doc done t r d h found linked := by
    intro hs
    obtain ⟨⟨hframe, hbalanced⟩, huid⟩ := h hs
    -- the assembly gets the reference first, and then what this stands for
    have hreferred : L.Frame s doc (t.record (.referenceAdded s.nextHandle r.name)) :=
      hframe.addReference rfl rfl
    have hprovides := hreferred.sound.provides (Registry.mem_handles_of_findByName? found) linked
    obtain ⟨a, ha, -⟩ := hframe.own
    have ha' := (t.referenceAdded_changed s.nextHandle r.name).get? ha
    exact ⟨⟨hreferred.addDependency hprovides rfl rfl, .addDependency (hbalanced a ha) ha' rfl⟩,
      huid⟩
  loads _ s doc done t r source found d u h free located loaded := by
    intro hs
    obtain ⟨⟨hframe, hbalanced⟩, huid⟩ := h hs
    have hreferred := hframe.refer r.name source found
    obtain ⟨hadvances, hprovides, -⟩ := loaded hreferred.sound
    have hnested := hreferred.nested hadvances
    -- the nested load leaves the assembly alone
    obtain ⟨a, ha, -⟩ := hframe.own
    have ha' : u.store.get? s.nextHandle = some (a.addReference r.name) :=
      Store.get?_of_prefix hadvances.store ((t.referenceAdded_changed s.nextHandle r.name).get? ha)
    exact ⟨⟨hnested.addDependency hprovides rfl rfl, .addDependency (hbalanced a ha) ha' rfl⟩,
      huid⟩
  declares text s doc t j h := by
    intro hs
    obtain ⟨a, ha, -⟩ := (h hs).1.1.own
    obtain ⟨modules, hdeclare⟩ := Session.declare_records ha j
    rw [hdeclare]
    exact h.rebuild rfl rfl hs
  defines text s doc t j h := by
    intro hs
    obtain ⟨a, ha, -⟩ := (h hs).1.1.own
    obtain ⟨modules, hdefine⟩ := Session.define_records ha j
    rw [hdefine]
    exact h.rebuild rfl rfl hs
  breaks _ s doc done t h := fun hs => (h hs).1.1
  breaksAtReference _ s doc done t name h := fun hs => (h hs).1.1.addReference rfl rfl
  breaksInLoad _ s doc done t r source found stop u h free located loaded := by
    intro hs
    have hreferred := (h hs).1.1.refer r.name source found
    exact hreferred.nested (loaded hreferred.sound).1
  completes _ s doc t _ _ _ _ h _ := by
    intro hs
    obtain ⟨⟨hframe, hbalanced⟩, huid⟩ := h hs
    have hstore : ((t.leave doc).record (.completed s.nextHandle)).store =
        t.store.update s.nextHandle ({ · with state := .linked }) := by
      show Store.update _ _ _ = _
      rw [Session.leave_store]
    obtain ⟨hadvances, hprovides⟩ := hframe.completed hbalanced huid hstore
      (Session.leave_registry t doc)
    refine ⟨hadvances, hprovides, .inr ⟨rfl, ?_⟩⟩
    obtain ⟨added, hentries, -⟩ := hframe.entries
    show ((t.leave doc).registry.entries[_]?).map _ = _
    rw [Session.leave_registry, hentries]
    simp
  abandons _ s doc t stop h := fun hs =>
    (h hs).abandoned hs (by simp) (h hs).registry_abandoned

end Linker

/-! ## Series of loads -/

/-- A load as it may be asked for. -/
structure LoadRequest where
  linker : Linker
  context : LoadContext
  text : String
  origin : String

/-- The load in a session that goes on with the store, the registry and the uids of the
    loads before. -/
def LoadRequest.run (r : LoadRequest) (s : Session) : Outcome Handle × Session :=
  r.linker.load r.text r.origin { s with context := r.context }

namespace Session

/-- The session after a series of loads, the earliest first. -/
def after (requests : List LoadRequest) : Session :=
  requests.foldl (fun s r => (r.run s).2) {}

theorem after_append (requests : List LoadRequest) (r : LoadRequest) :
    after (requests ++ [r]) = (r.run (after requests)).2 := by
  simp [after, List.foldl_append]

/-- Every registered assembly is complete, and if no stream of the series has an empty uid,
    neither has the assembly. -/
def Settled (requests : List LoadRequest) (s : Session) : Prop :=
  ∀ e ∈ s.registry.entries, ∃ a, s.store.get? e.handle = some a ∧ s.Complete a ∧
    ((∀ r ∈ requests, ∀ n, r.linker.uids n ≠ "") → a.uid ≠ "")

end Session

section Series

variable {r : LoadRequest} {s : Session}

theorem LoadRequest.run_registers (hs : s.Sound) :
    r.linker.Advances s (r.run s).2 ∧ Linker.Answers s (r.run s) := by
  have hcontext : Session.Sound { s with context := r.context } := ⟨hs.distinct, hs.stored⟩
  obtain ⟨⟨hsound, hstore, hentries, hsettled⟩, hanswers⟩ :=
    r.linker.registersLinked.holds r.linker.maxDepth r.text r.origin _ hcontext
  refine ⟨⟨hsound, hstore, hentries, hsettled⟩, ?_⟩
  unfold Linker.Answers at hanswers ⊢
  exact hanswers

/-- One more load keeps every registered assembly complete. -/
theorem Session.Settled.run {requests : List LoadRequest} (hs : s.Sound)
    (h : s.Settled requests) : (r.run s).2.Settled (requests ++ [r]) := by
  have hadvances := (LoadRequest.run_registers (r := r) hs).1
  obtain ⟨added, hentries, hadded⟩ := hadvances.entries
  intro e he
  rw [hentries] at he
  rcases List.mem_append.1 he with he | he
  · obtain ⟨a, ha, hcomplete, huid⟩ := h e he
    exact ⟨a, Store.get?_of_prefix hadvances.store ha, hcomplete.mono hadvances.keeps,
      fun huids => huid fun q hq => huids q (List.mem_append_left _ hq)⟩
  · obtain ⟨-, a, ha, hcomplete, -, huid⟩ := hadded e he
    exact ⟨a, ha, hcomplete,
      fun huids => huid (huids r (List.mem_append_right _ List.mem_cons_self))⟩

/-- After any series of loads registry and store fit together, and what is registered is
    complete. -/
theorem Session.after_settled (requests : List LoadRequest) :
    (Session.after requests).Sound ∧ (Session.after requests).Settled requests := by
  induction requests using List.reverseRecOn with
  | nil => exact ⟨⟨List.nodup_nil, fun e he => by cases he⟩, fun e he => by cases he⟩
  | append_singleton requests r ih =>
    rw [Session.after_append]
    exact ⟨(LoadRequest.run_registers ih.1).1.sound, ih.2.run ih.1⟩

end Series

end AssemblyLinker
