import AssemblyLinker.Proofs.Loading.Bundle
import AssemblyLinker.Proofs.Modules.Building
import Mathlib.Data.List.Forall2

/-! # What references add to an assembly

    A load leaves the assemblies alone that were there before it (`Linker.keepsAssemblies`), so
    an assembly changes only as its own references are linked: each adds its name and one
    dependency, which is not being linked (`Linker.linkReferences_own`).

    References that stand for linked assemblies already are all linked, whatever else there
    is (`Linker.linkReferences_of_settled`).
-/

namespace AssemblyLinker

/-! ## Assemblies that stay as they are -/

theorem Store.update_concat (store : Store) (a : Assembly) (f : Assembly → Assembly) :
    (store ++ [a]).update store.length f = store ++ [f a] := by
  apply List.ext_getElem?
  intro i
  show ((store ++ [a]).modify store.length f)[i]? = _
  rw [List.getElem?_modify]
  rcases Nat.lt_trichotomy i store.length with hi | rfl | hi
  · simp [List.getElem?_append_left hi, Nat.ne_of_gt hi]
  · simp
  · simp [List.getElem?_append_right (Nat.le_of_lt hi), Nat.sub_ne_zero_of_lt hi]

namespace Linker

variable {L : Linker}

/-- A load keeps all older assemblies, and yields one that is not being linked. -/
theorem keepsAssemblies : L.Contract
    (fun _ s r => s.store <+: r.2.store ∧ ∀ d, r.1 = .ok d → r.2.isLinking d = false)
    (fun _ s _ _ t => s.store <+: t.store) (fun _ s _ t => s.store <+: t.store) where
  tooDeep _ s := ⟨List.prefix_refl _, fun d hd => by cases hd⟩
  failed _ s e := ⟨List.prefix_refl _, fun d hd => by cases hd⟩
  circular _ s doc := by
    refine ⟨?_, fun d hd => by cases hd⟩
    exact (Session.identify_store s doc).symm ▸ List.prefix_refl _
  known _ _ s doc h _ _ _ linked := by
    refine ⟨?_, fun d hd => ?_⟩
    · exact (Session.identify_store s doc).symm ▸ List.prefix_refl _
    · cases hd
      rwa [Session.identify_isLinking]
  opens _ _ s doc t _ opens := by
    rw [opens.store]
    exact List.prefix_append _ _
  bundles _ s doc t r found h _ _ _ := h
  joins _ s doc done t r d h _ _ :=
    Store.prefix_update (Store.prefix_update h (Nat.le_refl _) _) (Nat.le_refl _) _
  loads _ s doc done t r source found d u h _ _ loaded :=
    Store.prefix_update ((Store.prefix_update h (Nat.le_refl _) _).trans loaded.1) (Nat.le_refl _) _
  declares _ s doc t j h := by
    unfold Session.declare
    split
    · exact h
    · split <;> exact Store.prefix_update h (Nat.le_refl _) _
  defines _ s doc t j h := by
    unfold Session.define
    split
    · exact h
    · exact Store.prefix_update h (Nat.le_refl _) _
  breaks _ s doc done t h := h
  breaksAtReference _ s doc done t name h := Store.prefix_update h (Nat.le_refl _) _
  breaksInLoad _ s doc done t r source found stop u h _ _ loaded :=
    (Store.prefix_update h (Nat.le_refl _) _).trans loaded.1
  completes _ s doc t _ _ _ _ h _ := by
    have hleft : s.store <+: (t.leave doc).store := by rwa [Session.leave_store]
    refine ⟨Store.prefix_update hleft (Nat.le_refl _) _, fun d hd => ?_⟩
    cases hd
    -- the one assembly that is handed out is no longer being linked
    show ((Store.update _ _ _).get? _).any _ = false
    rw [Store.get?_update_self, Option.any_map]
    cases (t.leave doc).store.get? s.nextHandle <;> rfl
  abandons _ s doc t stop h := by
    refine ⟨?_, fun d hd => by cases hd⟩
    rwa [Session.abandoned_store, Session.leave_store]

end Linker

/-! ## References -/

theorem exists_forall₂ {α β : Type} {P : α → β → Prop} {xs : List α}
    (h : ∀ x ∈ xs, ∃ y, P x y) : ∃ ys, List.Forall₂ P xs ys := by
  induction xs with
  | nil => exact ⟨[], .nil⟩
  | cons x xs ih =>
    obtain ⟨y, hy⟩ := h x List.mem_cons_self
    obtain ⟨ys, hys⟩ := ih fun z hz => h z (List.mem_cons_of_mem x hz)
    exact ⟨y :: ys, .cons hy hys⟩

theorem map_some_of_forall₂ {α β : Type} {f : α → Option β} {xs : List α} {ys : List β}
    (h : List.Forall₂ (fun x y => f x = some y) xs ys) : ys.map some = xs.map f := by
  induction h with
  | nil => rfl
  | cons hfirst _ ih => rw [List.map_cons, List.map_cons, hfirst, ih]

namespace Session

/-- The assembly of a handle has been linked. -/
def Linked (s : Session) (h : Handle) : Prop :=
  ∃ a, s.store.get? h = some a ∧ a.state = .linked

variable {s t : Session} {h d : Handle}

theorem Linked.isLinking (hd : s.Linked d) : s.isLinking d = false := by
  obtain ⟨a, ha, hlinked⟩ := hd
  simp [Session.isLinking, ha, hlinked]

theorem Linked.of_changed {f : Assembly → Assembly} (hd : s.Linked d) (ht : s.Changed h f t)
    (hne : d ≠ h) : t.Linked d := by
  obtain ⟨a, ha, hlinked⟩ := hd
  exact ⟨a, (ht.get?_ne hne).trans ha, hlinked⟩

end Session

/-- An assembly with more references, and the assemblies that they were linked to. -/
def Assembly.addLinks (names : List String) (ds : List Handle) (a : Assembly) : Assembly :=
  { a with references := a.references ++ names, dependencies := a.dependencies ++ ds }

@[simp] theorem Assembly.addLinks_nil (a : Assembly) : a.addLinks [] [] = a := by
  simp [addLinks]

@[simp] theorem Assembly.addLinks_addLinks (a : Assembly) (names names' : List String)
    (ds ds' : List Handle) :
    (a.addLinks names ds).addLinks names' ds' = a.addLinks (names ++ names') (ds ++ ds') := by
  simp [addLinks]

theorem Assembly.covers_addLinks (names : List String) (ds : List Handle) (a : Assembly) :
    (a.addLinks names ds).Covers a :=
  ⟨List.Subset.refl _, List.subset_append_left _ _⟩

/-- An assembly that declares no less than before does so to all assemblies. -/
theorem Session.Changed.covers {s t : Session} {h : Handle} {f : Assembly → Assembly}
    (ht : s.Changed h f t) (hf : ∀ a, (f a).Covers a) : t.store.Covers s.store := by
  have hsame : s.store.update h id = s.store := List.modify_id h s.store
  have hcovers := Store.covers_update (s := s.store) (h := h) (f := id) fun a _ => hf a
  rwa [hsame, ← ht.store] at hcovers

theorem Session.join_changed (s : Session) (h : Handle) (name : String) (d : Handle) :
    s.Changed h (Assembly.addLinks [name] [d]) (s.join h name d) :=
  (s.referenceAdded_changed h name).trans ((s.record _).dependencyAdded_changed h d)

theorem Session.refer_changed (s : Session) (h : Handle) (name : String) (source : TextSource)
    (text : String) : s.Changed h (·.addReference name) (s.refer h name source text) :=
  ⟨rfl, rfl, rfl, rfl⟩

namespace Linker

variable (L : Linker) (assembly : String) {h : Handle}

section Own

variable {a : Assembly}

/-- A reference that has been linked adds its name and another assembly to its own one. -/
theorem linkReference_own {depth : Nat} {r : Reference} {s t : Session}
    (ha : s.store.get? h = some a) (hlinking : a.state = .linking)
    (hok : L.linkReference (L.loadWithin depth) assembly h r s = (.ok (), t)) :
    ∃ d, d ≠ h ∧ t.store.get? h = some (a.addLinks [r.name] [d]) := by
  -- an assembly that is not being linked is another one
  have hother : ∀ {u : Session} {b : Assembly} {d : Handle}, u.store.get? h = some b →
      b.state = .linking → u.isLinking d = false → d ≠ h := by
    rintro u b d hb hstate hidle rfl
    simp [Session.isLinking, hb, hstate] at hidle
  have hreferred : (s.record (.referenceAdded h r.name)).store.get? h =
      some (a.addReference r.name) := by
    show (s.store.update h _).get? h = _
    rw [Store.get?_update_self, ha]
    rfl
  have hresolved := L.resolved (L.loadWithin depth) assembly h r s
  rw [hok] at hresolved
  cases hresolved with
  | registered d found linked =>
    refine ⟨d, hother hreferred hlinking linked, ?_⟩
    exact (s.join_changed h r.name d).get? ha
  | loaded source text d u free located loaded =>
    obtain ⟨hgrown, hidle⟩ := L.keepsAssemblies.holds depth text r.name (s.refer h r.name source text)
    rw [loaded] at hgrown hidle
    have hkept : u.store.get? h = some (a.addReference r.name) :=
      Store.get?_of_prefix hgrown hreferred
    refine ⟨d, hother hkept hlinking (hidle d rfl), ?_⟩
    show (u.store.update h _).get? h = _
    rw [Store.get?_update_self, hkept]
    rfl

/-- References that have been linked add their names and as many other assemblies. -/
theorem linkReferences_own {depth : Nat} (rs : List Reference) : ∀ {a : Assembly} {s t : Session},
    s.store.get? h = some a → a.state = .linking →
    Action.forEach (L.linkReference (L.loadWithin depth) assembly h) rs s = (.ok (), t) →
    ∃ ds : List Handle, ds.length = rs.length ∧ (∀ d ∈ ds, d ≠ h) ∧
      t.store.get? h = some (a.addLinks (rs.map (·.name)) ds) := by
  induction rs with
  | nil =>
    intro a s t ha _ hok
    cases hok
    exact ⟨[], rfl, by simp, by simpa using ha⟩
  | cons r rs ih =>
    intro a s t ha hlinking hok
    obtain ⟨_, u, hstep, hrest⟩ := Action.andThen_eq_ok hok
    -- the assembly is still being linked, so the other references find it in the same state
    obtain ⟨d, hd, hown⟩ := L.linkReference_own assembly ha hlinking hstep
    obtain ⟨ds, hlength, hds, hown'⟩ := ih hown hlinking hrest
    refine ⟨d :: ds, by simp [hlength], ?_, by simpa using hown'⟩
    intro e he
    rcases List.mem_cons.1 he with rfl | he
    · exact hd
    · exact hds e he

/-- References that have been linked leave all other assemblies as they are. -/
theorem linkReferences_others {depth : Nat} (rs : List Reference) : ∀ {s t : Session},
    Action.forEach (L.linkReference (L.loadWithin depth) assembly h) rs s = (.ok (), t) →
    ∀ {i : Handle} {a : Assembly}, i ≠ h → s.store.get? i = some a → t.store.get? i = some a := by
  induction rs with
  | nil =>
    intro s t hok i a _ ha
    cases hok
    exact ha
  | cons r rs ih =>
    intro s t hok i a hi ha
    obtain ⟨_, u, hstep, hrest⟩ := Action.andThen_eq_ok hok
    refine ih hrest hi ?_
    have hresolved := L.resolved (L.loadWithin depth) assembly h r s
    rw [hstep] at hresolved
    cases hresolved with
    | registered d found linked => exact ((s.join_changed h r.name d).get?_ne hi).trans ha
    | loaded source text d v free located loaded =>
      have hreferred := ((s.refer_changed h r.name source text).get?_ne hi).trans ha
      -- the nested load only adds assemblies behind those that are there
      obtain ⟨hgrown, -⟩ := L.keepsAssemblies.holds depth text r.name (s.refer h r.name source text)
      rw [loaded] at hgrown
      exact ((v.dependencyAdded_changed h d).get?_ne hi).trans (Store.get?_of_prefix hgrown hreferred)

end Own

/-! ## The assembly of a document -/

/-- The assembly of a document that has been linked, with its dependencies and the documents of
    its modules. -/
def linkedAssembly (doc : Document) (uid : String) (ds : List Handle) (ms : List ModuleDocument) :
    Assembly :=
  { Assembly.addLinks (doc.references.map (·.name)) ds (newAssembly doc uid) with
    modules := ms.map ModuleDocument.built, state := .linked }

/-- What has become of a document that has been opened and linked. -/
theorem Stages.linked {L : Linker} {depth : Nat} {doc : Document} {s o p u v : Session}
    (hstages : Stages L (L.loadWithin depth) doc s o p u v) :
    ∃ ds ms, ds.length = doc.references.length ∧ (∀ d ∈ ds, d ≠ s.nextHandle) ∧
      u.store.get? s.nextHandle = some (Assembly.addLinks (doc.references.map (·.name)) ds
        (newAssembly doc (L.uidFor doc s))) ∧
      Buildable u s.nextHandle doc.modules ms ∧
      u.Rebuilt s.nextHandle (ms.map ModuleDocument.built) v ∧
      ((v.leave doc).record (.completed s.nextHandle)).store.get? s.nextHandle =
        some (linkedAssembly doc (L.uidFor doc s) ds ms) := by
  have hown : p.store.get? s.nextHandle = some (newAssembly doc (L.uidFor doc s)) := by
    rw [harvest_eq hstages.harvested, hstages.opens.store]
    exact List.getElem?_concat_length
  obtain ⟨ds, hlength, hothers, hlinked⟩ :=
    L.linkReferences_own doc.name doc.references hown rfl hstages.references
  -- the assembly has no modules before they are built
  obtain ⟨ms, hbuildable, hrebuilt⟩ := buildable_of_buildModules hlinked rfl hstages.modules
  refine ⟨ds, ms, hlength, hothers, hlinked, hbuildable, hrebuilt, ?_⟩
  have hleft : (v.leave doc).store.get? s.nextHandle = v.store.get? s.nextHandle := by
    rw [Session.leave_store]
  exact ((v.leave doc).completed_changed s.nextHandle).get? (hleft.trans (hrebuilt.get? hlinked))

/-! ## References that are settled -/

/-- A reference stands for a linked assembly already, as long as only the assembly `h` changes:
    it is resolved without anything else. -/
def Settles (load : Load) (h : Handle) (s : Session) (name : String) (d : Handle) : Prop :=
  ∀ t f, s.Changed h f t →
    ∃ u, L.linkReference load assembly h { name } t = (.ok (), u) ∧
      t.Changed h (Assembly.addLinks [name] [d]) u

variable {L assembly}

theorem settles_of_registered (load : Load) {s : Session} {name : String} {d : Handle}
    (hfind : s.registry.findByName? name = some d) (hlinked : s.Linked d) (hne : d ≠ h) :
    L.Settles assembly load h s name d := by
  intro t f ht
  have hreferred := ht.trans (t.referenceAdded_changed h name)
  have hidle := (hlinked.of_changed hreferred hne).isLinking
  exact ⟨_, L.linkReference_of_registered load assembly { name } (ht.registry ▸ hfind) hidle,
    t.join_changed h name d⟩

/-- References that are settled are all linked. -/
theorem linkReferences_of_settled {load : Load} (rs : List Reference) : ∀ {s : Session}
    {ds : List Handle}, List.Forall₂ (fun r d => L.Settles assembly load h s r.name d) rs ds →
    ∃ t, Action.forEach (L.linkReference load assembly h) rs s = (.ok (), t) ∧
      s.Changed h (Assembly.addLinks (rs.map (·.name)) ds) t := by
  induction rs with
  | nil =>
    intro s ds hall
    cases hall
    refine ⟨s, rfl, (Session.Changed.refl s h).congr ?_⟩
    intro a _
    simp
  | cons r rs ih =>
    intro s ds hall
    obtain ⟨d, ds, hfirst, hrest, rfl⟩ := List.forall₂_cons_left_iff.1 hall
    obtain ⟨u, hstep, hchanged⟩ := hfirst s id (.refl s h)
    -- what is settled stays so, as only the assembly itself has changed
    have hsettled : List.Forall₂ (fun r d => L.Settles assembly load h u r.name d) rs ds := by
      refine hrest.imp ?_
      intro r d hr t f ht
      exact hr t _ (hchanged.trans ht)
    obtain ⟨t, hlast, hchanged'⟩ := ih hsettled
    refine ⟨t, ?_, (hchanged.trans hchanged').congr ?_⟩
    · rw [Action.forEach]
      have hsame : L.linkReference load assembly h r s = (.ok (), u) := hstep
      rw [Action.andThen_of_ok hsame]
      exact hlast
    · intro a _
      simp

end Linker

end AssemblyLinker
