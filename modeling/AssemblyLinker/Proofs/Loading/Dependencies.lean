import AssemblyLinker.Proofs.Loading.Journal
import AssemblyLinker.Proofs.Loading.Modes

/-! # The graph of dependencies

    An assembly gets its dependencies while it is being linked, and each of them has been
    linked before.  So an edge never goes into an assembly that still gets edges, and no edge
    closes a cycle: this holds of every session that a load passes through
    (`Session.ordered_of_passed`).

    Locating a type goes down these edges without a look at where it has been
    (`Store.Locates`).  Where there is no cycle it follows the pre-order (`Store.Preorder.locates`),
    so it comes to an end, and it never comes back to the assembly in which it began
    (`Session.Ordered.locates`).  The main statement,
    `dependencies_acyclic`, puts these together.
-/

namespace AssemblyLinker

/-! ## Locating without a limit -/

/-- How a type is located, however deep the dependencies nest: of some assemblies in order each
    is looked at first, and then all that it depends on, up to the first that has the type.  The
    second list tells which assemblies are looked at. -/
inductive Store.Locates (store : Store) (name : String) :
    List Handle → List Handle → Option TypeLocation → Prop where
  | exhausted : Locates store name [] [] none
  | here {h : Handle} {rest : List Handle} {a : Assembly} {location : TypeLocation} :
      store.get? h = some a → a.locateLocalType? name = some location →
      Locates store name (h :: rest) [h] (some location)
  | deeper {h : Handle} {rest visited : List Handle} {a : Assembly} {location : TypeLocation} :
      store.get? h = some a → a.locateLocalType? name = none →
      Locates store name a.dependencies visited (some location) →
      Locates store name (h :: rest) (h :: visited) (some location)
  | next {h : Handle} {rest visited visited' : List Handle} {a : Assembly}
      {result : Option TypeLocation} :
      store.get? h = some a → a.locateLocalType? name = none →
      Locates store name a.dependencies visited none →
      Locates store name rest visited' result →
      Locates store name (h :: rest) (h :: visited ++ visited') result

namespace Store

variable {store : Store} {name : String} {h : Handle} {hs rest visited visited' : List Handle}
  {a : Assembly} {order : List Assembly} {below result : Option TypeLocation}

/-- One assembly is looked at, then what it depends on, and then the others. -/
theorem Locates.step (ha : store.get? h = some a)
    (hbelow : store.Locates name a.dependencies visited below)
    (hrest : store.Locates name rest visited' result) : ∃ seen, seen ⊆ visited ++ visited' ∧
      store.Locates name (h :: rest) (h :: seen)
        ((a.locateLocalType? name).or (below.or result)) := by
  cases hlocal : a.locateLocalType? name with
  | some location => exact ⟨[], List.nil_subset _, .here ha hlocal⟩
  | none =>
    rw [Option.none_or]
    cases below with
    | some location => exact ⟨visited, List.subset_append_left _ _, .deeper ha hlocal hbelow⟩
    | none => exact ⟨visited ++ visited', List.Subset.refl _, .next ha hlocal hbelow hrest⟩

/-- A type is located by a search through the pre-order, if every handle that is reached stands
    for an assembly. -/
theorem Preorder.locates (horder : store.Preorder hs order) (name : String) :
    (∀ d ∈ hs, ∀ i, Relation.ReflTransGen store.DependsOn d i → store.get? i ≠ none) →
      ∃ visited, store.Locates name hs visited (order.findSome? (·.locateLocalType? name)) ∧
        ∀ i ∈ visited, ∃ d ∈ hs, Relation.ReflTransGen store.DependsOn d i := by
  induction horder with
  | done => exact fun _ => ⟨[], .exhausted, fun i hi => absurd hi List.not_mem_nil⟩
  | @visit h rest a below others ha _ _ ihbelow ihothers =>
    intro hthere
    obtain ⟨visited, hbelow, hvisited⟩ := ihbelow fun d hd i hpath =>
      hthere h List.mem_cons_self i (.head ⟨a, ha, hd⟩ hpath)
    obtain ⟨visited', hothers, hvisited'⟩ := ihothers fun d hd =>
      hthere d (List.mem_cons_of_mem h hd)
    obtain ⟨seen, hseen, hlocates⟩ := Locates.step ha hbelow hothers
    refine ⟨h :: seen, ?_, fun i hi => ?_⟩
    · rwa [findSome?_cons_eq_or, List.findSome?_append]
    · rcases List.mem_cons.1 hi with rfl | hi
      · exact ⟨i, List.mem_cons_self, .refl⟩
      rcases List.mem_append.1 (hseen hi) with hi | hi
      · obtain ⟨d, hd, hpath⟩ := hvisited i hi
        exact ⟨h, List.mem_cons_self, .head ⟨a, ha, hd⟩ hpath⟩
      · obtain ⟨d, hd, hpath⟩ := hvisited' i hi
        exact ⟨d, List.mem_cons_of_mem h hd, hpath⟩
  | pass hnone => exact fun hthere => absurd hnone (hthere _ List.mem_cons_self _ .refl)

end Store

/-- A store with one more assembly has the others and that one. -/
theorem Store.get?_concat {store : Store} {h : Handle} {a b : Assembly}
    (ha : (store ++ [b]).get? h = some a) : store.get? h = some a ∨ a = b := by
  unfold Store.get? at ha ⊢
  by_cases hold : h < store.length
  · rw [List.getElem?_append_left hold] at ha
    exact .inl ha
  · rw [List.getElem?_append_right (Nat.le_of_not_lt hold)] at ha
    exact .inr (List.mem_singleton.1 (List.mem_of_getElem? ha))

/-! ## No edge closes a cycle -/

/-- Edges that come out of one point, into which there is none, do not close a cycle. -/
theorem acyclic_of_source {α : Type} {r r' : α → α → Prop} {g : α} (hsource : ∀ x, ¬ r' x g)
    (hother : ∀ x y, r' x y → x ≠ g → r x y) (hacyclic : ∀ x, ¬ Relation.TransGen r x x) :
    ∀ x, ¬ Relation.TransGen r' x x := by
  have hback : ∀ x y, Relation.TransGen r' x y → x ≠ g → Relation.TransGen r x y := by
    intro x y hpath
    induction hpath using Relation.TransGen.head_induction_on with
    | single hlast => exact fun hx => .single (hother _ _ hlast hx)
    | @head x z hfirst _ ih =>
      intro hx
      have hz : z ≠ g := fun hz => hsource x (hz ▸ hfirst)
      exact .head (hother x z hfirst hx) (ih hz)
  intro x hcycle
  have hx : x ≠ g := by
    obtain ⟨y, -, hlast⟩ := Relation.TransGen.tail'_iff.1 hcycle
    exact fun hx => hsource y (hx ▸ hlast)
  exact hacyclic x (hback x x hcycle hx)

namespace Session

variable {s t : Session} {e : Event} {h d : Handle}

theorem Linked.ne_of_isLinking (hd : s.Linked d) (hh : s.isLinking h = true) : d ≠ h := by
  rintro rfl
  rw [hd.isLinking] at hh
  cases hh

/-- What an event does to the assemblies of a session. -/
inductive Alters (s : Session) : Event → Prop where
  | nothing (e : Event) : (s.record e).store = s.store → Alters s e
  | creates (a : Assembly) : a.state = .linking → a.dependencies = [] → Alters s (.created a)
  | changes (e : Event) (h : Handle) (f : Assembly → Assembly) : s.isLinking h = true →
      s.Changed h f (s.record e) → (∀ a, (f a).state = a.state) →
      (∀ a, (f a).dependencies = a.dependencies) → Alters s e
  | links (h d : Handle) : s.isLinking h = true → s.Linked d → Alters s (.dependencyAdded h d)
  | completes (h : Handle) (a : Assembly) : s.isLinking h = true → s.store.get? h = some a →
      s.store.SymbolComplete a → Alters s (.completed h)

theorem Permits.alters (he : s.Permits e) : s.Alters e := by
  cases e with
  | created a => exact .creates a he.1 he.2.2
  | referenceAdded h name =>
    exact .changes _ h _ he (s.referenceAdded_changed h name) (fun _ => rfl) fun _ => rfl
  | dependencyAdded h d => exact .links h d he.1 he.2
  | declareCalled h modules =>
    exact .changes _ h _ he (s.declareCalled_changed h modules) (fun _ => rfl) fun _ => rfl
  | defineCalled h modules =>
    exact .changes _ h _ he (s.defineCalled_changed h modules) (fun _ => rfl) fun _ => rfl
  | completed h =>
    obtain ⟨a, ha, hlinking, hcomplete⟩ := he
    exact .completes h a (by simp [isLinking, ha, hlinking]) ha hcomplete
  | abandoned h => exact .nothing _ (s.abandoned_store h)
  | uidDrawn => exact .nothing _ rfl
  | payloadBundled name text => exact .nothing _ rfl
  | bundleCleared => exact .nothing _ rfl
  | textLocated h name source text => exact .nothing _ rfl

/-- A change of an assembly that is being linked keeps all linked ones. -/
theorem Changed.keeps_linked {f : Assembly → Assembly} (ht : s.Changed h f t)
    (hlinking : s.isLinking h = true) {i : Handle} {a : Assembly} (ha : s.store.get? i = some a)
    (hlinked : a.state = .linked) : t.store.get? i = some a := by
  have hi : s.Linked i := ⟨a, ha, hlinked⟩
  rw [ht.get?_ne (hi.ne_of_isLinking hlinking), ha]

/-- From one session to a later one all linked assemblies stay as they are, and no assembly is
    dropped. -/
structure KeepsLinked (s t : Session) : Prop where
  same : ∀ h a, s.store.get? h = some a → a.state = .linked → t.store.get? h = some a
  length : s.store.length ≤ t.store.length

theorem Changed.keepsLinked {f : Assembly → Assembly} (ht : s.Changed h f t)
    (hlinking : s.isLinking h = true) : s.KeepsLinked t := by
  refine ⟨fun _ _ ha hlinked => ht.keeps_linked hlinking ha hlinked, ?_⟩
  rw [ht.store, Store.length_update]

/-- No event changes an assembly that has been linked. -/
theorem Permits.keepsLinked (he : s.Permits e) : s.KeepsLinked (s.record e) := by
  cases he.alters with
  | nothing _ hstore => exact ⟨fun _ _ ha _ => hstore ▸ ha, hstore ▸ Nat.le_refl _⟩
  | creates a _ _ =>
    have hgrown : s.store <+: s.store ++ [a] := List.prefix_append _ _
    exact ⟨fun _ _ ha _ => Store.get?_of_prefix hgrown ha, hgrown.length_le⟩
  | changes _ g f hlinking hchanged _ _ => exact hchanged.keepsLinked hlinking
  | links g d hlinking _ => exact (s.dependencyAdded_changed g d).keepsLinked hlinking
  | completes g _ hlinking _ _ => exact (s.completed_changed g).keepsLinked hlinking

theorem lasting_keepsLinked : Lasting KeepsLinked where
  refl _ := ⟨fun _ _ ha _ => ha, Nat.le_refl _⟩
  trans hst htu := ⟨fun h a ha hlinked => htu.same h a (hst.same h a ha hlinked) hlinked,
    Nat.le_trans hst.length htu.length⟩
  context _ _ := ⟨fun _ _ ha _ => ha, Nat.le_refl _⟩
  event he := he.keepsLinked

theorem KeepsLinked.linked (hkeep : s.KeepsLinked t) (hd : s.Linked d) : t.Linked d := by
  obtain ⟨a, ha, hlinked⟩ := hd
  exact ⟨a, hkeep.same d a ha hlinked, hlinked⟩

/-- A change that leaves the dependencies alone adds no edge. -/
theorem Changed.linksTo {g : Handle} {f : Assembly → Assembly} (ht : s.Changed g f t)
    (hf : ∀ a, (f a).dependencies = a.dependencies) (hlink : t.LinksTo h d) : s.LinksTo h d := by
  obtain ⟨a, ha, hd⟩ := hlink
  by_cases hh : h = g
  · subst hh
    rw [ht.store, Store.get?_update_self] at ha
    obtain ⟨b, hb, rfl⟩ := Option.map_eq_some_iff.1 ha
    rw [hf b] at hd
    exact ⟨b, hb, hd⟩
  · rw [ht.get?_ne hh] at ha
    exact ⟨a, ha, hd⟩

/-- The edges after an event are those before it, and that of a dependency that is added. -/
theorem Permits.linksTo (he : s.Permits e) (hlink : (s.record e).LinksTo h d) :
    s.LinksTo h d ∨ e = .dependencyAdded h d := by
  cases he.alters with
  | nothing _ hstore =>
    unfold LinksTo at hlink ⊢
    rw [hstore] at hlink
    exact .inl hlink
  | creates b _ hnone =>
    left
    obtain ⟨a, ha, hd⟩ := hlink
    rcases Store.get?_concat ha with hold | rfl
    · exact ⟨a, hold, hd⟩
    · rw [hnone] at hd
      exact absurd hd List.not_mem_nil
  | changes _ g f _ hchanged _ hdependencies => exact .inl (hchanged.linksTo hdependencies hlink)
  | links g d' _ _ =>
    obtain ⟨a, ha, hd⟩ := hlink
    -- one assembly has one dependency more, and the others have what they had
    by_cases hh : h = g
    · subst hh
      have hstore : (s.store.update h (·.addDependency d')).get? h = some a := ha
      rw [Store.get?_update_self] at hstore
      obtain ⟨b, hb, rfl⟩ := Option.map_eq_some_iff.1 hstore
      rcases List.mem_append.1 hd with hd | hd
      · exact .inl ⟨b, hb, hd⟩
      · exact .inr (by rw [List.mem_singleton.1 hd])
    · rw [(s.dependencyAdded_changed g d').get?_ne hh] at ha
      exact .inl ⟨a, ha, hd⟩
  | completes g _ _ _ _ => exact .inl ((s.completed_changed g).linksTo (fun _ => rfl) hlink)

/-- Every dependency has been linked, and no assembly depends on itself, directly or not. -/
structure Ordered (s : Session) : Prop where
  linked : ∀ h d, s.LinksTo h d → s.Linked d
  acyclic : ∀ h, ¬ Relation.TransGen s.LinksTo h h

theorem Ordered.record (hs : s.Ordered) (he : s.Permits e) : (s.record e).Ordered := by
  have hlinked : ∀ h d, (s.record e).LinksTo h d → s.Linked d := by
    intro h d hlink
    rcases he.linksTo hlink with hlink | rfl
    · exact hs.linked h d hlink
    · exact he.2
  refine ⟨fun h d hlink => he.keepsLinked.linked (hlinked h d hlink), ?_⟩
  by_cases hadds : ∃ g d, e = .dependencyAdded g d
  · obtain ⟨g, d, rfl⟩ := hadds
    -- the assembly is still being linked, so no other one depends on it
    refine acyclic_of_source (g := g) (fun h hlink => ?_) (fun h i hlink hh => ?_) hs.acyclic
    · exact (hlinked h g hlink).ne_of_isLinking he.1 rfl
    · rcases he.linksTo hlink with hlink | hadded
      · exact hlink
      · cases hadded
        exact absurd rfl hh
  · intro h hcycle
    refine hs.acyclic h (Relation.TransGen.mono (fun i d hlink => ?_) h h hcycle)
    exact (he.linksTo hlink).resolve_right fun hadded => hadds ⟨i, d, hadded⟩

theorem ordered_empty : ({} : Session).Ordered := by
  have hnone : ∀ h d, ¬ ({} : Session).LinksTo h d := by
    rintro h d ⟨a, ha, -⟩
    exact absurd (Store.lt_length_of_get? ha) (Nat.not_lt_zero h)
  refine ⟨fun h d hlink => absurd hlink (hnone h d), fun h hcycle => ?_⟩
  obtain ⟨d, -, hlink⟩ := Relation.TransGen.tail'_iff.1 hcycle
  exact hnone d h hlink

theorem lasting_ordered : Lasting fun s t => s.Ordered → t.Ordered :=
  lasting_of_invariant (fun _ _ hs => ⟨hs.linked, hs.acyclic⟩) fun he hs => hs.record he

/-- Whatever a series of loads passes through, the dependencies are ordered. -/
theorem ordered_of_passed {requests : List LoadRequest} {u : Session}
    (hu : u ∈ Session.passed requests) : u.Ordered :=
  lasting_ordered.from_empty hu ordered_empty

/-! ## The way down comes to an end -/

/-- Locating a type in an assembly comes to an end, as the search through the pre-order below it
    does.  It looks at linked assemblies only, besides the assembly itself, and at that one only at
    first. -/
theorem Ordered.locates (hs : s.Ordered) (name : String) {a : Assembly}
    (ha : s.store.get? h = some a) :
    ∃ visited, s.store.Locates name [h] (h :: visited) (s.store.locateType? a name) ∧
      h ∉ visited ∧ ∀ i ∈ visited, s.Linked i := by
  have hacyclic : s.store.AcyclicBelow a := fun i _ => hs.acyclic i
  have horder := hacyclic.preorder
  have hlinked : ∀ d ∈ a.dependencies, ∀ i, s.Includes d i → s.Linked i := by
    intro d hd i hpath
    rcases Relation.ReflTransGen.cases_tail hpath with rfl | ⟨j, -, hlast⟩
    · exact hs.linked h i ⟨a, ha, hd⟩
    · exact hs.linked j i hlast
  obtain ⟨below, hbelow, hreached⟩ := horder.locates name fun d hd i hpath hnone => by
    obtain ⟨b, hb, -⟩ := hlinked d hd i hpath
    cases hb.symm.trans hnone
  obtain ⟨visited, hvisited, hlocates⟩ := Store.Locates.step ha hbelow .exhausted
  rw [List.append_nil] at hvisited
  rw [Option.or_none] at hlocates
  refine ⟨visited, ?_, fun hmem => ?_, fun i hi => ?_⟩
  · rwa [hacyclic.locateType?_eq horder, findSome?_cons_eq_or]
  · obtain ⟨d, hd, hpath⟩ := hreached h (hvisited hmem)
    exact hs.acyclic h (.head' ⟨a, ha, hd⟩ hpath)
  · obtain ⟨d, hd, hpath⟩ := hreached i (hvisited hi)
    exact hlinked d hd i hpath

end Session

/-- In every session that a series of loads passes through, inside a load or after it:

    * no assembly depends on itself, directly or through others, and every dependency has been
      linked, so an assembly that is still being linked is nobody's dependency;
    * locating a type comes to an end for every assembly and every name, with the answer of
      `Store.locateType?`; the assembly itself is not looked at again, and all others that are
      looked at have been linked;
    * an assembly that has been linked is the same in every later session, so it never gets
      another dependency. -/
theorem dependencies_acyclic (requests : List LoadRequest) :
    (∀ u ∈ Session.passed requests,
      (∀ h, ¬ Relation.TransGen u.LinksTo h h) ∧
      (∀ h d, u.LinksTo h d → u.Linked d) ∧
      ∀ h a, u.store.get? h = some a → ∀ name, ∃ visited,
        u.store.Locates name [h] (h :: visited) (u.store.locateType? a name) ∧
          h ∉ visited ∧ ∀ i ∈ visited, u.Linked i) ∧
    (Session.passed requests).Pairwise fun u v => ∀ h a, u.store.get? h = some a →
      a.state = .linked → v.store.get? h = some a := by
  refine ⟨fun u hu => ?_, ?_⟩
  · have hordered := Session.ordered_of_passed hu
    exact ⟨hordered.acyclic, hordered.linked, fun h a ha name => hordered.locates name ha⟩
  · exact (Session.lasting_keepsLinked.passed requests).imp fun hkept => hkept.same

end AssemblyLinker
