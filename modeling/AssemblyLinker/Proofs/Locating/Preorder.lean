import AssemblyLinker.Proofs.Modules.Locating
import Mathlib.Data.List.Nodup
import Mathlib.Logic.Relation

/-! # Where a type is located

    The assemblies below an assembly form a graph, and locating a type goes through it as if
    it were a tree: the depth-first pre-order (`Store.Preorder`), in which an assembly occurs
    once for each way that leads to it.

    * A bound on the depth cuts this order off, and locating within the bound is a search
      through what is left of it (`locateWithin?_eq_findSome?`).
    * Where no assembly depends on itself, a way down does not meet an assembly twice, so the
      size of the store cuts nothing off (`preorder_within`).
    * What the order holds is what can be reached (`Preorder.mem_iff`).

    So a type is located wherever it can be reached, and of several places it is the first in
    this order that counts: `located_first_in_preorder`.
-/

namespace AssemblyLinker

/-! ## Modules that declare a type -/

/-- A module has a type with a full name. -/
def ModuleInfo.Declares (m : ModuleInfo) (name : String) : Prop :=
  name ∈ m.types.map (·.fullName)

/-- An assembly has a module of its own with a type of a full name. -/
def Assembly.Declares (a : Assembly) (name : String) : Prop :=
  ∃ m ∈ a.modules, m.Declares name

/-- A location is that of the first module of an assembly with a type of a full name. -/
def Assembly.DeclaresAt (a : Assembly) (name : String) (location : TypeLocation) : Prop :=
  ∃ before m after, a.modules = before ++ m :: after ∧ m.Declares name ∧
    (∀ n ∈ before, ¬ n.Declares name) ∧ location = ⟨a.name, m.name⟩

/-- A location is that of the first module of the first assembly with a type of a full name. -/
def LocatedFirst (name : String) (order : List Assembly) (location : TypeLocation) : Prop :=
  ∃ before b after, order = before ++ b :: after ∧ b.DeclaresAt name location ∧
    ∀ c ∈ before, ¬ c.Declares name

namespace Assembly

variable {a : Assembly} {name : String} {location : TypeLocation}

theorem declares_iff : a.Declares name ↔ (a.locateLocalType? name).isSome = true := by
  simp only [locateLocalType?, Option.isSome_map, List.find?_isSome,
    ModuleInfo.findType?_isSome_iff]
  rfl

theorem declaresAt_iff : a.DeclaresAt name location ↔ a.locateLocalType? name = some location := by
  have hdeclares : ∀ m : ModuleInfo, (m.findType? name).isSome = true ↔ m.Declares name :=
    fun _ => ModuleInfo.findType?_isSome_iff
  unfold locateLocalType?
  simp only [Option.map_eq_some_iff, List.find?_eq_some_iff_append, hdeclares, Bool.not_eq_true',
    ← Bool.not_eq_true]
  constructor
  · rintro ⟨before, m, after, hmodules, hm, hbefore, rfl⟩
    exact ⟨m, ⟨hm, before, after, hmodules, hbefore⟩, rfl⟩
  · rintro ⟨m, ⟨hm, before, after, hmodules, hbefore⟩, rfl⟩
    exact ⟨before, m, after, hmodules, hm, hbefore, rfl⟩

end Assembly

/-- The search for a type through assemblies finds it at its first place. -/
theorem locatedFirst_iff {name : String} {order : List Assembly} {location : TypeLocation} :
    LocatedFirst name order location ↔
      order.findSome? (·.locateLocalType? name) = some location := by
  simp only [List.findSome?_eq_some_iff, LocatedFirst, Assembly.declaresAt_iff,
    Assembly.declares_iff, Bool.not_eq_true, Option.isSome_eq_false_iff, Option.isNone_iff_eq_none]

/-- A search looks at the first element first. -/
theorem findSome?_cons_eq_or {α β : Type} (f : α → Option β) (x : α) (l : List α) :
    (x :: l).findSome? f = (f x).or (l.findSome? f) := by
  rw [List.findSome?_cons]
  cases f x <;> rfl

/-- A search through lists in a row. -/
theorem findSome?_flatMap {α β γ : Type} (f : α → List β) (g : β → Option γ) (l : List α) :
    (l.flatMap f).findSome? g = l.findSome? fun x => (f x).findSome? g := by
  induction l with
  | nil => rfl
  | cons x l ih =>
    rw [List.flatMap_cons, List.findSome?_append, ih, findSome?_cons_eq_or]

namespace Store

/-! ## Dependencies -/

/-- The assembly of a handle depends on that of another one. -/
def DependsOn (store : Store) (h d : Handle) : Prop :=
  ∃ a, store.get? h = some a ∧ d ∈ a.dependencies

/-- A handle is below an assembly: dependencies lead there. -/
def Below (store : Store) (a : Assembly) (h : Handle) : Prop :=
  ∃ d ∈ a.dependencies, Relation.ReflTransGen store.DependsOn d h

/-- Nothing below an assembly depends on itself, directly or through others.  An assembly of
    the store that does so itself is below itself. -/
def AcyclicBelow (store : Store) (a : Assembly) : Prop :=
  ∀ h, store.Below a h → ¬ Relation.TransGen store.DependsOn h h

/-- The assemblies of handles in depth-first pre-order: each one, then all below it in the
    order of its dependencies, then the next.  A handle that stands for none is passed over. -/
inductive Preorder (store : Store) : List Handle → List Assembly → Prop where
  | done : Preorder store [] []
  | visit {h : Handle} {rest : List Handle} {a : Assembly} {below others : List Assembly} :
      store.get? h = some a → Preorder store a.dependencies below → Preorder store rest others →
      Preorder store (h :: rest) (a :: (below ++ others))
  | pass {h : Handle} {rest : List Handle} {others : List Assembly} :
      store.get? h = none → Preorder store rest others → Preorder store (h :: rest) others

variable {store store' : Store} {a b : Assembly} {name : String} {h d : Handle}
  {hs rest : List Handle} {order order' : List Assembly} {location : TypeLocation}

theorem Below.step (hbelow : store.Below a h) (hlink : store.DependsOn h d) : store.Below a d := by
  obtain ⟨e, he, hpath⟩ := hbelow
  exact ⟨e, he, hpath.tail hlink⟩

/-- If assemblies depend on older ones only, none depends on itself. -/
theorem acyclicBelow_of_lt (hlt : ∀ h d, store.DependsOn h d → d < h) (a : Assembly) :
    store.AcyclicBelow a := by
  intro h _ hcycle
  have hback : h < h := Relation.TransGen.trans_induction_on (motive := fun {i j} _ => j < i) hcycle
    (fun hlink => hlt _ _ hlink) fun _ _ hij hjk => Nat.lt_trans hjk hij
  exact Nat.lt_irrefl h hback

/-- The assembly of a handle is not below itself. -/
theorem AcyclicBelow.not_below_self (hacyclic : store.AcyclicBelow a) (ha : store.get? h = some a) :
    ¬ store.Below a h := by
  intro hbelow
  obtain ⟨d, hd, hpath⟩ := hbelow
  exact hacyclic h ⟨d, hd, hpath⟩ (Relation.TransGen.head' ⟨a, ha, hd⟩ hpath)

/-! ## The pre-order -/

namespace Preorder

theorem single (ha : store.get? h = some a) (hbelow : store.Preorder a.dependencies order) :
    store.Preorder [h] (a :: order) := by
  have hvisit := Preorder.visit ha hbelow .done
  rwa [List.append_nil] at hvisit

theorem append (hfirst : store.Preorder hs order) (hrest : store.Preorder rest order') :
    store.Preorder (hs ++ rest) (order ++ order') := by
  induction hfirst with
  | done => exact hrest
  | visit ha hbelow _ _ ih =>
    rw [List.cons_append, List.cons_append, List.append_assoc]
    exact .visit ha hbelow ih
  | pass hnone _ ih => exact .pass hnone ih

/-- The pre-order of handles comes from that of each. -/
theorem of_each {below : Handle → List Assembly} (heach : ∀ d ∈ hs, store.Preorder [d] (below d)) :
    store.Preorder hs (hs.flatMap below) := by
  induction hs with
  | nil => exact .done
  | cons d hs ih =>
    rw [List.flatMap_cons]
    exact (heach d List.mem_cons_self).append (ih fun e he => heach e (List.mem_cons_of_mem d he))

theorem unique (h : store.Preorder hs order) : ∀ {order' : List Assembly},
    store.Preorder hs order' → order' = order := by
  induction h with
  | done =>
    intro order' h'
    cases h'
    rfl
  | visit ha _ _ ihbelow ihothers =>
    intro order' h'
    cases h' with
    | visit hb hbelow hothers =>
      obtain rfl := Option.some.inj (hb.symm.trans ha)
      rw [ihbelow hbelow, ihothers hothers]
    | pass hnone _ => cases hnone.symm.trans ha
  | pass hnone _ ih =>
    intro order' h'
    cases h' with
    | visit hb _ _ => cases hb.symm.trans hnone
    | pass _ hothers => exact ih hothers

/-- The pre-order holds the assemblies that can be reached. -/
theorem mem_iff (h : store.Preorder hs order) : b ∈ order ↔
    ∃ d ∈ hs, ∃ i, Relation.ReflTransGen store.DependsOn d i ∧ store.get? i = some b := by
  induction h with
  | done => simp
  | @visit h rest a below others ha _ _ ihbelow ihothers =>
    -- what is reached from the handle is its assembly, or below it
    have hfirst : (∃ i, Relation.ReflTransGen store.DependsOn h i ∧ store.get? i = some b) ↔
        b = a ∨ b ∈ below := by
      rw [ihbelow]
      constructor
      · rintro ⟨i, hpath, hb⟩
        rcases Relation.ReflTransGen.cases_head hpath with rfl | ⟨d, ⟨a', ha', hd⟩, hpath⟩
        · exact .inl (Option.some.inj (hb.symm.trans ha))
        · obtain rfl := Option.some.inj (ha'.symm.trans ha)
          exact .inr ⟨d, hd, i, hpath, hb⟩
      · rintro (rfl | ⟨d, hd, i, hpath, hb⟩)
        · exact ⟨h, .refl, ha⟩
        · exact ⟨i, .head ⟨a, ha, hd⟩ hpath, hb⟩
    rw [List.exists_mem_cons_iff, hfirst, ← ihothers, List.mem_cons, List.mem_append, or_assoc]
  | @pass h rest others hnone _ ih =>
    -- nothing is reached from a handle that stands for nothing
    have hfirst : ¬ ∃ i, Relation.ReflTransGen store.DependsOn h i ∧ store.get? i = some b := by
      rintro ⟨i, hpath, hb⟩
      rcases Relation.ReflTransGen.cases_head hpath with rfl | ⟨d, ⟨a', ha', -⟩, -⟩
      · cases hb.symm.trans hnone
      · cases ha'.symm.trans hnone
    rw [ih, List.exists_mem_cons_iff, or_iff_right hfirst]

/-- The pre-order is the same in a store with the same assemblies wherever it leads. -/
theorem congr (h : store.Preorder hs order) :
    (∀ d ∈ hs, ∀ i, Relation.ReflTransGen store.DependsOn d i → store'.get? i = store.get? i) →
      store'.Preorder hs order := by
  induction h with
  | done => exact fun _ => .done
  | @visit h rest a below others ha _ _ ihbelow ihothers =>
    intro hsame
    refine .visit ?_ (ihbelow fun d hd i hpath => ?_) (ihothers fun d hd => ?_)
    · rw [hsame h List.mem_cons_self h .refl, ha]
    · exact hsame h List.mem_cons_self i (.head ⟨a, ha, hd⟩ hpath)
    · exact hsame d (List.mem_cons_of_mem h hd)
  | @pass h rest others hnone _ ih =>
    intro hsame
    refine .pass ?_ (ih fun d hd => hsame d (List.mem_cons_of_mem h hd))
    rw [hsame h List.mem_cons_self h .refl, hnone]

end Preorder

/-! ## A bound on the depth -/

/-- The assembly of a handle and those below it in pre-order, along at most `depth` steps. -/
def preorderWithin (store : Store) : Nat → Handle → List Assembly
  | 0, _ => []
  | depth + 1, h =>
    match store.get? h with
    | none => []
    | some a => a :: a.dependencies.flatMap (preorderWithin store depth)

/-- Locating within a depth is a search through the pre-order within that depth. -/
theorem locateWithin?_eq_findSome? (store : Store) (name : String) (depth : Nat) :
    ∀ h, store.locateWithin? name depth h =
      (store.preorderWithin depth h).findSome? (·.locateLocalType? name) := by
  induction depth with
  | zero => exact fun _ => rfl
  | succ depth ih =>
    intro h
    unfold locateWithin? preorderWithin
    cases store.get? h with
    | none => rfl
    | some a =>
      simp only [findSome?_cons_eq_or, findSome?_flatMap, ← ih]

/-- Where there is no cycle, a depth that the handles on the way leave cuts nothing off: a way
    with as many handles as the store has assemblies does not go on. -/
theorem preorder_within (depth : Nat) : ∀ {h : Handle} {way : List Handle}, way.Nodup →
    (∀ i ∈ way, Relation.TransGen store.DependsOn i h) →
    (∀ i, Relation.ReflTransGen store.DependsOn h i → ¬ Relation.TransGen store.DependsOn i i) →
    store.length ≤ depth + way.length → store.Preorder [h] (store.preorderWithin depth h) := by
  induction depth with
  | zero =>
    intro h way hnodup hway hacyclic hlength
    refine .pass (Option.eq_none_iff_forall_ne_some.2 fun a ha => ?_) .done
    -- the handle would be one more than there are
    have hfresh : (h :: way).Nodup :=
      List.nodup_cons.2 ⟨fun hmem => hacyclic h .refl (hway h hmem), hnodup⟩
    have hsubset : h :: way ⊆ List.range store.length := by
      intro i hi
      rcases List.mem_cons.1 hi with rfl | hi
      · exact List.mem_range.2 (lt_length_of_get? ha)
      · obtain ⟨d, ⟨b, hb, -⟩, -⟩ := Relation.TransGen.head'_iff.1 (hway i hi)
        exact List.mem_range.2 (lt_length_of_get? hb)
    have hle := hfresh.length_le_of_subset hsubset
    rw [List.length_cons, List.length_range] at hle
    omega
  | succ depth ih =>
    intro h way hnodup hway hacyclic hlength
    unfold preorderWithin
    cases ha : store.get? h with
    | none => exact .pass ha .done
    | some a =>
      -- the handle joins the way, as it is not on it yet
      have hfresh : (h :: way).Nodup :=
        List.nodup_cons.2 ⟨fun hmem => hacyclic h .refl (hway h hmem), hnodup⟩
      refine .single ha (.of_each fun d hd => ih hfresh (fun i hi => ?_) (fun i hpath => ?_) ?_)
      · rcases List.mem_cons.1 hi with rfl | hi
        · exact .single ⟨a, ha, hd⟩
        · exact (hway i hi).tail ⟨a, ha, hd⟩
      · exact hacyclic i (.head ⟨a, ha, hd⟩ hpath)
      · rw [List.length_cons]
        omega

/-- Where there is no cycle below an assembly, all below it has a pre-order. -/
theorem AcyclicBelow.preorder (hacyclic : store.AcyclicBelow a) : store.Preorder a.dependencies
    (a.dependencies.flatMap (store.preorderWithin store.length)) := by
  refine Preorder.of_each fun d hd => preorder_within store.length List.nodup_nil
    (fun i hi => absurd hi List.not_mem_nil) (fun i hpath => hacyclic i ⟨d, hd, hpath⟩) ?_
  exact Nat.le_refl _

/-- Locating a type in an assembly is a search through it and the pre-order below it. -/
theorem AcyclicBelow.locateType?_eq (hacyclic : store.AcyclicBelow a)
    (horder : store.Preorder a.dependencies order) (name : String) :
    store.locateType? a name = (a :: order).findSome? (·.locateLocalType? name) := by
  rw [horder.unique hacyclic.preorder |>.symm]
  unfold locateType?
  simp only [findSome?_cons_eq_or, findSome?_flatMap, ← locateWithin?_eq_findSome?]

theorem AcyclicBelow.locateType?_isSome_iff (hacyclic : store.AcyclicBelow a)
    (horder : store.Preorder a.dependencies order) :
    (store.locateType? a name).isSome = true ↔ a.Declares name ∨ ∃ b ∈ order, b.Declares name := by
  simp only [hacyclic.locateType?_eq horder, List.findSome?_isSome_iff, ← Assembly.declares_iff,
    List.exists_mem_cons_iff]

/-! ## Changes of the assembly -/

/-- A store has the same assemblies below an assembly as another one. -/
def SameBelow (store' store : Store) (a : Assembly) : Prop :=
  ∀ h, store.Below a h → store'.get? h = store.get? h

/-- A change of the assembly itself leaves all below it as it was. -/
theorem AcyclicBelow.sameBelow_update (hacyclic : store.AcyclicBelow a)
    (ha : store.get? h = some a) (f : Assembly → Assembly) :
    (store.update h f).SameBelow store a := by
  intro i hbelow
  refine get?_update_ne store f ?_
  rintro rfl
  exact hacyclic.not_below_self ha hbelow

theorem SameBelow.below (hsame : store'.SameBelow store a)
    (hdependencies : b.dependencies = a.dependencies) (hbelow : store'.Below b h) :
    store.Below a h := by
  obtain ⟨d, hd, hpath⟩ := hbelow
  rw [hdependencies] at hd
  induction hpath with
  | refl => exact ⟨d, hd, .refl⟩
  | tail _ hlink ih =>
    obtain ⟨c, hc, he⟩ := hlink
    rw [hsame _ ih] at hc
    exact ih.step ⟨c, hc, he⟩

theorem SameBelow.acyclicBelow (hsame : store'.SameBelow store a)
    (hdependencies : b.dependencies = a.dependencies) (hacyclic : store.AcyclicBelow a) :
    store'.AcyclicBelow b := by
  intro h hbelow hcycle
  refine hacyclic h (hsame.below hdependencies hbelow) ?_
  -- each step of the cycle leaves from below the assembly
  have hstays : ∀ i, Relation.TransGen store'.DependsOn h i →
      Relation.TransGen store.DependsOn h i ∧ store.Below a i := by
    intro i hpath
    induction hpath with
    | single hlink =>
      obtain ⟨c, hc, hd⟩ := hlink
      have hh := hsame.below hdependencies hbelow
      rw [hsame _ hh] at hc
      exact ⟨.single ⟨c, hc, hd⟩, hh.step ⟨c, hc, hd⟩⟩
    | tail _ hlink ih =>
      obtain ⟨c, hc, hd⟩ := hlink
      rw [hsame _ ih.2] at hc
      exact ⟨ih.1.tail ⟨c, hc, hd⟩, ih.2.step ⟨c, hc, hd⟩⟩
  exact (hstays h hcycle).1

theorem SameBelow.preorder (hsame : store'.SameBelow store a)
    (horder : store.Preorder a.dependencies order) : store'.Preorder a.dependencies order :=
  horder.congr fun d hd i hpath => hsame i ⟨d, hd, hpath⟩

/-- One more module adds its types to those that are located. -/
theorem SameBelow.locateType?_addModule (hsame : store'.SameBelow store a)
    (hacyclic : store.AcyclicBelow a) (m : ModuleInfo) :
    (store'.locateType? (a.addModule m) name).isSome = true ↔
      (store.locateType? a name).isSome = true ∨ m.Declares name := by
  have horder := hacyclic.preorder
  have hdeclares : (a.addModule m).Declares name ↔ a.Declares name ∨ m.Declares name := by
    simp only [Assembly.Declares, Assembly.addModule, List.mem_append, List.mem_singleton,
      or_and_right, exists_or, exists_eq_left]
  have hacyclic' : store'.AcyclicBelow (a.addModule m) := hsame.acyclicBelow rfl hacyclic
  rw [hacyclic'.locateType?_isSome_iff (hsame.preorder horder),
    hacyclic.locateType?_isSome_iff horder, hdeclares, or_right_comm]

/-- One more dependency leaves every type where it is located. -/
theorem SameBelow.locateType?_addDependency (hsame : store'.SameBelow store a)
    (hacyclic : store.AcyclicBelow a) (d : Handle)
    (hlocated : store.locateType? a name = some location) :
    store'.locateType? (a.addDependency d) name = some location := by
  have horder := hacyclic.preorder
  have hbefore : store'.locateType? a name = some location := by
    rw [(hsame.acyclicBelow rfl hacyclic).locateType?_eq (hsame.preorder horder),
      ← hacyclic.locateType?_eq horder, hlocated]
  -- the new dependency is asked last
  have hlast : store'.locateType? (a.addDependency d) name =
      (store'.locateType? a name).or (store'.locateWithin? name store'.length d) := by
    simp only [locateType?, Assembly.addDependency, List.findSome?_append, ← Option.or_assoc]
    rw [List.findSome?_singleton]
    rfl
  rw [hlast, hbefore, Option.some_or]

end Store

/-- For every assembly with no cycle below it there is one list of what is below it in
    depth-first pre-order.  It holds the assemblies that can be reached through dependencies,
    and, for every name:

    * a type is located exactly if the assembly or one that can be reached has a module with a
      type of that full name;
    * the location is that of the first such module of the first such assembly, the assembly
      itself coming before the list;
    * with one more module, located is what has been located and what the module has; with one
      more dependency, whichever it is, what has been located has the same location.  This is
      so whether or not the store has the change, too, as every change of the assembly itself
      leaves all below it the same. -/
theorem located_first_in_preorder (store : Store) (a : Assembly)
    (hacyclic : store.AcyclicBelow a) :
    ∃ order, store.Preorder a.dependencies order ∧
      (∀ order', store.Preorder a.dependencies order' → order' = order) ∧
      (∀ b, b ∈ order ↔ ∃ h, store.Below a h ∧ store.get? h = some b) ∧
      (∀ name, (store.locateType? a name).isSome = true ↔
        a.Declares name ∨ ∃ h b, store.Below a h ∧ store.get? h = some b ∧ b.Declares name) ∧
      (∀ name location, store.locateType? a name = some location ↔
        LocatedFirst name (a :: order) location) ∧
      (∀ h f, store.get? h = some a → (store.update h f).SameBelow store a) ∧
      ∀ store' : Store, store'.SameBelow store a →
        (∀ name (m : ModuleInfo), (store'.locateType? (a.addModule m) name).isSome = true ↔
          (store.locateType? a name).isSome = true ∨ m.Declares name) ∧
        ∀ name d location, store.locateType? a name = some location →
          store'.locateType? (a.addDependency d) name = some location := by
  have horder := hacyclic.preorder
  generalize a.dependencies.flatMap (store.preorderWithin store.length) = order at horder
  have hmem : ∀ b, b ∈ order ↔ ∃ h, store.Below a h ∧ store.get? h = some b := by
    intro b
    rw [horder.mem_iff]
    constructor
    · rintro ⟨d, hd, h, hpath, hb⟩
      exact ⟨h, ⟨d, hd, hpath⟩, hb⟩
    · rintro ⟨h, ⟨d, hd, hpath⟩, hb⟩
      exact ⟨d, hd, h, hpath, hb⟩
  refine ⟨order, horder, fun _ => horder.unique, hmem, fun name => ?_, fun name location => ?_,
    fun h f ha => hacyclic.sameBelow_update ha f, fun store' hsame => ⟨fun name m => ?_, ?_⟩⟩
  · rw [hacyclic.locateType?_isSome_iff horder]
    constructor
    · rintro (hown | ⟨b, hb, hdeclares⟩)
      · exact .inl hown
      · obtain ⟨h, hbelow, hb⟩ := (hmem b).1 hb
        exact .inr ⟨h, b, hbelow, hb, hdeclares⟩
    · rintro (hown | ⟨h, b, hbelow, hb, hdeclares⟩)
      · exact .inl hown
      · exact .inr ⟨b, (hmem b).2 ⟨h, hbelow, hb⟩, hdeclares⟩
  · rw [hacyclic.locateType?_eq horder, locatedFirst_iff]
  · exact hsame.locateType?_addModule hacyclic m
  · exact fun name d location => hsame.locateType?_addDependency hacyclic d

/-! ### A dependency of a dependency -/

/-- An assembly whose one module, of its own name, has one type. -/
def oneTyped (name typeName : String) (dependencies : List Handle) : Assembly :=
  { name, uid := name, dependencies, modules := [⟨name, "", [.declared "" typeName]⟩] }

/-- `Base` has the type `Shape`, `Gfx` depends on it, and `Ui` depends on it and has a `Shape`
    of its own. -/
def shapes : Store := [oneTyped "Base" "Shape" [], oneTyped "Gfx" "Canvas" [0],
  oneTyped "Ui" "Shape" [0]]

/-- A program that depends on `Gfx`, on `Ui`, and on `Gfx` again. -/
def drawing : Assembly := oneTyped "Drawing" "Main" [1, 2, 1]

/-- `Shape` is that of `Base`, which is below the first dependency, and not that of `Ui`, which is
    a dependency itself. -/
theorem deeper_type_first : shapes.AcyclicBelow drawing ∧
    LocatedFirst "Shape" [drawing, oneTyped "Gfx" "Canvas" [0], oneTyped "Base" "Shape" [],
      oneTyped "Ui" "Shape" [0], oneTyped "Base" "Shape" [], oneTyped "Gfx" "Canvas" [0],
      oneTyped "Base" "Shape" []] ⟨"Base", "Base"⟩ ∧
    shapes.locateType? drawing "Shape" = some ⟨"Base", "Base"⟩ := by
  have hacyclic : shapes.AcyclicBelow drawing := by
    have holder : ∀ h < 3, ∀ d ∈ (shapes.get? h).elim [] (·.dependencies), d < h := by decide
    refine Store.acyclicBelow_of_lt ?_ drawing
    rintro h d ⟨a, ha, hd⟩
    exact holder h (Store.lt_length_of_get? ha) d (by rwa [ha])
  obtain ⟨order, -, hunique, -, -, hlocated, -⟩ := located_first_in_preorder shapes drawing hacyclic
  have hbase : shapes.Preorder [0] [oneTyped "Base" "Shape" []] := .single rfl .done
  have hgfx : shapes.Preorder [1] [oneTyped "Gfx" "Canvas" [0], oneTyped "Base" "Shape" []] :=
    .single rfl hbase
  have hui : shapes.Preorder [2] [oneTyped "Ui" "Shape" [0], oneTyped "Base" "Shape" []] :=
    .single rfl hbase
  have horder := hunique _ (hgfx.append (hui.append hgfx))
  have hfirst : shapes.locateType? drawing "Shape" = some ⟨"Base", "Base"⟩ := by decide
  refine ⟨hacyclic, ?_, hfirst⟩
  have hplace := (hlocated "Shape" ⟨"Base", "Base"⟩).1 hfirst
  rwa [← horder] at hplace

end AssemblyLinker
