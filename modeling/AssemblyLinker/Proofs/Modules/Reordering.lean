import AssemblyLinker.Proofs.Modules.Building
import AssemblyLinker.Proofs.Modules.Reading

/-! # Modules in another order

    An order is the list of the places that things are taken from (`pick`).  The values of
    modules may be put in another order, and the types in each of them (`rearrange`,
    `Json.reorderTypes`).  They are read as the same documents in that order
    (`Arranges.reads`, `Arranges.exists_reads`), and with every module and type once they have
    the same names and the same types.
-/

namespace AssemblyLinker

/-! ## Lists in another order -/

section Orders

variable {α β : Type} {places : List Nat} {xs : List α}

/-- The elements of a list at the given places, in the order of the places. -/
def pick (places : List Nat) (xs : List α) : List α := places.filterMap (xs[·]?)

theorem pick_map (f : α → β) : pick places (xs.map f) = (pick places xs).map f := by
  unfold pick
  rw [List.map_filterMap]
  simp only [List.getElem?_map]

theorem pick_range (xs : List α) : pick (List.range xs.length) xs = xs := by
  unfold pick
  induction xs with
  | nil => rfl
  | cons x xs ih =>
    rw [List.length_cons, List.range_succ_eq_map, List.filterMap_cons]
    simpa [List.filterMap_map, Function.comp_def] using ih

theorem exists_map_ok {ε : Type} {f : α → Except ε β} (h : ∀ x ∈ xs, ∃ y, f x = .ok y) :
    ∃ ys : List β, xs.map f = ys.map .ok := by
  induction xs with
  | nil => exact ⟨[], rfl⟩
  | cons x xs ih =>
    obtain ⟨y, hy⟩ := h x List.mem_cons_self
    obtain ⟨ys, hys⟩ := ih fun z hz => h z (List.mem_cons_of_mem x hz)
    exact ⟨y :: ys, by rw [List.map_cons, List.map_cons, hy, hys]⟩

/-- With every place once, the elements are the same. -/
theorem pick_perm (hplaces : places.Perm (List.range xs.length)) : (pick places xs).Perm xs := by
  have hperm := hplaces.filterMap (xs[·]?)
  rwa [← pick, ← pick, pick_range] at hperm

/-- Where a module comes from, and where its types come from. -/
structure ModuleOrder where
  place : Nat
  types : List Nat
  deriving DecidableEq, Repr

/-- Modules at the places of their orders, each with its own types in another order; `reorder`
    says what that is. -/
def rearrange (reorder : List Nat → α → α) (orders : List ModuleOrder) (xs : List α) : List α :=
  orders.filterMap fun o => (xs[o.place]?).map (reorder o.types)

/-- What is done to each element may be done before or after. -/
theorem map_rearrange {reorder : List Nat → α → α} {reorder' : List Nat → β → β} {f : α → β}
    (orders : List ModuleOrder) (hf : ∀ places x, f (reorder places x) = reorder' places (f x)) :
    (rearrange reorder orders xs).map f = rearrange reorder' orders (xs.map f) := by
  unfold rearrange
  rw [List.map_filterMap]
  apply List.filterMap_congr
  intro o _
  rw [List.getElem?_map]
  cases xs[o.place]? with
  | none => rfl
  | some x => exact congrArg some (hf o.types x)

theorem rearrange_same (orders : List ModuleOrder) :
    rearrange (fun _ x => x) orders xs = pick (orders.map (·.place)) xs := by
  unfold rearrange pick
  rw [List.filterMap_map]
  apply List.filterMap_congr
  intro o _
  exact Option.map_id'

theorem mem_rearrange {reorder : List Nat → α → α} {orders : List ModuleOrder} {y : α} :
    y ∈ rearrange reorder orders xs ↔
      ∃ o ∈ orders, ∃ x, xs[o.place]? = some x ∧ reorder o.types x = y := by
  simp [rearrange]

/-- Where changing the order of an element does the same to its parts, the parts of all elements
    are those in the order of the places. -/
theorem flatMap_rearrange_perm {reorder : List Nat → α → α} {parts : α → List β}
    (orders : List ModuleOrder)
    (hparts : ∀ o ∈ orders, ∀ x, xs[o.place]? = some x →
      (parts (reorder o.types x)).Perm (parts x)) :
    ((rearrange reorder orders xs).flatMap parts).Perm
      ((pick (orders.map (·.place)) xs).flatMap parts) := by
  induction orders with
  | nil => exact .refl _
  | cons o orders ih =>
    have hrest := ih fun p hp => hparts p (List.mem_cons_of_mem o hp)
    unfold rearrange pick at hrest ⊢
    rw [List.map_cons, List.filterMap_cons, List.filterMap_cons]
    cases hx : xs[o.place]? with
    | none => exact hrest
    | some x =>
      simp only [Option.map_some, List.flatMap_cons]
      exact (hparts o List.mem_cons_self x hx).append hrest

end Orders

/-! ## Values in another order -/

namespace Json

/-- A list with its items in another order. -/
def reorderItems (places : List Nat) : Json → Json
  | .arr items => .arr (pick places items)
  | j => j

/-- Changes the value under a key. -/
def Members.modify (key : String) (f : Json → Json) : Members → Members
  | [] => []
  | (k, v) :: rest => if k = key then (k, f v) :: rest else (k, v) :: modify key f rest

theorem get?_modify_self (key : String) (f : Json → Json) (ms : Members) :
    (ms.modify key f).get? key = (ms.get? key).map f := by
  induction ms with
  | nil => rfl
  | cons m rest ih =>
    obtain ⟨k, v⟩ := m
    rw [Members.modify, Members.get?]
    by_cases hk : k = key
    · rw [if_pos hk, if_pos hk, Members.get?, if_pos hk]
      rfl
    · rw [if_neg hk, if_neg hk, Members.get?, if_neg hk, ih]

theorem get?_modify_ne {key k : String} (hk : k ≠ key) (f : Json → Json) (ms : Members) :
    (ms.modify key f).get? k = ms.get? k := by
  induction ms with
  | nil => rfl
  | cons m rest ih =>
    obtain ⟨k', v⟩ := m
    rw [Members.modify, Members.get?]
    by_cases hk' : k' = key
    · have hne : ¬ k' = k := fun h => hk (h.symm.trans hk')
      rw [if_pos hk', Members.get?, if_neg hne, if_neg hne]
    · rw [if_neg hk', Members.get?, ih]

/-- A change that passes the check on its key does so for all members. -/
theorem checkMembers_modify {check : String → Json → Except Mismatch Unit} {key : String}
    {f : Json → Json} {ms : Members}
    (hcheck : ∀ v, ms.get? key = some v → (check key (f v) = .ok () ↔ check key v = .ok ())) :
    checkMembers check (ms.modify key f) = .ok () ↔ checkMembers check ms = .ok () := by
  induction ms with
  | nil => rfl
  | cons m rest ih =>
    obtain ⟨k, v⟩ := m
    rw [Members.modify]
    by_cases hk : k = key
    · subst hk
      rw [if_pos rfl, checkMembers_cons_eq_ok_iff, checkMembers_cons_eq_ok_iff,
        hcheck v (if_pos rfl)]
    · rw [if_neg hk, checkMembers_cons_eq_ok_iff, checkMembers_cons_eq_ok_iff,
        ih fun v hv => hcheck v (by rwa [Members.get?, if_neg hk])]

/-- The list of types in the value of a module. -/
def typeList? (j : Json) : Option Json := j.part? "types" 3

/-- The value of a module with its types in another order. -/
def reorderTypes (places : List Nat) : Json → Json
  | .obj members => .obj (Members.modify "types" (reorderItems places) members)
  | .arr items => .arr (items.modify 3 (reorderItems places))
  | j => j

variable {places : List Nat} {j : Json}

theorem typeList?_reorderTypes :
    (j.reorderTypes places).typeList? = j.typeList?.map (reorderItems places) := by
  cases j with
  | obj ms => exact get?_modify_self "types" _ ms
  | arr items => simp [reorderTypes, typeList?, part?]
  | null | bool | num | str => rfl

theorem part?_reorderTypes {key : String} {place : Nat} (hkey : key ≠ "types")
    (hplace : place ≠ 3) :
    (j.reorderTypes places).part? key place = j.part? key place := by
  cases j with
  | obj ms => exact get?_modify_ne hkey _ ms
  | arr items => simp [reorderTypes, part?, Ne.symm hplace]
  | null | bool | num | str => rfl

/-! ### Lists that are read -/

section Lists

variable {α : Type} {item : Decoder α}

/-- A list that is read is read in every order. -/
theorem partAs_reorderItems {v? : Option Json} {as : List α}
    (h : partAs (some []) (asList item) v? = some as) :
    partAs (some []) (asList item) (v?.map (reorderItems places)) = some (pick places as) := by
  cases v? with
  | none =>
    obtain rfl : [] = as := Option.some.inj h
    simp [partAs, pick]
  | some v =>
    have h := toOption_eq_some_iff.1 h
    cases v with
    | arr items =>
      have hitems : items.map item = as.map .ok := eachItem_eq_ok_iff.1 h
      refine toOption_eq_some_iff.2 ?_
      show eachItem item (pick places items) = _
      rw [eachItem_eq_ok_iff, ← pick_map, ← pick_map, hitems]
    | null | bool | num | str | obj => cases h

/-- A list that is read in an order of all of its items is read. -/
theorem exists_partAs {v? : Option Json} {as : List α}
    (hplaces : ∀ items, v? = some (.arr items) → places.Perm (List.range items.length))
    (h : partAs (some []) (asList item) (v?.map (reorderItems places)) = some as) :
    ∃ as, partAs (some []) (asList item) v? = some as := by
  cases v? with
  | none => exact ⟨[], rfl⟩
  | some v =>
    have h := toOption_eq_some_iff.1 h
    cases v with
    | arr items =>
      have hpicked : (pick places items).map item = as.map .ok := eachItem_eq_ok_iff.1 h
      have hall : ∀ j ∈ items, ∃ a, item j = .ok a := by
        intro j hj
        have hmem := (pick_perm (hplaces items rfl)).mem_iff.2 hj
        obtain ⟨a, -, ha⟩ := List.mem_map.1 (hpicked ▸ List.mem_map_of_mem hmem)
        exact ⟨a, ha.symm⟩
      obtain ⟨bs, hbs⟩ := exists_map_ok hall
      exact ⟨bs, toOption_eq_some_iff.2 (eachItem_eq_ok_iff.2 hbs)⟩
    | null | bool | num | str | obj => cases h

end Lists

end Json

/-! ## Documents in another order -/

open Json

namespace ModuleDocument

/-- A document with its types in another order. -/
def reorder (places : List Nat) (d : ModuleDocument) : ModuleDocument :=
  { d with types := pick places d.types }

section Reading

variable {places : List Nat} {d : ModuleDocument} {j : Json}

/-- Parts are read as the same ones, and the types as those in the other order. -/
theorem ReadFrom.reorder (h : d.ReadFrom j) :
    (d.reorder places).ReadFrom (j.reorderTypes places) where
  kind := by
    rw [part?_reorderTypes (by decide) (by decide)]
    exact h.kind
  name := by
    rw [part?_reorderTypes (by decide) (by decide)]
    exact h.name
  version := by
    rw [part?_reorderTypes (by decide) (by decide)]
    exact h.version
  types := by
    show partAs _ _ (j.reorderTypes places).typeList? = _
    rw [typeList?_reorderTypes]
    exact partAs_reorderItems h.types

variable (hplaces : ∀ items, j.typeList? = some (.arr items) →
  places.Perm (List.range items.length))
include hplaces

theorem exists_readFrom (h : d.ReadFrom (j.reorderTypes places)) :
    ∃ e : ModuleDocument, e.ReadFrom j ∧ e.kind = d.kind := by
  obtain ⟨hkind, hname, hversion, htypes⟩ := h
  rw [part?_reorderTypes (by decide) (by decide)] at hkind hname hversion
  have htypes : partAs (some []) (asList TypeDocument.ofJson) (j.reorderTypes places).typeList? =
      some d.types := htypes
  rw [typeList?_reorderTypes] at htypes
  obtain ⟨ts, hts⟩ := exists_partAs hplaces htypes
  exact ⟨⟨d.kind, d.name, d.version, ts⟩, ⟨hkind, hname, hversion, hts⟩, rfl⟩

/-- The check on the members of a value does not look at the order of its types. -/
theorem fits_reorderTypes : Fits (j.reorderTypes places) ↔ Fits j := by
  -- the only member that changes is checked by reading it as a list of types
  have hcheck : ∀ v, checkMember "types" v = .ok () ↔
      ∃ ts, partAs (some []) (asList TypeDocument.ofJson) (some v) = some ts := by
    intro v
    show (asList TypeDocument.ofJson v).map _ = _ ↔ ∃ ts, (asList _ v).toOption = some ts
    cases asList TypeDocument.ofJson v <;> simp [Except.map, Except.toOption]
  cases j with
  | obj ms =>
    refine checkMembers_modify fun v hv => ?_
    rw [hcheck, hcheck]
    constructor
    · rintro ⟨ts, hts⟩
      exact exists_partAs (fun items hitems => hplaces items (hitems ▸ hv)) hts
    · rintro ⟨ts, hts⟩
      exact ⟨_, partAs_reorderItems hts⟩
  | arr items => simp [reorderTypes, Fits]
  | null | bool | num | str => rfl

/-- A value that is read as a document is read as that document in another order. -/
theorem read_reorderTypes (h : read j = .ok d) :
    read (j.reorderTypes places) = .ok (d.reorder places) := by
  obtain ⟨hj, hkind⟩ := read_eq_ok_iff.1 h
  obtain ⟨hfits, hread⟩ := ofJson_eq_ok_iff.1 hj
  have hj' := ofJson_eq_ok_iff.2 ⟨(fits_reorderTypes hplaces).2 hfits, hread.reorder⟩
  exact read_eq_ok_iff.2 ⟨hj', hkind⟩

/-- A value that is read in another order is read. -/
theorem exists_read (h : read (j.reorderTypes places) = .ok d) : ∃ e, read j = .ok e := by
  obtain ⟨hj, hkind⟩ := read_eq_ok_iff.1 h
  obtain ⟨hfits, hread⟩ := ofJson_eq_ok_iff.1 hj
  obtain ⟨e, he, hsame⟩ := exists_readFrom hplaces hread
  have hj' := ofJson_eq_ok_iff.2 ⟨(fits_reorderTypes hplaces).1 hfits, he⟩
  exact ⟨e, read_eq_ok_iff.2 ⟨hj', hsame.trans hkind⟩⟩

end Reading

end ModuleDocument

/-! ## Modules in another order -/

/-- A module with its types in another order. -/
def ModuleInfo.reorder (places : List Nat) (m : ModuleInfo) : ModuleInfo :=
  { m with types := pick places m.types }

theorem ModuleDocument.built_reorder (places : List Nat) (d : ModuleDocument) :
    (d.reorder places).built = d.built.reorder places := by
  simp [reorder, built, ModuleInfo.reorder, pick_map]

/-- Orders take every module once and, of each, every type once. -/
structure Arranges (orders : List ModuleOrder) (js : List Json) : Prop where
  modules : (orders.map (·.place)).Perm (List.range js.length)
  types : ∀ o ∈ orders, ∀ j items, js[o.place]? = some j → j.typeList? = some (.arr items) →
    o.types.Perm (List.range items.length)

namespace Arranges

open ModuleDocument

variable {orders : List ModuleOrder} {js : List Json} {ds es : List ModuleDocument}

/-- Each module is somewhere among the rearranged ones. -/
theorem exists_order (h : Arranges orders js) {j : Json} (hj : j ∈ js) :
    ∃ o ∈ orders, js[o.place]? = some j := by
  obtain ⟨i, hi, rfl⟩ := List.mem_iff_getElem.1 hj
  obtain ⟨o, ho, rfl⟩ := List.mem_map.1 (h.modules.mem_iff.2 (List.mem_range.2 hi))
  exact ⟨o, ho, List.getElem?_eq_getElem hi⟩

theorem getElem?_reads (hreads : js.map read = ds.map .ok) (i : Nat) :
    js[i]?.map read = ds[i]?.map .ok := by
  rw [← List.getElem?_map, ← List.getElem?_map, hreads]

/-- Modules that are read are read in every order. -/
theorem reads (h : Arranges orders js) (hreads : js.map read = ds.map .ok) :
    (rearrange Json.reorderTypes orders js).map read =
      (rearrange ModuleDocument.reorder orders ds).map .ok := by
  unfold rearrange
  rw [List.map_filterMap, List.map_filterMap]
  apply List.filterMap_congr
  intro o ho
  have hplace := getElem?_reads hreads o.place
  cases hj : js[o.place]? with
  | none =>
    rw [hj] at hplace
    have hd := Option.map_eq_none_iff.1 hplace.symm
    rw [hd]
    rfl
  | some j =>
    rw [hj] at hplace
    obtain ⟨d, hd, hread⟩ := Option.map_eq_some_iff.1 hplace.symm
    rw [hd]
    exact congrArg some (read_reorderTypes (fun items => h.types o ho j items hj) hread.symm)

/-- Modules that are read in one order are read. -/
theorem exists_reads (h : Arranges orders js)
    (hreads : (rearrange Json.reorderTypes orders js).map read = es.map .ok) :
    ∃ ds : List ModuleDocument, js.map read = ds.map .ok := by
  refine exists_map_ok fun j hj => ?_
  obtain ⟨o, ho, hplace⟩ := h.exists_order hj
  have hmem : j.reorderTypes o.types ∈ rearrange Json.reorderTypes orders js :=
    mem_rearrange.2 ⟨o, ho, j, hplace, rfl⟩
  obtain ⟨e, -, he⟩ := List.mem_map.1 (hreads ▸ List.mem_map_of_mem (f := read) hmem)
  exact exists_read (fun items => h.types o ho j items hplace) he.symm

/-- The types of a module that is read are the same in every order. -/
theorem pick_types_perm (h : Arranges orders js) {o : ModuleOrder} (ho : o ∈ orders) {j : Json}
    {d : ModuleDocument} (hj : js[o.place]? = some j) (hread : read j = .ok d) :
    (pick o.types d.types).Perm d.types := by
  have hlist := (ofJson_eq_ok_iff.1 (read_eq_ok_iff.1 hread).1).2.types
  cases hv : j.typeList? with
  | none =>
    have hnone : partAs (some []) (asList TypeDocument.ofJson) none = some d.types := hv ▸ hlist
    obtain hempty : [] = d.types := Option.some.inj hnone
    simp [← hempty, pick]
  | some v =>
    have hsome : partAs (some []) (asList TypeDocument.ofJson) (some v) = some d.types := hv ▸ hlist
    have hsome := toOption_eq_some_iff.1 hsome
    cases v with
    | arr items =>
      have hlength := congrArg List.length (eachItem_eq_ok_iff.1 hsome)
      rw [List.length_map, List.length_map] at hlength
      apply pick_perm
      rw [← hlength]
      exact h.types o ho j items hj hv
    | null | bool | num | str | obj => cases hsome

/-- The types of all modules are the same in every order. -/
theorem types_perm (h : Arranges orders js) (hreads : js.map read = ds.map .ok) :
    ((rearrange ModuleDocument.reorder orders ds).flatMap (·.types)).Perm
      (ds.flatMap (·.types)) := by
  have hplaces : (orders.map (·.place)).Perm (List.range ds.length) := by
    have hlength : js.length = ds.length := by simpa using congrArg List.length hreads
    exact hlength ▸ h.modules
  have heach : ∀ o ∈ orders, ∀ d, ds[o.place]? = some d → (pick o.types d.types).Perm d.types := by
    intro o ho d hd
    have hplace := getElem?_reads hreads o.place
    rw [hd] at hplace
    obtain ⟨j, hj, hread⟩ := Option.map_eq_some_iff.1 hplace
    exact h.pick_types_perm ho hj hread
  exact (flatMap_rearrange_perm orders heach).trans ((pick_perm hplaces).flatMap_right _)

theorem names_perm (h : Arranges orders js) (hreads : js.map read = ds.map .ok) :
    ((rearrange ModuleDocument.reorder orders ds).map (·.name)).Perm (ds.map (·.name)) := by
  have hlength : js.length = (ds.map (·.name)).length := by simpa using congrArg List.length hreads
  have hkept : (rearrange ModuleDocument.reorder orders ds).map (·.name) =
      rearrange (fun _ name => name) orders (ds.map (·.name)) :=
    map_rearrange orders fun _ _ => rfl
  rw [hkept, rearrange_same]
  exact pick_perm (hlength ▸ h.modules)

/-- Documents without a name in common have none in common in any order. -/
theorem distinct_iff (h : Arranges orders js) (hreads : js.map read = ds.map .ok) :
    Distinct (rearrange ModuleDocument.reorder orders ds) ↔ Distinct ds := by
  have hnames := (h.names_perm hreads).nodup_iff
  have htypes := ((h.types_perm hreads).map (·.fullName)).nodup_iff
  exact ⟨fun hd => ⟨hnames.1 hd.modules, htypes.1 hd.types⟩,
    fun hd => ⟨hnames.2 hd.modules, htypes.2 hd.types⟩⟩

end Arranges

end AssemblyLinker
