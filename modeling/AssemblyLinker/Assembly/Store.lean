import AssemblyLinker.Assembly.Basic

/-! # The store of assemblies

    All assemblies of a session, in the order of their creation. An assembly is never
    dropped, so a handle keeps its meaning.

    A type is located in the modules of an assembly first, then in its dependencies in
    their order, each with all of its own dependencies before the next.
-/

namespace AssemblyLinker

/-- The assemblies created so far, by handle. -/
abbrev Store := List Assembly

namespace Store

/-- The assembly of a handle. -/
def get? (store : Store) (h : Handle) : Option Assembly := store[h]?

/-- The store with one more assembly. Its handle is the old size. -/
def add (store : Store) (a : Assembly) : Store := store ++ [a]

/-- The store with the assembly of a handle changed. -/
def update (store : Store) (h : Handle) (f : Assembly → Assembly) : Store :=
  store.modify h f

@[simp] theorem get?_update_self (store : Store) (h : Handle) (f : Assembly → Assembly) :
    (store.update h f).get? h = (store.get? h).map f := by
  simp [get?, update]

@[simp] theorem get?_update_ne (store : Store) {h i : Handle} (f : Assembly → Assembly)
    (hi : i ≠ h) : (store.update h f).get? i = store.get? i := by
  simp [get?, update, Ne.symm hi]

@[simp] theorem length_update (store : Store) (h : Handle) (f : Assembly → Assembly) :
    (store.update h f).length = store.length := by
  simp [update]

theorem lt_length_of_get? {store : Store} {h : Handle} {a : Assembly}
    (ha : store.get? h = some a) : h < store.length :=
  (List.getElem?_eq_some_iff.1 ha).1

/-- An older store stands for the same assemblies. -/
theorem get?_of_prefix {store store' : Store} (hle : store <+: store') {h : Handle}
    {a : Assembly} (ha : store.get? h = some a) : store'.get? h = some a := by
  obtain ⟨added, rfl⟩ := hle
  rw [get?, List.getElem?_append_left (lt_length_of_get? ha)]
  exact ha

/-- A change behind a prefix. -/
theorem prefix_update {older store : Store} (hle : older <+: store) {h : Handle}
    (hh : older.length ≤ h) (f : Assembly → Assembly) : older <+: store.update h f := by
  apply List.prefix_iff_getElem?.2
  intro i hi
  have hne : i ≠ h := Nat.ne_of_lt (Nat.lt_of_lt_of_le hi hh)
  have hsame : (store.update h f).get? i = store.get? i := get?_update_ne _ _ hne
  exact hsame.trans (List.prefix_iff_getElem?.1 hle i hi)

/-- The name of the assembly of a handle. -/
def nameOf (store : Store) (h : Handle) : String := ((store.get? h).map (·.name)).getD ""

/-! ## Locating types -/

/-- Locates a type in the assembly of a handle or below it, along at most `depth` steps
    from a dependency to the next. -/
def locateWithin? (store : Store) (fullName : String) : Nat → Handle → Option TypeLocation
  | 0, _ => none
  | depth + 1, h =>
    match store.get? h with
    | none => none
    | some a =>
      (a.locateLocalType? fullName).or
        (a.dependencies.findSome? (locateWithin? store fullName depth))

/-- Locates a type in an assembly or below it. Where no assembly depends on itself, no
    way down is longer than the store. -/
def locateType? (store : Store) (a : Assembly) (fullName : String) : Option TypeLocation :=
  (a.locateLocalType? fullName).or
    (a.dependencies.findSome? (store.locateWithin? fullName store.length))

end Store

end AssemblyLinker
