import AssemblyLinker.Assembly.Basic

/-! # The registry of loaded assemblies

    Assemblies by name and uid, in the order in which their keys were registered. A key
    that is registered again keeps its place and gets the new assembly.
-/

namespace AssemblyLinker

/-- An assembly registered under a name and a uid. -/
structure Entry where
  name : String
  uid : String
  handle : Handle
  deriving DecidableEq, Repr

/-- Is an entry the one of a name and a uid? -/
def Entry.isFor (e : Entry) (name uid : String) : Bool := e.name = name && e.uid = uid

/-- The name and uid that an assembly is registered under. -/
def Entry.key (e : Entry) : String × String := (e.name, e.uid)

/-- Assemblies by name and uid, in order; each name and uid occurs once. -/
structure Registry where
  entries : List Entry := []
  deriving DecidableEq, Repr

namespace Registry

/-- The number of registered assemblies. -/
def size (r : Registry) : Nat := r.entries.length

/-- The registered assemblies, in order. -/
def handles (r : Registry) : List Handle := r.entries.map (·.handle)

/-- The assembly registered under a name and a uid. -/
def find? (r : Registry) (name uid : String) : Option Handle :=
  (r.entries.find? (·.isFor name uid)).map (·.handle)

/-- The first assembly registered under a name, whatever its uid. -/
def findByName? (r : Registry) (name : String) : Option Handle :=
  (r.entries.find? (·.name = name)).map (·.handle)

/-- Entries with a new one: at the place of the one with its name and uid, or at the end. -/
def put (new : Entry) : List Entry → List Entry
  | [] => [new]
  | e :: rest =>
    if e.name = new.name ∧ e.uid = new.uid then new :: rest else e :: put new rest

/-- Registers an assembly under a name and a uid. -/
def register (r : Registry) (name uid : String) (handle : Handle) : Registry :=
  ⟨put { name, uid, handle } r.entries⟩

/-- Drops the entry of a name and a uid. -/
def unregister (r : Registry) (name uid : String) : Registry :=
  ⟨r.entries.filter fun e => !e.isFor name uid⟩

/-- Takes the entry of a name and a uid out of a list. The entries after it move up. -/
def takeOut (name uid : String) : List Entry → Option Handle × List Entry
  | [] => (none, [])
  | e :: rest =>
    if e.isFor name uid then (some e.handle, rest)
    else
      let (taken, others) := takeOut name uid rest
      (taken, e :: others)

/-- Takes the assembly of a name and a uid out of the registry. -/
def remove (r : Registry) (name uid : String) : Option Handle × Registry :=
  let (taken, others) := takeOut name uid r.entries
  (taken, ⟨others⟩)

/-! ## Small facts -/

theorem find?_eq_none {r : Registry} {name uid : String} :
    r.find? name uid = none ↔ ∀ e ∈ r.entries, e.isFor name uid = false := by
  simp [find?]

theorem findByName?_eq_none {r : Registry} {name : String} :
    r.findByName? name = none ↔ ∀ e ∈ r.entries, e.name ≠ name := by
  simp [findByName?]

theorem mem_of_find? {r : Registry} {name uid : String} {h : Handle}
    (hfind : r.find? name uid = some h) : ⟨name, uid, h⟩ ∈ r.entries := by
  obtain ⟨e, he, rfl⟩ := Option.map_eq_some_iff.1 hfind
  have hkey := List.find?_some he
  simp only [Entry.isFor, Bool.and_eq_true, decide_eq_true_eq] at hkey
  obtain ⟨rfl, rfl⟩ := hkey
  exact List.mem_of_find?_eq_some he

theorem mem_of_findByName? {r : Registry} {name : String} {h : Handle}
    (hfind : r.findByName? name = some h) :
    ∃ e ∈ r.entries, e.name = name ∧ e.handle = h := by
  obtain ⟨e, he, rfl⟩ := Option.map_eq_some_iff.1 hfind
  exact ⟨e, List.mem_of_find?_eq_some he, by simpa using List.find?_some he, rfl⟩

theorem mem_handles_of_find? {r : Registry} {name uid : String} {h : Handle}
    (hfind : r.find? name uid = some h) : h ∈ r.handles :=
  List.mem_map.2 ⟨_, mem_of_find? hfind, rfl⟩

theorem mem_handles_of_findByName? {r : Registry} {name : String} {h : Handle}
    (hfind : r.findByName? name = some h) : h ∈ r.handles := by
  obtain ⟨e, he, -, rfl⟩ := mem_of_findByName? hfind
  exact List.mem_map_of_mem he

/-- What is found by name stays found when entries are added at the end. -/
theorem findByName?_append {r r' : Registry} {name : String} {h : Handle}
    {added : List Entry} (hentries : r'.entries = r.entries ++ added)
    (hfind : r.findByName? name = some h) : r'.findByName? name = some h := by
  obtain ⟨e, he, rfl⟩ := Option.map_eq_some_iff.1 hfind
  simp [findByName?, hentries, List.find?_append, he]

/-- The first entry of a name that was not registered before is found by it. -/
theorem findByName?_of_free {r r' : Registry} {e : Entry} {rest : List Entry}
    (hentries : r'.entries = r.entries ++ e :: rest) (hfree : r.findByName? e.name = none) :
    r'.findByName? e.name = some e.handle := by
  have hold : r.entries.find? (·.name = e.name) = none := by simpa [findByName?] using hfree
  rw [findByName?, hentries, List.find?_append, hold]
  simp

theorem put_of_absent {new : Entry} {entries : List Entry}
    (h : ∀ e ∈ entries, e.isFor new.name new.uid = false) :
    put new entries = entries ++ [new] := by
  induction entries with
  | nil => rfl
  | cons e rest ih =>
    have he : ¬ (e.name = new.name ∧ e.uid = new.uid) := by
      simpa [Entry.isFor] using h e List.mem_cons_self
    rw [put, if_neg he, ih fun e he => h e (List.mem_cons_of_mem _ he), List.cons_append]

/-- A name and uid that are not registered are registered at the end. -/
theorem register_of_find?_eq_none {r : Registry} {name uid : String} (h : Handle)
    (hfind : r.find? name uid = none) :
    (r.register name uid h).entries = r.entries ++ [⟨name, uid, h⟩] :=
  put_of_absent (find?_eq_none.1 hfind)

/-- Where each name and uid is registered once, one entry is dropped with them. -/
theorem unregister_of_distinct {r : Registry} {before after : List Entry} {e : Entry}
    (hentries : r.entries = before ++ e :: after) (hdistinct : (r.entries.map (·.key)).Nodup) :
    (r.unregister e.name e.uid).entries = before ++ after := by
  rw [hentries, List.map_append, List.map_cons, List.nodup_append, List.nodup_cons]
    at hdistinct
  obtain ⟨-, ⟨hafter, -⟩, hbefore⟩ := hdistinct
  have hother : ∀ x ∈ before ++ after, (!x.isFor e.name e.uid) = true := by
    intro x hx
    have hne : x.key ≠ e.key := by
      rcases List.mem_append.1 hx with hx | hx
      · exact hbefore _ (List.mem_map_of_mem hx) _ List.mem_cons_self
      · exact fun heq => hafter (heq ▸ List.mem_map_of_mem hx)
    simpa [Entry.isFor, Entry.key, ← Decidable.not_and_iff_or_not] using hne
  have hself : (!e.isFor e.name e.uid) = false := by simp [Entry.isFor]
  rw [unregister, hentries, List.filter_append, List.filter_cons, hself, if_neg (by simp),
    ← List.filter_append, List.filter_eq_self.2 hother]

end Registry

end AssemblyLinker
