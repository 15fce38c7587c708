import AssemblyLinker.Proofs.Document
import AssemblyLinker.Proofs.Loading.Steps
import AssemblyLinker.Proofs.Modules.Locating
import Mathlib.Data.List.Nodup

/-! # What building modules comes to

    All modules of a document are declared, and then all are defined.  On the way the modules
    of the assembly are those that have been defined, and behind them those that have only
    been declared (`ModuleDocument.stage`).

    Both passes succeed exactly if the values are module documents without a name in common,
    of modules or of types, and every name in a body resolves once all types are there
    (`Buildable`).  The modules are then those that the documents describe
    (`buildModules_of_buildable`, `buildable_of_buildModules`).
-/

namespace AssemblyLinker

/-! ## Modules of documents -/

/-- The type that a document declares, without a body. -/
def TypeDocument.declared (t : TypeDocument) : TypeInfo := .declared t.package t.name

/-- The type that a document describes. -/
def TypeDocument.built (t : TypeDocument) : TypeInfo := t.declared.define t.body

namespace ModuleDocument

/-- The module that a document declares: its types have no bodies. -/
def declared (d : ModuleDocument) : ModuleInfo :=
  ⟨d.name, d.version, d.types.map TypeDocument.declared⟩

/-- The module that a document describes: its types have their bodies. -/
def built (d : ModuleDocument) : ModuleInfo :=
  ⟨d.name, d.version, d.types.map TypeDocument.built⟩

/-- The full names of the types of documents. -/
def fullNames (ds : List ModuleDocument) : List String :=
  (ds.flatMap (·.types)).map (·.fullName)

/-- No two of the documents, and no two of their types, go by one name. -/
structure Distinct (ds : List ModuleDocument) : Prop where
  modules : (ds.map (·.name)).Nodup
  types : (fullNames ds).Nodup

/-- The modules of an assembly when some documents have been defined and others have only been
    declared. -/
def stage (done rest : List ModuleDocument) : List ModuleInfo :=
  done.map built ++ rest.map declared

variable {d : ModuleDocument} {done rest ds : List ModuleDocument} {a b : Assembly} {j : Json}

theorem fullNames_append (ds es : List ModuleDocument) :
    fullNames (ds ++ es) = fullNames ds ++ fullNames es := by
  simp [fullNames]

theorem fullNames_singleton (d : ModuleDocument) : fullNames [d] = d.types.map (·.fullName) := by
  simp [fullNames]

@[simp] theorem fullNames_declared (d : ModuleDocument) :
    d.declared.types.map (·.fullName) = d.types.map (·.fullName) := by
  rw [declared, List.map_map]
  rfl

@[simp] theorem fullNames_built (d : ModuleDocument) :
    d.built.types.map (·.fullName) = d.types.map (·.fullName) := by
  rw [built, List.map_map]
  rfl

theorem fullNames_stage (done rest : List ModuleDocument) :
    ModuleInfo.fullNames (stage done rest) = fullNames (done ++ rest) := by
  simp [ModuleInfo.fullNames, stage, fullNames, List.flatMap_append, List.map_append,
    List.flatMap_map, List.map_flatMap]

theorem names_stage (done rest : List ModuleDocument) :
    (stage done rest).map (·.name) = (done ++ rest).map (·.name) := by
  simp only [stage, List.map_append, List.map_map]
  rfl

theorem Distinct.of_append (h : Distinct (ds ++ rest)) : Distinct ds := by
  obtain ⟨hnames, htypes⟩ := h
  rw [List.map_append] at hnames
  rw [fullNames_append] at htypes
  exact ⟨(List.nodup_append.1 hnames).1, (List.nodup_append.1 htypes).1⟩

/-! ## Declaring -/

/-- Types are declared exactly if all of their names are new. -/
theorem declareTypes_eq_ok_iff {ts : List TypeDocument} : ∀ {m m' : ModuleInfo},
    (m.types.map (·.fullName)).Nodup → (declareTypes a m ts = .ok m' ↔
      (∀ t ∈ ts, t.fullName ∉ ModuleInfo.fullNames a.modules) ∧
      (m.types.map (·.fullName) ++ ts.map (·.fullName)).Nodup ∧
      m' = { m with types := m.types ++ ts.map TypeDocument.declared }) := by
  induction ts with
  | nil =>
    intro m m' hm
    simp [declareTypes, hm, eq_comm (a := m)]
  | cons t ts ih =>
    intro m m' hm
    have hname : t.declared.fullName = t.fullName := rfl
    have hstep : ∀ m : ModuleInfo, m.addType (.declared t.package t.name) = m.addType t.declared :=
      fun _ => rfl
    unfold declareTypes
    simp only [Assembly.locateLocalType?_isSome_iff, ModuleInfo.findType?_isSome_iff, hstep]
    split
    next hused =>
      -- the name has been used in the assembly, or in this module
      refine iff_of_false (fun h => by cases h) ?_
      rintro ⟨hnew, hnodup, -⟩
      rcases hused with hused | hused
      · exact hnew t List.mem_cons_self hused
      · exact List.disjoint_of_nodup_append hnodup hused List.mem_cons_self
    next hfree =>
      rw [not_or] at hfree
      have hadded : ((m.addType t.declared).types.map (·.fullName)).Nodup := by
        simp only [ModuleInfo.addType, List.map_append, List.map_cons, List.map_nil, hname]
        exact hm.append (List.nodup_singleton _) (List.disjoint_singleton.2 hfree.2)
      rw [ih hadded]
      simp [ModuleInfo.addType, hname, hfree.1]

theorem exists_of_mapError_ok {ε ε' α : Type} {x : Except ε α} {f : ε → ε'} {a : α}
    (h : x.mapError f = .ok a) : x = .ok a := by
  cases x with
  | error e => cases h
  | ok a' => exact congrArg Except.ok (Except.ok.inj h)

/-- When a document goes behind others, its names are new. -/
theorem distinct_concat_iff (hdone : Distinct done) : Distinct (done ++ [d]) ↔
    d.name ∉ done.map (·.name) ∧ (∀ t ∈ d.types, t.fullName ∉ fullNames done) ∧
      (d.types.map (·.fullName)).Nodup := by
  constructor
  · rintro ⟨hnames, htypes⟩
    rw [List.map_append, List.nodup_append] at hnames
    rw [fullNames_append, fullNames_singleton, List.nodup_append] at htypes
    refine ⟨?_, ?_, htypes.2.1⟩
    · intro hname
      exact hnames.2.2 _ hname _ List.mem_cons_self rfl
    · intro t ht hname
      exact htypes.2.2 _ hname _ (List.mem_map_of_mem ht) rfl
  · rintro ⟨hname, hnew, hnodup⟩
    constructor
    · rw [List.map_append]
      exact hdone.modules.append (List.nodup_singleton _) (List.disjoint_singleton.2 hname)
    · rw [fullNames_append, fullNames_singleton]
      refine hdone.types.append hnodup ?_
      intro name hold hname
      obtain ⟨t, ht, rfl⟩ := List.mem_map.1 hname
      exact hnew t ht hold

/-- A value is declared exactly if it is a document whose names are new to the assembly. -/
theorem declare_adds_iff : declare j a = .ok b ↔ ∃ d, read j = .ok d ∧
    d.name ∉ a.modules.map (·.name) ∧
    (∀ t ∈ d.types, t.fullName ∉ ModuleInfo.fullNames a.modules) ∧
    (d.types.map (·.fullName)).Nodup ∧ b = a.addModule d.declared := by
  have hfind : ∀ name, (a.findModule? name).isSome = true ↔ name ∈ a.modules.map (·.name) := by
    intro name
    simp [Assembly.findModule?, List.find?_isSome]
  have hdeclared : ∀ (d : ModuleDocument) m,
      declareTypes a ⟨d.name, d.version, []⟩ d.types = .ok m ↔
        (∀ t ∈ d.types, t.fullName ∉ ModuleInfo.fullNames a.modules) ∧
          (d.types.map (·.fullName)).Nodup ∧ m = d.declared := by
    intro d m
    -- a module begins without types, so it comes to have those of its document
    have hempty : ((⟨d.name, d.version, []⟩ : ModuleInfo).types.map (·.fullName)).Nodup :=
      List.nodup_nil
    rw [declareTypes_eq_ok_iff hempty]
    rfl
  unfold declare
  constructor
  · intro h
    obtain ⟨d, hread, h⟩ := exists_of_bind_ok h
    split at h
    · cases h
    next hnew =>
      obtain ⟨m, hm, h⟩ := exists_of_bind_ok h
      obtain ⟨hfree, hnodup, rfl⟩ := (hdeclared d m).1 (exists_of_mapError_ok hm)
      refine ⟨d, hread, ?_, hfree, hnodup, (Except.ok.inj h).symm⟩
      rwa [← hfind]
  · rintro ⟨d, hread, hname, hfree, hnodup, rfl⟩
    have hm := (hdeclared d d.declared).2 ⟨hfree, hnodup, rfl⟩
    have habsent : ¬ (a.findModule? d.name).isSome = true := by rwa [hfind]
    rw [hread]
    show (if (a.findModule? d.name).isSome = true then throw _ else _) = _
    rw [if_neg habsent, hm]
    rfl

/-- A value is declared behind declared modules exactly if it is a document without a name in
    common with theirs. -/
theorem declare_eq_ok_iff (hmodules : a.modules = stage [] done) (hdone : Distinct done) :
    declare j a = .ok b ↔
      ∃ d, read j = .ok d ∧ Distinct (done ++ [d]) ∧ b = a.addModule d.declared := by
  have hnames : a.modules.map (·.name) = done.map (·.name) := by
    rw [hmodules, names_stage, List.nil_append]
  have htypes : ModuleInfo.fullNames a.modules = fullNames done := by
    rw [hmodules, fullNames_stage, List.nil_append]
  rw [declare_adds_iff, hnames, htypes]
  simp only [distinct_concat_iff hdone, and_assoc]

/-! ## Defining -/

theorem firstUnresolved?_eq_none_iff {store : Store} {ts : List TypeDocument} :
    firstUnresolved? store a ts = none ↔
      ∀ t ∈ ts, ∀ name ∈ t.typeNames, resolves store a name = true := by
  induction ts with
  | nil => simp [firstUnresolved?]
  | cons t ts ih =>
    unfold firstUnresolved?
    cases hfind : t.typeNames.find? fun name => ¬ resolves store a name with
    | some name =>
      have hfails := List.find?_some hfind
      refine iff_of_false (by simp) ?_
      intro hall
      have hresolves := hall t List.mem_cons_self name (List.mem_of_find?_eq_some hfind)
      simp [hresolves] at hfails
    | none =>
      have hresolves : ∀ name ∈ t.typeNames, resolves store a name = true := by
        simpa using List.find?_eq_none.1 hfind
      simp only [ih, List.forall_mem_cons]
      exact ⟨fun hall => ⟨hresolves, hall⟩, And.right⟩

theorem modifyFirst?_append {α : Type} {p : α → Bool} {f : α → α} {before : List α} {x : α}
    (after : List α) (hbefore : ∀ y ∈ before, p y = false) (hx : p x = true) :
    modifyFirst? p f (before ++ x :: after) = some (before ++ f x :: after) := by
  induction before with
  | nil => simp [modifyFirst?, hx]
  | cons y before ih =>
    have hy : p y = false := hbefore y List.mem_cons_self
    rw [List.cons_append, modifyFirst?, hy, ih fun z hz => hbefore z (List.mem_cons_of_mem y hz)]
    rfl

/-- Declared types without a name in common all get their bodies. -/
theorem defineTypes_eq {ts : List TypeDocument} : ∀ {m : ModuleInfo} (done : List TypeInfo),
    m.types = done ++ ts.map TypeDocument.declared →
    (done.map (·.fullName) ++ ts.map (·.fullName)).Nodup →
      defineTypes m ts = ({ m with types := done ++ ts.map TypeDocument.built }, .ok ()) := by
  induction ts with
  | nil =>
    intro m done hm _
    rw [defineTypes]
    simp only [List.map_nil, List.append_nil] at hm ⊢
    rw [← hm]
  | cons t ts ih =>
    intro m done hm hnodup
    -- no type before this one has its full name
    have hbefore : ∀ u ∈ done, u.isNamed t.fullName = false := by
      intro u hu
      rw [Bool.eq_false_iff]
      intro hnamed
      rw [TypeInfo.isNamed_iff] at hnamed
      have hmem : t.fullName ∈ done.map (·.fullName) := hnamed ▸ List.mem_map_of_mem hu
      exact List.disjoint_of_nodup_append hnodup hmem List.mem_cons_self
    have hself : t.declared.isNamed t.fullName = true := TypeInfo.isNamed_iff.2 rfl
    have hdefine : m.defineType? t.fullName t.body =
        some { m with types := done ++ t.built :: ts.map TypeDocument.declared } := by
      unfold ModuleInfo.defineType?
      rw [hm, List.map_cons, modifyFirst?_append _ hbefore hself]
      rfl
    have hnodup' : ((done ++ [t.built]).map (·.fullName) ++ ts.map (·.fullName)).Nodup := by
      rw [List.map_append, List.append_assoc]
      exact hnodup
    rw [defineTypes, hdefine]
    simp only
    rw [ih (done ++ [t.built]) (by simp) hnodup', List.append_assoc]
    rfl

section Split

variable {store : Store} {before after : List ModuleInfo}
  (hsplit : a.modules = before ++ d.declared :: after)
  (hbefore : ∀ m ∈ before, decide (m.name = d.name) = false)
include hsplit hbefore

theorem findModule?_of_split : a.findModule? d.name = some d.declared := by
  have hnone : before.find? (·.name = d.name) = none := by
    rw [List.find?_eq_none]
    intro m hm
    rw [hbefore m hm]
    exact Bool.false_ne_true
  unfold Assembly.findModule?
  rw [hsplit, List.find?_append, hnone]
  simp [declared]

/-- A declared document whose names resolve is defined. -/
theorem define_of_resolves (hread : read j = .ok d) (htypes : (d.types.map (·.fullName)).Nodup)
    (hresolves : ∀ t ∈ d.types, ∀ name ∈ t.typeNames, resolves store a name = true) :
    define store j a = ({ a with modules := before ++ d.built :: after }, .ok ()) := by
  have hfind := findModule?_of_split hsplit hbefore
  have hresolved := firstUnresolved?_eq_none_iff.2 hresolves
  have hbodies : defineTypes d.declared d.types = (d.built, .ok ()) := defineTypes_eq [] rfl htypes
  have hreplace : replaceModule a d.built = { a with modules := before ++ d.built :: after } := by
    have hown : decide (d.declared.name = d.name) = true := decide_eq_true rfl
    have hfirst : modifyFirst? (·.name = d.name) (fun _ => d.built) a.modules =
        some (before ++ d.built :: after) := by
      rw [hsplit, modifyFirst?_append _ hbefore hown]
    unfold replaceModule
    rw [show d.built.name = d.name from rfl, hfirst]
    rfl
  unfold define
  simp only [hread, hfind, hresolved, hbodies, hreplace]
  rfl

/-- A declared document that has been defined has only names that resolve. -/
theorem resolves_of_define (hread : read j = .ok d) (hok : (define store j a).2 = .ok ()) :
    ∀ t ∈ d.types, ∀ name ∈ t.typeNames, resolves store a name = true := by
  have hfind := findModule?_of_split hsplit hbefore
  unfold define at hok
  simp only [hread, hfind] at hok
  cases hresolved : firstUnresolved? store a d.types with
  | some fault =>
    rw [hresolved] at hok
    cases hok
  | none => exact firstUnresolved?_eq_none_iff.1 hresolved

end Split

/-- The module of the next document is the declared one, and no module before it has its name. -/
theorem split_stage (hmodules : a.modules = stage done (d :: rest))
    (hdistinct : Distinct (done ++ d :: rest)) :
    a.modules = done.map built ++ d.declared :: rest.map declared ∧
      ∀ m ∈ done.map built, decide (m.name = d.name) = false := by
  refine ⟨hmodules, ?_⟩
  intro m hm
  obtain ⟨e, he, rfl⟩ := List.mem_map.1 hm
  have hnames := hdistinct.modules
  rw [List.map_append] at hnames
  rw [decide_eq_false_iff_not]
  intro heq
  have hmem : d.name ∈ done.map (·.name) := heq ▸ List.mem_map_of_mem he
  exact List.disjoint_of_nodup_append hnames hmem List.mem_cons_self

/-- The types of each document have different names. -/
theorem Distinct.own_types (h : Distinct (done ++ d :: rest)) :
    (d.types.map (·.fullName)).Nodup := by
  have hall := h.types
  rw [← List.singleton_append, fullNames_append, fullNames_append, fullNames_singleton] at hall
  exact (List.nodup_append.1 (List.nodup_append.1 hall).2.1).1

end ModuleDocument

/-! ## The passes -/

namespace Session

/-- In a later session the assembly of a handle has other modules. -/
abbrev Rebuilt (s : Session) (h : Handle) (modules : List ModuleInfo) (t : Session) : Prop :=
  s.Changed h ({ · with modules }) t

variable {s t u : Session} {h : Handle} {a : Assembly} {modules modules' : List ModuleInfo}

theorem rebuilt_refl (ha : s.store.get? h = some a) : s.Rebuilt h a.modules s := by
  refine (Changed.refl s h).congr ?_
  intro b hb
  rw [ha] at hb
  cases hb
  rfl

/-- A name resolves in the assembly of a handle. -/
def Resolves (s : Session) (h : Handle) (name : String) : Prop :=
  ∃ a, s.store.get? h = some a ∧ ModuleDocument.resolves s.store a name = true

/-- Where no fewer types are declared, no fewer names resolve. -/
theorem Resolves.of_rebuilt {name : String} (ht : s.Rebuilt h modules t)
    (hu : s.Rebuilt h modules' u)
    (hnames : ModuleInfo.fullNames modules ⊆ ModuleInfo.fullNames modules')
    (hresolves : t.Resolves h name) : u.Resolves h name := by
  obtain ⟨b, hb, hname⟩ := hresolves
  have hcovers : ∀ a : Assembly,
      Assembly.Covers { a with modules := modules' } { a with modules } :=
    fun a => ⟨hnames, List.Subset.refl _⟩
  rw [ht.store, Store.get?_update_self] at hb
  obtain ⟨a, ha, rfl⟩ := Option.map_eq_some_iff.1 hb
  refine ⟨_, hu.get? ha, ?_⟩
  refine ModuleDocument.resolves_mono ?_ ?_ (hcovers a) hname
  · rw [ht.store, hu.store]
    exact Store.covers_update fun a _ => hcovers a
  · rw [ht.store, hu.store, Store.length_update, Store.length_update]

/-- Every name in the bodies of documents resolves. -/
def ResolvesAll (s : Session) (h : Handle) (ds : List ModuleDocument) : Prop :=
  ∀ d ∈ ds, ∀ t ∈ d.types, ∀ name ∈ t.typeNames, s.Resolves h name

theorem ResolvesAll.of_rebuilt {ds : List ModuleDocument} (ht : s.Rebuilt h modules t)
    (hu : s.Rebuilt h modules' u)
    (hnames : ModuleInfo.fullNames modules ⊆ ModuleInfo.fullNames modules')
    (hall : t.ResolvesAll h ds) : u.ResolvesAll h ds := by
  intro d hd type htype name hname
  exact (hall d hd type htype name hname).of_rebuilt ht hu hnames

end Session

namespace Linker

open ModuleDocument

variable {s : Session} {h : Handle} {a : Assembly} {j : Json} {js : List Json}
  {d : ModuleDocument} {done rest ds : List ModuleDocument}

theorem declare_ensures (ha : s.store.get? h = some a) (hmodules : a.modules = stage [] done)
    (hdone : Distinct done) : (Action.ofStep (·.declare h j)).Ensures s
      (fun _ t => ∃ d, read j = .ok d ∧ Distinct (done ++ [d]) ∧
        s.Rebuilt h (stage [] (done ++ [d])) t)
      (fun _ => ∀ d, read j = .ok d → ¬ Distinct (done ++ [d])) := by
  unfold Action.Ensures Action.ofStep
  beta_reduce
  cases hdeclare : ModuleDocument.declare j a with
  | ok b =>
    obtain ⟨d, hread, hdistinct, rfl⟩ := (declare_eq_ok_iff hmodules hdone).1 hdeclare
    have hadded : (a.addModule d.declared).modules = stage [] (done ++ [d]) := by
      simp [Assembly.addModule, hmodules, stage]
    have hstep : s.declare h j =
        (.ok (), s.record (.declareCalled h (stage [] (done ++ [d])))) := by
      simp only [Session.declare, ha, hdeclare, hadded]
    rw [hstep]
    exact ⟨d, hread, hdistinct, rfl, rfl, rfl, rfl⟩
  | error r =>
    have hstep : s.declare h j =
        (.error (r.toError a.name), s.record (.declareCalled h a.modules)) := by
      simp only [Session.declare, ha, hdeclare]
    rw [hstep]
    -- a document with nothing in common would have been declared
    intro d hread hdistinct
    rw [(declare_eq_ok_iff hmodules hdone).2 ⟨d, hread, hdistinct, rfl⟩] at hdeclare
    cases hdeclare

/-- The first pass: values are declared exactly if they are documents without a name in
    common. -/
theorem declareAll_ensures (js : List Json) : ∀ (done : List ModuleDocument) {s : Session}
    {a : Assembly},
    s.store.get? h = some a → a.modules = stage [] done → Distinct done →
    (Action.forEach (fun j => .ofStep (·.declare h j)) js).Ensures s
      (fun _ t => ∃ ds, js.map read = ds.map .ok ∧ Distinct (done ++ ds) ∧
        s.Rebuilt h (stage [] (done ++ ds)) t)
      (fun _ => ∀ ds, js.map read = ds.map .ok → ¬ Distinct (done ++ ds)) := by
  induction js with
  | nil =>
    intro done s a ha hmodules hdone
    refine ⟨[], rfl, by rwa [List.append_nil], ?_⟩
    rw [List.append_nil, ← hmodules]
    exact Session.rebuilt_refl ha
  | cons j js ih =>
    intro done s a ha hmodules hdone
    -- the documents of all values are that of the first one and those of the others
    have hcons : ∀ ds, (j :: js).map read = ds.map .ok ↔
        ∃ d es, ds = d :: es ∧ read j = .ok d ∧ js.map read = es.map .ok := by
      intro ds
      cases ds with
      | nil => simp
      | cons d es => simp
    refine (declare_ensures ha hmodules hdone).andThen_mono ?_ ?_
    · intro t hstuck ds hreads hdistinct
      obtain ⟨d, es, rfl, hread, -⟩ := (hcons ds).1 hreads
      rw [← List.singleton_append, ← List.append_assoc] at hdistinct
      exact hstuck d hread hdistinct.of_append
    rintro _ t ⟨d, hread, hdistinct, hrebuilt⟩
    refine (ih (done ++ [d]) (hrebuilt.get? ha) rfl hdistinct).mono ?_ ?_
    · rintro _ u ⟨es, hreads, hall, hrebuilt'⟩
      rw [List.append_assoc] at hall hrebuilt'
      exact ⟨d :: es, (hcons _).2 ⟨d, es, rfl, hread, hreads⟩, hall, hrebuilt.trans hrebuilt'⟩
    · intro u hstuck ds hreads hall
      obtain ⟨d', es, rfl, hread', hreads'⟩ := (hcons ds).1 hreads
      obtain rfl : d = d' := Except.ok.inj (hread.symm.trans hread')
      apply hstuck es hreads'
      rwa [List.append_assoc]

theorem define_ensures (ha : s.store.get? h = some a)
    (hmodules : a.modules = stage done (d :: rest)) (hdistinct : Distinct (done ++ d :: rest))
    (hread : read j = .ok d) :
    (Action.ofStep (·.define h j)).Ensures s
      (fun _ t => s.Rebuilt h (stage (done ++ [d]) rest) t ∧ s.ResolvesAll h [d])
      (fun _ => ¬ s.ResolvesAll h [d]) := by
  have hall : s.ResolvesAll h [d] ↔
      ∀ t ∈ d.types, ∀ name ∈ t.typeNames, resolves s.store a name = true := by
    simp [Session.ResolvesAll, Session.Resolves, ha]
  unfold Action.Ensures Action.ofStep
  beta_reduce
  rw [Session.define_eq ha]
  obtain ⟨hsplit, hbefore⟩ := split_stage hmodules hdistinct
  -- the module is defined as a whole if its names resolve, and the pass fails if one does not
  by_cases hresolves : ∀ t ∈ d.types, ∀ name ∈ t.typeNames, resolves s.store a name = true
  · rw [define_of_resolves hsplit hbefore hread hdistinct.own_types hresolves]
    have hstage : done.map built ++ d.built :: rest.map declared = stage (done ++ [d]) rest := by
      simp [stage]
    rw [hstage]
    exact ⟨⟨rfl, rfl, rfl, rfl⟩, hall.2 hresolves⟩
  · cases hdefine : (ModuleDocument.define s.store j a).2 with
    | ok => exact absurd (resolves_of_define hsplit hbefore hread hdefine) hresolves
    | error r =>
      intro hholds
      exact hresolves (hall.1 hholds)

/-- The second pass: declared documents are defined exactly if all names in them resolve. -/
theorem defineAll_ensures (rest : List ModuleDocument) : ∀ (done : List ModuleDocument)
    {js : List Json} {s : Session} {a : Assembly},
    s.store.get? h = some a → a.modules = stage done rest → Distinct (done ++ rest) →
    js.map read = rest.map .ok →
    (Action.forEach (fun j => .ofStep (·.define h j)) js).Ensures s
      (fun _ t => s.Rebuilt h (stage (done ++ rest) []) t ∧ s.ResolvesAll h rest)
      (fun _ => ¬ s.ResolvesAll h rest) := by
  induction rest with
  | nil =>
    intro done js s a ha hmodules hdistinct hreads
    obtain rfl : js = [] := List.map_eq_nil_iff.1 hreads
    rw [List.append_nil, ← hmodules]
    refine ⟨Session.rebuilt_refl ha, ?_⟩
    intro d hd
    cases hd
  | cons d rest ih =>
    intro done js s a ha hmodules hdistinct hreads
    obtain ⟨j, js, rfl, hread, hreads⟩ := List.map_eq_cons_iff.1 hreads
    have hsplit : ∀ u : Session, u.ResolvesAll h (d :: rest) ↔
        u.ResolvesAll h [d] ∧ u.ResolvesAll h rest := by
      intro u
      simp [Session.ResolvesAll]
    refine (define_ensures ha hmodules hdistinct hread).andThen_mono ?_ ?_
    · intro t hstuck hall
      exact hstuck ((hsplit s).1 hall).1
    rintro _ t ⟨hrebuilt, hresolves⟩
    rw [← List.singleton_append, ← List.append_assoc] at hdistinct
    -- defining a module lets the same names resolve
    have hself : s.Rebuilt h a.modules s := Session.rebuilt_refl ha
    have hnames : (ModuleInfo.fullNames a.modules).Perm
        (ModuleInfo.fullNames (stage (done ++ [d]) rest)) := by
      rw [hmodules, fullNames_stage, fullNames_stage, List.append_assoc, List.singleton_append]
    refine (ih (done ++ [d]) (hrebuilt.get? ha) rfl hdistinct hreads).mono ?_ ?_
    · rintro _ u ⟨hrebuilt', hrest⟩
      rw [List.append_assoc, List.singleton_append] at hrebuilt'
      exact ⟨hrebuilt.trans hrebuilt',
        (hsplit s).2 ⟨hresolves, hrest.of_rebuilt hrebuilt hself hnames.symm.subset⟩⟩
    · intro u hstuck hall
      exact hstuck (((hsplit s).1 hall).2.of_rebuilt hself hrebuilt hnames.subset)

/-! ## Both passes -/

/-- Values are documents that can be built into the assembly of a handle: no two go by one
    name, and with the modules that they describe every name in them resolves. -/
structure Buildable (s : Session) (h : Handle) (js : List Json) (ds : List ModuleDocument) :
    Prop where
  read : js.map ModuleDocument.read = ds.map .ok
  distinct : Distinct ds
  resolved : (s.update h ({ · with modules := ds.map built })).ResolvesAll h ds

theorem rebuilt_update (s : Session) (h : Handle) (modules : List ModuleInfo) :
    s.Rebuilt h modules (s.update h ({ · with modules })) :=
  ⟨rfl, rfl, rfl, rfl⟩

/-- What can be built in a session can be built where no less is declared, also from other values
    that are read as the same documents. -/
theorem Buildable.mono {s' : Session} {js' : List Json} (hbuildable : Buildable s h js ds)
    (hread : js'.map ModuleDocument.read = js.map ModuleDocument.read)
    (hcovers : s'.store.Covers s.store) (hlength : s.store.length ≤ s'.store.length) :
    Buildable s' h js' ds := by
  have hbuilt := rebuilt_update s h (ds.map built)
  have hbuilt' := rebuilt_update s' h (ds.map built)
  -- with the modules in place the one store still covers the other
  have hupdated : (s'.update h ({ · with modules := ds.map built })).store.Covers
      (s.update h ({ · with modules := ds.map built })).store := by
    intro i a ha
    by_cases hi : i = h
    · subst hi
      rw [hbuilt.store, Store.get?_update_self] at ha
      obtain ⟨c, hc, rfl⟩ := Option.map_eq_some_iff.1 ha
      obtain ⟨b, hb, hbc⟩ := hcovers i c hc
      exact ⟨_, hbuilt'.get? hb, List.Subset.refl _, hbc.dependencies⟩
    · rw [hbuilt.get?_ne hi] at ha
      rw [hbuilt'.get?_ne hi]
      exact hcovers i a ha
  refine ⟨hread.trans hbuildable.read, hbuildable.distinct, ?_⟩
  intro d hd type htype name hname
  obtain ⟨a, ha, hresolves⟩ := hbuildable.resolved d hd type htype name hname
  obtain ⟨b, hb, hab⟩ := hupdated h a ha
  refine ⟨b, hb, ModuleDocument.resolves_mono hupdated ?_ hab hresolves⟩
  rw [hbuilt.store, hbuilt'.store, Store.length_update, Store.length_update]
  exact hlength

/-- The modules of an assembly without any are built exactly if they can be. -/
theorem buildModules_ensures (ha : s.store.get? h = some a) (hempty : a.modules = [])
    (js : List Json) : (buildModules h js).Ensures s
      (fun _ t => ∃ ds, Buildable s h js ds ∧ s.Rebuilt h (ds.map built) t)
      (fun _ => ∀ ds, ¬ Buildable s h js ds) := by
  have hnone : Distinct [] := ⟨List.nodup_nil, List.nodup_nil⟩
  have hbuilt : ∀ ds, stage ds [] = ds.map built := by
    intro ds
    simp [stage]
  refine (declareAll_ensures js [] ha hempty hnone).andThen_mono ?_ ?_
  · intro t hstuck ds hbuildable
    exact hstuck ds hbuildable.read hbuildable.distinct
  rintro _ t ⟨ds, hreads, hdistinct, hrebuilt⟩
  rw [List.nil_append] at hdistinct hrebuilt
  have hupdate := rebuilt_update s h (ds.map built)
  have hnames : (ModuleInfo.fullNames (stage [] ds)).Perm
      (ModuleInfo.fullNames (ds.map built)) := by
    rw [← hbuilt, fullNames_stage, fullNames_stage, List.nil_append, List.append_nil]
  refine (defineAll_ensures ds [] (hrebuilt.get? ha) rfl hdistinct hreads).mono ?_ ?_
  · rintro _ u ⟨hrebuilt', hresolves⟩
    rw [List.nil_append, hbuilt] at hrebuilt'
    exact ⟨ds, ⟨hreads, hdistinct, hresolves.of_rebuilt hrebuilt hupdate hnames.subset⟩,
      hrebuilt.trans hrebuilt'⟩
  · intro u hstuck ds' hbuildable
    -- the documents of the values are fixed
    have hsame : ds = ds' := by
      have hmaps : ds.map Except.ok = ds'.map (Except.ok : _ → Except Refusal _) :=
        hreads.symm.trans hbuildable.read
      exact List.map_injective_iff.2 (fun _ _ h => Except.ok.inj h) hmaps
    subst hsame
    exact hstuck (hbuildable.resolved.of_rebuilt hupdate hrebuilt hnames.symm.subset)

theorem buildModules_of_buildable (ha : s.store.get? h = some a) (hempty : a.modules = [])
    (hbuildable : Buildable s h js ds) :
    ∃ t, buildModules h js s = (.ok (), t) ∧ s.Rebuilt h (ds.map built) t := by
  have hensures := buildModules_ensures ha hempty js
  rcases hresult : buildModules h js s with ⟨stop | _, t⟩
  · exact absurd hbuildable (hensures.of_error hresult ds)
  · obtain ⟨ds', hbuildable', hrebuilt⟩ := hensures.of_ok hresult
    have hmaps : ds'.map Except.ok = ds.map (Except.ok : _ → Except Refusal _) :=
      hbuildable'.read.symm.trans hbuildable.read
    obtain rfl : ds' = ds := List.map_injective_iff.2 (fun _ _ h => Except.ok.inj h) hmaps
    exact ⟨t, rfl, hrebuilt⟩

theorem buildable_of_buildModules (ha : s.store.get? h = some a) (hempty : a.modules = [])
    {t : Session} (hok : buildModules h js s = (.ok (), t)) :
    ∃ ds, Buildable s h js ds ∧ s.Rebuilt h (ds.map built) t :=
  (buildModules_ensures ha hempty js).of_ok hok

end Linker

end AssemblyLinker
