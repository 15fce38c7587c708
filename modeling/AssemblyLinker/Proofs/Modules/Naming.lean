import AssemblyLinker.Proofs.Modules.Building

/-! # Types go by their full names

    A full name is built when a type is declared and taken apart when one is looked for.  Both
    come to the same (`TypeInfo.isNamed_iff`), so every look at a type is one at its full name,
    and how the name is split into package and name does not matter:

    * a look-up yields the first type of the full name (`findType?_eq_some_iff`,
      `defineType?_eq_some_iff`);
    * declaring types comes to going through their full names up to the first that is there
      already (`ModuleDocument.declareTypes_eq`).

    The main statement, `known_by_full_name`, puts these together.
-/

namespace AssemblyLinker

/-! ## The first type of a name -/

/-- A list of types is cut at the first one that goes by a full name. -/
structure CutAtFirst (name : String) (types before : List TypeInfo) (t : TypeInfo)
    (after : List TypeInfo) : Prop where
  cut : types = before ++ t :: after
  named : t.fullName = name
  first : ∀ u ∈ before, u.fullName ≠ name

theorem modifyFirst?_eq_some_iff {α : Type} {p : α → Bool} {f : α → α} {l l' : List α} :
    modifyFirst? p f l = some l' ↔ ∃ before x after, l = before ++ x :: after ∧ p x = true ∧
      (∀ y ∈ before, p y = false) ∧ l' = before ++ f x :: after := by
  constructor
  · intro h
    induction l generalizing l' with
    | nil => cases h
    | cons y l ih =>
      rw [modifyFirst?] at h
      split at h
      next hy =>
        cases h
        exact ⟨[], y, l, rfl, hy, fun z hz => absurd hz List.not_mem_nil, rfl⟩
      next hy =>
        obtain ⟨l'', hl, rfl⟩ := Option.map_eq_some_iff.1 h
        obtain ⟨before, x, after, rfl, hx, hbefore, rfl⟩ := ih hl
        refine ⟨y :: before, x, after, rfl, hx, fun z hz => ?_, rfl⟩
        rcases List.mem_cons.1 hz with rfl | hz
        · exact Bool.eq_false_iff.2 hy
        · exact hbefore z hz
  · rintro ⟨before, x, after, rfl, hx, hbefore, rfl⟩
    exact ModuleDocument.modifyFirst?_append after hbefore hx

namespace ModuleInfo

variable {m m' : ModuleInfo} {name : String} {t : TypeInfo} {body : TypeBody}

theorem findType?_eq_some_iff :
    m.findType? name = some t ↔ ∃ before after, CutAtFirst name m.types before t after := by
  unfold findType?
  simp only [List.find?_eq_some_iff_append, TypeInfo.isNamed_iff, Bool.not_eq_true',
    ← Bool.not_eq_true]
  constructor
  · rintro ⟨hnamed, before, after, hcut, hfirst⟩
    exact ⟨before, after, hcut, hnamed, hfirst⟩
  · rintro ⟨before, after, hcut, hnamed, hfirst⟩
    exact ⟨hnamed, before, after, hcut, hfirst⟩

theorem defineType?_eq_some_iff : m.defineType? name body = some m' ↔
    ∃ before t after, CutAtFirst name m.types before t after ∧
      m' = { m with types := before ++ t.define body :: after } := by
  unfold defineType?
  simp only [Option.map_eq_some_iff, modifyFirst?_eq_some_iff, TypeInfo.isNamed_iff,
    ← Bool.not_eq_true]
  constructor
  · rintro ⟨types, ⟨before, t, after, hcut, hnamed, hfirst, rfl⟩, rfl⟩
    exact ⟨before, t, after, ⟨hcut, hnamed, hfirst⟩, rfl⟩
  · rintro ⟨before, t, after, ⟨hcut, hnamed, hfirst⟩, rfl⟩
    exact ⟨_, ⟨before, t, after, hcut, hnamed, hfirst, rfl⟩, rfl⟩

theorem fullNames_concat (ms : List ModuleInfo) (m : ModuleInfo) :
    fullNames (ms ++ [m]) = fullNames ms ++ m.types.map (·.fullName) := by
  simp [fullNames]

end ModuleInfo

/-! ## Names declared twice -/

/-- The first of some names that is among those that are used already, or among the ones before
    it. -/
def firstRepeated? (used : List String) : List String → Option String
  | [] => none
  | name :: rest => if name ∈ used then some name else firstRepeated? (used ++ [name]) rest

namespace ModuleDocument

/-- Declaring types comes to looking for a full name that is there already, in the assembly, in
    the module or in the types before. -/
theorem declareTypes_eq (a : Assembly) (ds : List TypeDocument) : ∀ m : ModuleInfo,
    declareTypes a m ds =
      (firstRepeated? (ModuleInfo.fullNames (a.modules ++ [m])) (ds.map (·.fullName))).elim
        (.ok { m with types := m.types ++ ds.map TypeDocument.declared })
        (.error <| .typeDeclaredTwice ·) := by
  -- the module grows with every type, so that a name counts as used for those behind it
  induction ds with
  | nil =>
    intro m
    simp [declareTypes, firstRepeated?]
  | cons d ds ih =>
    intro m
    have hused : ((a.locateLocalType? d.fullName).isSome = true ∨
        (m.findType? d.fullName).isSome = true) ↔
          d.fullName ∈ ModuleInfo.fullNames (a.modules ++ [m]) := by
      rw [Assembly.locateLocalType?_isSome_iff, ModuleInfo.findType?_isSome_iff,
        ModuleInfo.fullNames_concat, List.mem_append]
    have hadded : ModuleInfo.fullNames (a.modules ++ [m.addType d.declared]) =
        ModuleInfo.fullNames (a.modules ++ [m]) ++ [d.fullName] := by
      simp only [ModuleInfo.fullNames_concat, ModuleInfo.addType, List.map_append, List.map_cons,
        List.map_nil, List.append_assoc]
      rfl
    unfold declareTypes
    rw [List.map_cons, firstRepeated?]
    simp only [hused]
    split
    · rfl
    · rw [show TypeInfo.declared d.package d.name = d.declared from rfl, ih, hadded]
      simp [ModuleInfo.addType]

end ModuleDocument

/-- Types are known by their full names, and by nothing else:

    * taking a text apart tells whether it is the full name of a type, and the full name of a
      type document is that of the type which it declares;
    * in every module, looking for a type and giving a type its body take the first type with
      the full name that is asked for;
    * declaring types fails at the first full name that is there already, and succeeds if there
      is none;
    * so two types with one full name, however it is split, answer to the same texts, and the
      document of one is refused where there is the other, in the assembly or in the module. -/
theorem known_by_full_name :
    (∀ (t : TypeInfo) query, t.isNamed query = true ↔ query = t.fullName) ∧
    (∀ d : TypeDocument, d.fullName = (TypeInfo.declared d.package d.name).fullName) ∧
    (∀ (m : ModuleInfo) query t, m.findType? query = some t ↔
      ∃ before after, CutAtFirst query m.types before t after) ∧
    (∀ (m : ModuleInfo) query body m', m.defineType? query body = some m' ↔
      ∃ before t after, CutAtFirst query m.types before t after ∧
        m' = { m with types := before ++ t.define body :: after }) ∧
    (∀ a m ds, ModuleDocument.declareTypes a m ds =
      (firstRepeated? (ModuleInfo.fullNames (a.modules ++ [m])) (ds.map (·.fullName))).elim
        (.ok { m with types := m.types ++ ds.map fun d => .declared d.package d.name })
        (.error <| .typeDeclaredTwice ·)) ∧
    ∀ (t u : TypeInfo) (d : TypeDocument), t.fullName = u.fullName → d.fullName = u.fullName →
      (∀ query, t.isNamed query = u.isNamed query) ∧
      ∀ (a : Assembly) m ds, t ∈ (a.modules ++ [m]).flatMap (·.types) →
        ModuleDocument.declareTypes a m (d :: ds) = .error (.typeDeclaredTwice u.fullName) := by
  refine ⟨fun t query => ?_, fun d => rfl, fun m query t => ModuleInfo.findType?_eq_some_iff,
    fun m query body m' => ModuleInfo.defineType?_eq_some_iff,
    fun a m ds => ModuleDocument.declareTypes_eq a ds m, fun t u d htu hdu => ⟨fun query => ?_, ?_⟩⟩
  · rw [TypeInfo.isNamed_iff, eq_comm]
  · rw [Bool.eq_iff_iff, TypeInfo.isNamed_iff, TypeInfo.isNamed_iff, htu]
  · intro a m ds ht
    have hused : d.fullName ∈ ModuleInfo.fullNames (a.modules ++ [m]) := by
      rw [hdu, ← htu]
      exact List.mem_map_of_mem ht
    rw [ModuleDocument.declareTypes_eq, List.map_cons, firstRepeated?, if_pos hused, hdu]
    rfl

/-- A text is the full name of each of its splits, and an empty package adds no dot. -/
example : [("", "a.b.c"), ("a", "b.c"), ("a.b", "c"), ("", ".c"), ("a", "")].map
      (fun (package, name) => (TypeInfo.declared package name).fullName) =
    ["a.b.c", "a.b.c", "a.b.c", ".c", "a."] := by decide

end AssemblyLinker
