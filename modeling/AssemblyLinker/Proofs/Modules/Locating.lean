import AssemblyLinker.Session
import Mathlib.Data.List.Basic

/-! # Locating types

    Whether a type is located in an assembly depends on little: the full names of the types
    that are declared, here and in whatever it depends on.  So a type stays located when more
    types are declared, when there are more dependencies, and when types get their bodies
    (`Store.locateWithin?_mono`, `ModuleDocument.resolves_mono`).
-/

namespace AssemblyLinker

/-! ## Full names -/

/-- Taking a name apart and building it come to the same. -/
theorem TypeInfo.isNamed_iff {t : TypeInfo} {query : String} :
    t.isNamed query = true ↔ t.fullName = query := by
  unfold isNamed fullName fullTypeName
  by_cases hpackage : t.package = ""
  · simp [hpackage]
  rw [if_neg hpackage, if_neg hpackage]
  constructor
  · intro h
    split at h
    next rest hpackage =>
      have happend := List.isPrefixOf?_eq_some_iff_append_eq.1 hpackage
      have hname : rest = t.name.toList := by simpa using h
      apply String.toList_inj.1
      simp [← happend, hname]
    next => cases h
  · intro h
    have hpackage : t.package.toList.isPrefixOf? query.toList = some ('.' :: t.name.toList) := by
      rw [List.isPrefixOf?_eq_some_iff_append_eq, ← h]
      simp
    simp [hpackage]

/-- The full names of the types of modules. -/
def ModuleInfo.fullNames (ms : List ModuleInfo) : List String :=
  (ms.flatMap (·.types)).map (·.fullName)

theorem ModuleInfo.findType?_isSome_iff {m : ModuleInfo} {name : String} :
    (m.findType? name).isSome = true ↔ name ∈ m.types.map (·.fullName) := by
  simp [findType?, List.find?_isSome, TypeInfo.isNamed_iff]

theorem Assembly.locateLocalType?_isSome_iff {a : Assembly} {name : String} :
    (a.locateLocalType? name).isSome = true ↔ name ∈ ModuleInfo.fullNames a.modules := by
  simp only [locateLocalType?, Option.isSome_map, List.find?_isSome,
    ModuleInfo.findType?_isSome_iff, ModuleInfo.fullNames, List.map_flatMap, List.mem_flatMap]

/-! ## Assemblies that declare no less -/

/-- An assembly declares every type and has every dependency of another one. -/
structure Assembly.Covers (b a : Assembly) : Prop where
  types : ModuleInfo.fullNames a.modules ⊆ ModuleInfo.fullNames b.modules
  dependencies : a.dependencies ⊆ b.dependencies

theorem Assembly.Covers.refl (a : Assembly) : a.Covers a :=
  ⟨List.Subset.refl _, List.Subset.refl _⟩

namespace Store

/-- The handles of one store stand in another for assemblies that cover theirs. -/
def Covers (t s : Store) : Prop :=
  ∀ h a, s.get? h = some a → ∃ b, t.get? h = some b ∧ b.Covers a

variable {s t : Store} {name : String}

theorem covers_of_prefix (hle : s <+: t) : t.Covers s := by
  intro h a ha
  exact ⟨a, get?_of_prefix hle ha, .refl a⟩

/-- A change that lets the assembly of a handle declare no less. -/
theorem covers_update {h : Handle} {f g : Assembly → Assembly}
    (hfg : ∀ a, s.get? h = some a → (g a).Covers (f a)) : (s.update h g).Covers (s.update h f) := by
  intro i a ha
  by_cases hi : i = h
  · subst hi
    rw [get?_update_self] at ha ⊢
    obtain ⟨b, hb, rfl⟩ := Option.map_eq_some_iff.1 ha
    exact ⟨g b, by rw [hb]; rfl, hfg b hb⟩
  · rw [get?_update_ne _ _ hi] at ha ⊢
    exact ⟨a, ha, .refl a⟩

/-- What is located below a handle stays located in a store that covers the first one, and
    along longer ways. -/
theorem locateWithin?_mono (hcovers : t.Covers s) {depth : Nat} : ∀ {depth' : Nat} {h : Handle},
    depth ≤ depth' → (s.locateWithin? name depth h).isSome = true →
      (t.locateWithin? name depth' h).isSome = true := by
  induction depth with
  | zero =>
    intro depth' h hle hlocated
    cases hlocated
  | succ depth ih =>
    intro depth' h hle hlocated
    obtain ⟨depth', rfl⟩ : ∃ n, depth' = n + 1 := ⟨depth' - 1, by omega⟩
    unfold locateWithin? at hlocated ⊢
    cases ha : s.get? h with
    | none =>
      rw [ha] at hlocated
      cases hlocated
    | some a =>
      -- the assembly has all of its types and dependencies in the larger store, too
      obtain ⟨b, hb, hab⟩ := hcovers h a ha
      rw [ha] at hlocated
      rw [hb]
      simp only [Option.isSome_or, Bool.or_eq_true, List.findSome?_isSome_iff,
        Assembly.locateLocalType?_isSome_iff] at hlocated ⊢
      rcases hlocated with hlocal | ⟨d, hd, hbelow⟩
      · exact .inl (hab.types hlocal)
      · exact .inr ⟨d, hab.dependencies hd, ih (by omega) hbelow⟩

/-- What is located in an assembly is located below every handle that stands for it. -/
theorem locateWithin?_of_locateType? (hcovers : t.Covers s) {a : Assembly} {h : Handle}
    (ha : s.get? h = some a) {depth : Nat} (hdepth : s.length < depth)
    (hlocated : (s.locateType? a name).isSome = true) :
    (t.locateWithin? name depth h).isSome = true := by
  apply locateWithin?_mono hcovers (Nat.succ_le_of_lt hdepth)
  unfold locateWithin?
  rw [ha]
  exact hlocated

end Store

/-! ## Names that resolve -/

namespace ModuleDocument

variable {s t : Store} {a b : Assembly} {name : String}

theorem resolves_iff : resolves s a name = true ↔ name ∈ primitiveTypes ∨
    name ∈ ModuleInfo.fullNames a.modules ∨
    ∃ d ∈ a.dependencies, (s.locateWithin? name s.length d).isSome = true := by
  simp only [resolves, Store.locateType?, Option.isSome_or, Bool.or_eq_true,
    List.findSome?_isSome_iff, Assembly.locateLocalType?_isSome_iff, List.contains_iff_mem]

/-- A name that resolves does so where no less is declared. -/
theorem resolves_mono (hcovers : t.Covers s) (hlength : s.length ≤ t.length) (hab : b.Covers a)
    (h : resolves s a name = true) : resolves t b name = true := by
  rw [resolves_iff] at h ⊢
  rcases h with hprimitive | hlocal | ⟨d, hd, hbelow⟩
  · exact .inl hprimitive
  · exact .inr (.inl (hab.types hlocal))
  · exact .inr (.inr ⟨d, hab.dependencies hd, Store.locateWithin?_mono hcovers hlength hbelow⟩)

end ModuleDocument

end AssemblyLinker
