import AssemblyLinker.Assembly.Declaration
import AssemblyLinker.Proofs.Document
import AssemblyLinker.Proofs.Modules.Building
import AssemblyLinker.Writer

/-! # Module documents read and written

    What is written for a module document is read as that document: the members that are left
    out are those that are read as absent or empty (`ModuleDocument.read_toJson`).  Written
    values hold texts only, so they come back unchanged when the text of an assembly is read
    (`Assembly.parse_render`).
-/

namespace AssemblyLinker

open Json

/-! ## Parts of a type -/

theorem FieldInfo.ofJson_toJson (f : FieldInfo) : ofJson f.toJson = .ok f := rfl

namespace TypeDocument

theorem asList_interfaces (names : List String) :
    asList asText (.arr (names.map .str)) = .ok names := by
  have hname : ∀ name ∈ names, asText (.str name) = .ok (id name) := by
    intro name _
    rfl
  have hmap := eachItem_map names hname
  rwa [List.map_id] at hmap

theorem asList_fields (fields : List FieldInfo) :
    asList FieldInfo.ofJson (.arr (fields.map FieldInfo.toJson)) = .ok fields := by
  have hfield : ∀ f ∈ fields, FieldInfo.ofJson f.toJson = .ok (id f) := by
    intro f _
    exact FieldInfo.ofJson_toJson f
  have hmap := eachItem_map fields hfield
  rwa [List.map_id] at hmap

/-- The members that are written for a type. -/
def members (t : TypeDocument) : List (String × Json) :=
  [("name", .str t.name), ("package", .str t.package)] ++
  optionalMember "base" (t.base.map .str) ++
  nonemptyMember "interfaces" (t.interfaces.map .str) ++
  nonemptyMember "fields" (t.fields.map FieldInfo.toJson) ++
  optionalMember "bytecode" (t.bytecode.map .str)

/-- What a member that is written for a type may be. -/
theorem mem_members {t : TypeDocument} {m : String × Json} (hm : m ∈ t.members) :
    (∃ key s, m = (key, .str s) ∧ key ∈ ["name", "package", "base", "bytecode"]) ∨
      m = ("interfaces", .arr (t.interfaces.map .str)) ∨
      m = ("fields", .arr (t.fields.map FieldInfo.toJson)) := by
  simp only [members, List.mem_append, List.mem_cons, List.not_mem_nil, or_false] at hm
  -- two members are always there, each other one if there is something to write
  rcases hm with (((hm | hm) | hm) | hm) | hm
  · rcases hm with rfl | rfl
    · exact .inl ⟨_, _, rfl, by decide⟩
    · exact .inl ⟨_, _, rfl, by decide⟩
  · cases hbase : t.base with
    | none =>
      rw [hbase] at hm
      cases hm
    | some base =>
      rw [hbase] at hm
      exact .inl ⟨_, _, List.mem_singleton.1 hm, by decide⟩
  · unfold nonemptyMember at hm
    split at hm
    · cases hm
    · exact .inr (.inl (List.mem_singleton.1 hm))
  · unfold nonemptyMember at hm
    split at hm
    · cases hm
    · exact .inr (.inr (List.mem_singleton.1 hm))
  · cases hbytecode : t.bytecode with
    | none =>
      rw [hbytecode] at hm
      cases hm
    | some bytecode =>
      rw [hbytecode] at hm
      exact .inl ⟨_, _, List.mem_singleton.1 hm, by decide⟩

theorem checkMembers_members (t : TypeDocument) :
    checkMembers checkMember (Members.ofList t.members) = .ok () := by
  apply checkMembers_ok
  intro m hm
  rcases mem_members (mem_ofList hm) with ⟨key, s, rfl, hkey⟩ | rfl | rfl
  · simp only [List.mem_cons, List.not_mem_nil, or_false] at hkey
    rcases hkey with rfl | rfl | rfl | rfl <;> rfl
  · show fits (asList asText) _ = _
    rw [fits, asList_interfaces]
    rfl
  · show fits (asList FieldInfo.ofJson) _ = _
    rw [fits, asList_fields]
    rfl

theorem ofMembers_members (t : TypeDocument) : ofMembers (Members.ofList t.members) = .ok t := by
  have hinterfaces := asList_interfaces t.interfaces
  have hfields := asList_fields t.fields
  unfold ofMembers
  rw [checkMembers_members]
  simp only [required, defaulted, get?_ofList]
  obtain ⟨name, package, base, interfaces, fields, bytecode⟩ := t
  simp only at hinterfaces hfields
  -- the members that may be absent decide where the others stand
  cases base <;> cases interfaces <;> cases fields <;> cases bytecode <;>
    simp_all [members, optionalMember, nonemptyMember, asText, asOption, Except.map, bind,
      Except.bind, pure, Except.pure]

theorem ofJson_toJson (t : TypeDocument) : ofJson t.toJson = .ok t := ofMembers_members t

end TypeDocument

/-! ## Modules -/

namespace ModuleDocument

theorem asList_types (types : List TypeDocument) :
    asList TypeDocument.ofJson (.arr (types.map TypeDocument.toJson)) = .ok types := by
  have htype : ∀ t ∈ types, TypeDocument.ofJson t.toJson = .ok (id t) := by
    intro t _
    exact TypeDocument.ofJson_toJson t
  have hmap := eachItem_map types htype
  rwa [List.map_id] at hmap

/-- The members that are written for a module. -/
def members (d : ModuleDocument) : List (String × Json) :=
  [("type", .str d.kind), ("name", .str d.name), ("version", .str d.version),
    ("types", .arr (d.types.map TypeDocument.toJson))]

theorem ofMembers_members (d : ModuleDocument) :
    ofMembers (Members.ofList d.members) = .ok d := by
  have htypes := asList_types d.types
  have hcheck : checkMembers checkMember (Members.ofList d.members) = .ok () := by
    apply checkMembers_ok
    intro m hm
    have hm := mem_ofList hm
    simp only [members, List.mem_cons, List.not_mem_nil, or_false] at hm
    rcases hm with rfl | rfl | rfl | rfl
    · rfl
    · rfl
    · rfl
    · show fits (asList TypeDocument.ofJson) _ = _
      rw [fits, htypes]
      rfl
  unfold ofMembers
  rw [hcheck]
  simp [required, defaulted, get?_ofList, members, htypes, asText, bind, Except.bind, pure,
    Except.pure]

theorem ofJson_toJson (d : ModuleDocument) : ofJson d.toJson = .ok d := ofMembers_members d

/-- What is written for a module document is read as that document. -/
theorem read_toJson {d : ModuleDocument} (hkind : d.kind = discriminator) :
    read d.toJson = .ok d := by
  unfold read
  rw [ofJson_toJson]
  simp only
  rw [if_pos hkind]

/-! ### Modules and their documents -/

/-- A module that has been built from a document is written as that document. -/
theorem ofModule_built {d : ModuleDocument} (hkind : d.kind = discriminator) :
    ofModule d.built = d := by
  have htypes : d.built.types.map .ofType = d.types := by
    rw [built, List.map_map]
    exact List.map_id _
  unfold ofModule
  rw [htypes, ← hkind]
  rfl

/-- A module all of whose types are defined is the one that its document describes. -/
theorem built_ofModule {m : ModuleInfo} (hdefined : ∀ t ∈ m.types, t.isDefined = true) :
    (ofModule m).built = m := by
  have htypes : (ofModule m).types.map TypeDocument.built = m.types := by
    rw [ofModule, List.map_map]
    conv_rhs => rw [← List.map_id m.types]
    apply List.map_congr_left
    intro t ht
    obtain ⟨body, hbody⟩ := Option.isSome_iff_exists.1 (hdefined t ht)
    obtain ⟨package, name, _⟩ := t
    cases hbody
    rfl
  unfold built
  rw [htypes]
  rfl

/-- What is written for modules is read as their documents. -/
theorem read_toJson_modules (ms : List ModuleInfo) :
    (ms.map ModuleInfo.toJson).map read = (ms.map ofModule).map .ok := by
  rw [List.map_map, List.map_map]
  apply List.map_congr_left
  intro m _
  exact read_toJson rfl

theorem fullNames_ofModule (ms : List ModuleInfo) :
    fullNames (ms.map ofModule) = ModuleInfo.fullNames ms := by
  simp [fullNames, ModuleInfo.fullNames, ofModule, List.flatMap_map, List.map_flatMap,
    Function.comp_def, TypeDocument.ofType, TypeDocument.fullName, TypeInfo.fullName]

end ModuleDocument

/-! ## Written values in a text -/

/-- A value that can be written and comes back unchanged when it is read. -/
structure Json.Writable (depth : Nat) (j : Json) : Prop where
  readable : Json.Readable depth j
  steady : j.Steady

namespace Json.Writable

theorem str (depth : Nat) (s : String) : Writable depth (.str s) := ⟨.str depth s, .str s⟩

theorem arr {depth : Nat} {items : List Json} (h : ∀ j ∈ items, Writable depth j) :
    Writable (depth + 1) (.arr items) :=
  ⟨.arr fun j hj => (h j hj).readable, .arr fun j hj => (h j hj).steady⟩

theorem object {depth : Nat} {members : List (String × Json)}
    (h : ∀ m ∈ members, Writable depth m.2) : Writable (depth + 1) (Json.object members) :=
  ⟨readable_object fun m hm => (h m hm).readable, .obj fun m hm => (h m (mem_ofList hm)).steady⟩

end Json.Writable

theorem FieldInfo.writable_toJson (f : FieldInfo) (depth : Nat) :
    Json.Writable (depth + 1) f.toJson := by
  apply Json.Writable.object
  intro m hm
  simp only [List.mem_cons, List.not_mem_nil, or_false] at hm
  rcases hm with rfl | rfl
  · exact .str _ f.name
  · exact .str _ f.typeName

theorem TypeDocument.writable_toJson (t : TypeDocument) (depth : Nat) :
    Json.Writable (depth + 3) t.toJson := by
  apply Json.Writable.object
  intro m hm
  rcases mem_members hm with ⟨key, s, rfl, -⟩ | rfl | rfl
  · exact .str _ s
  · apply Json.Writable.arr
    intro j hj
    obtain ⟨name, -, rfl⟩ := List.mem_map.1 hj
    exact .str _ name
  · apply Json.Writable.arr
    intro j hj
    obtain ⟨f, -, rfl⟩ := List.mem_map.1 hj
    exact f.writable_toJson depth

theorem ModuleDocument.writable_toJson (d : ModuleDocument) (depth : Nat) :
    Json.Writable (depth + 5) d.toJson := by
  apply Json.Writable.object
  intro m hm
  simp only [List.mem_cons, List.not_mem_nil, or_false] at hm
  rcases hm with rfl | rfl | rfl | rfl
  · exact .str _ d.kind
  · exact .str _ d.name
  · exact .str _ d.version
  · apply Json.Writable.arr
    intro j hj
    obtain ⟨t, -, rfl⟩ := List.mem_map.1 hj
    exact t.writable_toJson depth

namespace Assembly

variable (mode : BytecodeMode) (a : Assembly)

theorem writable_modules :
    ∀ j ∈ (a.toDocument mode).modules, Json.Writable Document.moduleDepth j := by
  intro j hj
  obtain ⟨m, -, rfl⟩ := List.mem_map.1 hj
  exact (ModuleDocument.ofModule m).writable_toJson 120

/-- The text of an assembly is read as its document. -/
theorem parse_render (origin : String) :
    Document.parse (a.render mode) origin = .ok (a.toDocument mode) := by
  have hreadable : (a.toDocument mode).Readable := by
    intro j hj
    exact (a.writable_modules mode j hj).readable
  have hsteady : ∀ j ∈ (a.toDocument mode).modules, j.Steady := by
    intro j hj
    exact (a.writable_modules mode j hj).steady
  exact Document.parse_render_of_steady hreadable hsteady origin

end Assembly

end AssemblyLinker
