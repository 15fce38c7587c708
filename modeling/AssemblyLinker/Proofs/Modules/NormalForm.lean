import AssemblyLinker.Proofs.Modules.Documents
import AssemblyLinker.Proofs.Modules.Reading

/-! # The normal form of a module document

    A module that has been declared and defined is written in a normal form of the value that
    it was read from: names, packages and versions are stated, parts of a body only where they
    are present, neither null nor empty, and there is nothing else
    (`module_written_in_normal_form`).

    The normal form is told from the value alone (`Json.normalModule`), not from what it is read
    as, so reader and writer are both measured by it.  That it is its own normal form, and that
    it makes the same module, follows: it is what is written for a document, and this is read
    as that document.
-/

namespace AssemblyLinker

namespace Json

/-! ## Normal forms -/

/-- A part that is there and not null. -/
def notNull? : Option Json → Option Json
  | some .null => none
  | part? => part?

/-- The items of a part that is a list. -/
def listItems : Option Json → List Json
  | some (.arr items) => items
  | _ => []

/-- The normal form of the value of a field. -/
def normalField (j : Json) : Json :=
  object [("name", (j.part? "name" 0).getD .null), ("type", (j.part? "type" 1).getD .null)]

/-- The normal form of the value of a type. -/
def normalType (j : Json) : Json :=
  object <|
    [("name", (j.part? "name" 0).getD .null), ("package", (j.part? "package" 1).getD (.str ""))] ++
    optionalMember "base" (notNull? (j.part? "base" 2)) ++
    nonemptyMember "interfaces" (listItems (j.part? "interfaces" 3)) ++
    nonemptyMember "fields" ((listItems (j.part? "fields" 4)).map normalField) ++
    optionalMember "bytecode" (notNull? (j.part? "bytecode" 5))

/-- The normal form of the value of a module. -/
def normalModule (j : Json) : Json :=
  object
    [("type", (j.part? "type" 0).getD .null), ("name", (j.part? "name" 1).getD .null),
      ("version", (j.part? "version" 2).getD (.str "")),
      ("types", .arr ((listItems (j.part? "types" 3)).map normalType))]

/-! ## Parts that are read -/

section Parts

variable {α : Type} {v? : Option Json}

theorem getD_of_required {s : String} (h : partAs none asText v? = some s) (d : Json) :
    v?.getD d = .str s := by
  cases v? with
  | none => cases h
  | some j => exact asText_eq_ok_iff.1 (toOption_eq_some_iff.1 h)

theorem getD_of_defaulted {s default : String} (h : partAs (some default) asText v? = some s) :
    v?.getD (.str default) = .str s := by
  cases v? with
  | none => exact congrArg Json.str (Option.some.inj h)
  | some j => exact asText_eq_ok_iff.1 (toOption_eq_some_iff.1 h)

/-- Null and an absent part are read as the same, and all others as texts. -/
theorem notNull?_of_option {s? : Option String}
    (h : partAs (some none) (asOption asText) v? = some s?) : notNull? v? = s?.map .str := by
  cases v? with
  | none =>
    obtain rfl : none = s? := Option.some.inj h
    rfl
  | some j =>
    rcases asOption_eq_ok (toOption_eq_some_iff.1 h) with ⟨rfl, rfl⟩ | ⟨-, s, hs, rfl⟩
    · rfl
    · rw [asText_eq_ok_iff.1 hs]
      rfl

section Lists

variable {item : Decoder α} {normal : Json → Json} {write : α → Json}
  (hitem : ∀ j a, item j = .ok a → normal j = write a)
include hitem

theorem map_normal {items : List Json} : ∀ {as : List α}, items.map item = as.map .ok →
    items.map normal = as.map write := by
  induction items with
  | nil =>
    intro as has
    obtain rfl := List.map_eq_nil_iff.1 has.symm
    rfl
  | cons j items ih =>
    intro as has
    obtain ⟨a, as, rfl, ha, hrest⟩ := List.map_eq_cons_iff.1 has.symm
    rw [List.map_cons, List.map_cons, hitem j a ha.symm, ih hrest.symm]

/-- An empty list and an absent part are read as the same. -/
theorem listItems_of_list {as : List α} (h : partAs (some []) (asList item) v? = some as) :
    (listItems v?).map normal = as.map write := by
  cases v? with
  | none =>
    obtain rfl : [] = as := Option.some.inj h
    rfl
  | some j =>
    have h := toOption_eq_some_iff.1 h
    cases j with
    | arr items => exact map_normal hitem (eachItem_eq_ok_iff.1 h)
    | null | bool | num | str | obj => cases h

end Lists

end Parts

end Json

open Json

/-! ## What is written for what has been read -/

/-- What is written for a field is the normal form of what it has been read from. -/
theorem FieldInfo.toJson_of_ofJson {j : Json} {f : FieldInfo} (h : ofJson j = .ok f) :
    j.normalField = f.toJson := by
  obtain ⟨hname, htype⟩ := parts_of_ofJson h
  rw [normalField, getD_of_required hname, getD_of_required htype]
  rfl

/-- What is written for a type is the normal form of what it has been read from. -/
theorem TypeDocument.toJson_of_ofJson {j : Json} {t : TypeDocument} (h : ofJson j = .ok t) :
    j.normalType = t.toJson := by
  have hread := readFrom_of_ofJson h
  have hinterfaces : listItems (j.part? "interfaces" 3) = t.interfaces.map .str := by
    have hitems := listItems_of_list (fun _ _ => asText_eq_ok_iff.1) hread.interfaces
    rwa [List.map_id'] at hitems
  have hfields : (listItems (j.part? "fields" 4)).map normalField = t.fields.map FieldInfo.toJson :=
    listItems_of_list (fun _ _ => FieldInfo.toJson_of_ofJson) hread.fields
  rw [normalType, getD_of_required hread.name, getD_of_defaulted hread.package,
    notNull?_of_option hread.base, hinterfaces, hfields, notNull?_of_option hread.bytecode]
  rfl

namespace ModuleDocument

variable {j : Json} {d : ModuleDocument} {store : Store} {a b : Assembly}

/-- What is written for a document is the normal form of what it has been read from. -/
theorem toJson_of_read (h : read j = .ok d) : j.normalModule = d.toJson := by
  have hread := (ofJson_eq_ok_iff.1 (read_eq_ok_iff.1 h).1).2
  have htypes : (listItems (j.part? "types" 3)).map normalType = d.types.map TypeDocument.toJson :=
    listItems_of_list (fun _ _ => TypeDocument.toJson_of_ofJson) hread.types
  rw [normalModule, getD_of_required hread.kind, getD_of_required hread.name,
    getD_of_defaulted hread.version, htypes]
  rfl

/-- A value is read as the same document as its normal form. -/
theorem read_normalModule (h : read j = .ok d) : read j.normalModule = .ok d := by
  rw [toJson_of_read h, read_toJson (kind_of_read h)]

/-- A module that has been declared and then defined is the one that its document describes. -/
theorem adds_built (hdeclare : declare j a = .ok b) {c : Assembly}
    (hdefine : define store j b = (c, .ok ())) :
    ∃ d, read j = .ok d ∧ c = a.addModule d.built := by
  obtain ⟨d, hread, hname, -, htypes, rfl⟩ := declare_adds_iff.1 hdeclare
  have hsplit : (a.addModule d.declared).modules = a.modules ++ d.declared :: [] := rfl
  have hbefore : ∀ m ∈ a.modules, decide (m.name = d.name) = false := by
    intro m hm
    rw [decide_eq_false_iff_not]
    rintro hsame
    exact hname (hsame ▸ List.mem_map_of_mem hm)
  have hresolves := resolves_of_define hsplit hbefore hread (by rw [hdefine])
  rw [define_of_resolves hsplit hbefore hread htypes hresolves] at hdefine
  exact ⟨d, hread, (congrArg Prod.fst hdefine).symm⟩

/-- A module is declared and defined alike from all values that are read as its document. -/
theorem declare_congr {j' : Json} (hread : read j' = read j) (a : Assembly) :
    declare j' a = declare j a := by
  unfold declare
  rw [hread]

theorem define_congr {j' : Json} (hread : read j' = read j) (store : Store) (a : Assembly) :
    define store j' a = define store j a := by
  unfold define
  rw [hread]

end ModuleDocument

open ModuleDocument

/-- Writing a module undoes reading it.  A module that has been declared and defined in an
    assembly is written as the normal form of the value it was read from; this is its own normal
    form, and in its place it is declared and defined as the same module. -/
theorem module_written_in_normal_form (store : Store) (j : Json) (a b c : Assembly)
    (hdeclare : declare j a = .ok b) (hdefine : define store j b = (c, .ok ())) :
    ∃ m, c = a.addModule m ∧ m.toJson = j.normalModule ∧
      j.normalModule.normalModule = j.normalModule ∧
      ∃ b', declare m.toJson a = .ok b' ∧ define store m.toJson b' = (a.addModule m, .ok ()) := by
  obtain ⟨d, hread, rfl⟩ := adds_built hdeclare hdefine
  have hnormal := toJson_of_read hread
  have hread' := read_normalModule hread
  have hwritten : d.built.toJson = j.normalModule := by
    rw [ModuleInfo.toJson, ofModule_built (kind_of_read hread), hnormal]
  -- both passes look at a value only through the document that it is read as
  have hsame : read d.built.toJson = read j := by rw [hwritten, hread', hread]
  refine ⟨d.built, rfl, hwritten, ?_, b, ?_, ?_⟩
  · rw [toJson_of_read hread', hnormal]
  · rw [declare_congr hsame, hdeclare]
  · rw [define_congr hsame, hdefine]

/-! ### A module that is not in normal form -/

section Loose

/-- A module with a type without a base, and one that is written as a list of its fields. -/
def looseModule : Json :=
  object [("type", .str "MODULE"), ("name", .str "Core"), ("comment", .bool true), ("types", .arr [
    object [("name", .str "Entity"), ("package", .str "game"), ("base", .null), ("fields", .arr []),
      ("interfaces", .arr [.str "game.Entity"])],
    .arr [.str "Main", .str "", .str "game.Entity", .arr [],
      .arr [.arr [.str "score", .str "int"]]]])]

/-- The module as it is written. -/
def tidyModule : Json :=
  object [("type", .str "MODULE"), ("name", .str "Core"), ("version", .str ""), ("types", .arr [
    object [("name", .str "Entity"), ("package", .str "game"),
      ("interfaces", .arr [.str "game.Entity"])],
    object [("name", .str "Main"), ("package", .str ""), ("base", .str "game.Entity"),
      ("fields", .arr [object [("name", .str "score"), ("type", .str "int")]])]])]

/-- An assembly without modules. -/
def emptyAssembly : Assembly := { name := "Game", uid := "u" }

theorem loose_module_tidied : ∃ b c, declare looseModule emptyAssembly = .ok b ∧
    define [] looseModule b = (c, .ok ()) ∧ looseModule.normalModule = tidyModule ∧
    ∃ m, c = emptyAssembly.addModule m ∧ m.toJson = tidyModule ∧
      tidyModule.normalModule = tidyModule ∧
      ∃ b', declare m.toJson emptyAssembly = .ok b' ∧
        define [] m.toJson b' = (emptyAssembly.addModule m, .ok ()) := by
  obtain ⟨b, hdeclare⟩ : ∃ b, declare looseModule emptyAssembly = .ok b := ⟨_, rfl⟩
  have hdefine : (define [] looseModule b).2 = .ok () := by
    obtain rfl := Except.ok.inj hdeclare
    rfl
  have htidy : looseModule.normalModule = tidyModule := rfl
  obtain ⟨m, hc, hwritten, hnormal, hagain⟩ := module_written_in_normal_form [] looseModule
    emptyAssembly b _ hdeclare (Prod.ext rfl hdefine)
  rw [htidy] at hwritten hnormal
  exact ⟨b, _, hdeclare, Prod.ext rfl hdefine, htidy, m, hc, hwritten, hnormal, hagain⟩

end Loose

end AssemblyLinker
