import AssemblyLinker.Assembly.Declaration
import AssemblyLinker.Proofs.Json.Decoding

/-! # What module documents are read from

    The parts of the value of a module, of its types and of their fields, and what each of
    them is read as.  Proofs about module documents speak of these parts (`Json.part?`), so
    objects and lists of fields need not be told apart again.
-/

namespace AssemblyLinker

open Json

/-! ## Fields and types -/

theorem FieldInfo.parts_of_ofJson {j : Json} {f : FieldInfo} (h : ofJson j = .ok f) :
    partAs none asText (j.part? "name" 0) = some f.name ∧
      partAs none asText (j.part? "type" 1) = some f.typeName := by
  cases j with
  | obj ms =>
    obtain ⟨_, -, h⟩ := exists_of_bind_ok h
    obtain ⟨name, hname, h⟩ := exists_of_bind_ok h
    obtain ⟨typeName, htype, h⟩ := exists_of_bind_ok h
    cases h
    exact ⟨required_eq_ok_iff.1 hname, required_eq_ok_iff.1 htype⟩
  | arr items =>
    have h := asRecord_arr_eq_ok_iff.1 h
    obtain ⟨⟨name, _⟩, hfirst, h⟩ := exists_of_bind_ok h
    obtain ⟨hname, rfl⟩ := nextRequired_eq_ok_iff.1 hfirst
    obtain ⟨⟨typeName, _⟩, hsecond, h⟩ := exists_of_bind_ok h
    obtain ⟨htype, rfl⟩ := nextRequired_eq_ok_iff.1 hsecond
    obtain rfl := congrArg Prod.fst (Except.ok.inj h)
    exact ⟨hname, by simpa [part?] using htype⟩
  | null | bool | num | str => cases h

/-- The parts of a value as which the parts of a type are read. -/
structure TypeDocument.ReadFrom (j : Json) (t : TypeDocument) : Prop where
  name : partAs none asText (j.part? "name" 0) = some t.name
  package : partAs (some "") asText (j.part? "package" 1) = some t.package
  base : partAs (some none) (asOption asText) (j.part? "base" 2) = some t.base
  interfaces : partAs (some []) (asList asText) (j.part? "interfaces" 3) = some t.interfaces
  fields : partAs (some []) (asList FieldInfo.ofJson) (j.part? "fields" 4) = some t.fields
  bytecode : partAs (some none) (asOption asText) (j.part? "bytecode" 5) = some t.bytecode

theorem TypeDocument.readFrom_of_ofJson {j : Json} {t : TypeDocument} (h : ofJson j = .ok t) :
    t.ReadFrom j := by
  cases j with
  | obj ms =>
    obtain ⟨_, -, h⟩ := exists_of_bind_ok h
    obtain ⟨name, hname, h⟩ := exists_of_bind_ok h
    obtain ⟨package, hpackage, h⟩ := exists_of_bind_ok h
    obtain ⟨base, hbase, h⟩ := exists_of_bind_ok h
    obtain ⟨interfaces, hinterfaces, h⟩ := exists_of_bind_ok h
    obtain ⟨fields, hfields, h⟩ := exists_of_bind_ok h
    obtain ⟨bytecode, hbytecode, h⟩ := exists_of_bind_ok h
    cases h
    exact ⟨required_eq_ok_iff.1 hname, defaulted_eq_ok_iff.1 hpackage, defaulted_eq_ok_iff.1 hbase,
      defaulted_eq_ok_iff.1 hinterfaces, defaulted_eq_ok_iff.1 hfields,
      defaulted_eq_ok_iff.1 hbytecode⟩
  | arr items =>
    have h := asRecord_arr_eq_ok_iff.1 h
    obtain ⟨⟨name, _⟩, hfirst, h⟩ := exists_of_bind_ok h
    obtain ⟨hname, rfl⟩ := nextRequired_eq_ok_iff.1 hfirst
    obtain ⟨⟨package, _⟩, hsecond, h⟩ := exists_of_bind_ok h
    obtain ⟨hpackage, rfl⟩ := nextDefaulted_eq_ok_iff.1 hsecond
    obtain ⟨⟨base, _⟩, hthird, h⟩ := exists_of_bind_ok h
    obtain ⟨hbase, rfl⟩ := nextDefaulted_eq_ok_iff.1 hthird
    obtain ⟨⟨interfaces, _⟩, hfourth, h⟩ := exists_of_bind_ok h
    obtain ⟨hinterfaces, rfl⟩ := nextDefaulted_eq_ok_iff.1 hfourth
    obtain ⟨⟨fields, _⟩, hfifth, h⟩ := exists_of_bind_ok h
    obtain ⟨hfields, rfl⟩ := nextDefaulted_eq_ok_iff.1 hfifth
    obtain ⟨⟨bytecode, _⟩, hsixth, h⟩ := exists_of_bind_ok h
    obtain ⟨hbytecode, rfl⟩ := nextDefaulted_eq_ok_iff.1 hsixth
    obtain rfl := congrArg Prod.fst (Except.ok.inj h)
    simp only [List.getElem?_tail, Nat.zero_add, Nat.reduceAdd]
      at hpackage hbase hinterfaces hfields hbytecode
    exact ⟨hname, hpackage, hbase, hinterfaces, hfields, hbytecode⟩
  | null | bool | num | str => cases h

/-! ## Modules -/

namespace ModuleDocument

/-- The parts of a value as which the parts of a module are read. -/
structure ReadFrom (j : Json) (d : ModuleDocument) : Prop where
  kind : partAs none asText (j.part? "type" 0) = some d.kind
  name : partAs none asText (j.part? "name" 1) = some d.name
  version : partAs (some "") asText (j.part? "version" 2) = some d.version
  types : partAs (some []) (asList TypeDocument.ofJson) (j.part? "types" 3) = some d.types

/-- No member of an object has a type of its own that does not fit its key, and no list of
    fields goes on behind the types. -/
def Fits : Json → Prop
  | .obj members => checkMembers checkMember members = .ok ()
  | .arr items => items.length ≤ 4
  | _ => False

/-- A value is read as a document exactly if its parts are read as those of the document, and
    nothing else in it is out of place. -/
theorem ofJson_eq_ok_iff {j : Json} {d : ModuleDocument} :
    ofJson j = .ok d ↔ Fits j ∧ d.ReadFrom j := by
  cases j with
  | obj ms =>
    constructor
    · intro h
      obtain ⟨_, hcheck, h⟩ := exists_of_bind_ok h
      obtain ⟨kind, hkind, h⟩ := exists_of_bind_ok h
      obtain ⟨name, hname, h⟩ := exists_of_bind_ok h
      obtain ⟨version, hversion, h⟩ := exists_of_bind_ok h
      obtain ⟨types, htypes, h⟩ := exists_of_bind_ok h
      cases h
      exact ⟨hcheck, required_eq_ok_iff.1 hkind, required_eq_ok_iff.1 hname,
        defaulted_eq_ok_iff.1 hversion, defaulted_eq_ok_iff.1 htypes⟩
    · rintro ⟨hcheck, hread⟩
      have hcheck : checkMembers checkMember ms = .ok () := hcheck
      show ofMembers ms = _
      unfold ofMembers
      rw [hcheck, required_eq_ok_iff.2 hread.kind, required_eq_ok_iff.2 hread.name,
        defaulted_eq_ok_iff.2 hread.version, defaulted_eq_ok_iff.2 hread.types]
      rfl
  | arr items =>
    -- what is left behind the fourth part is refused
    have hfits : Fits (.arr items) ↔ items.tail.tail.tail.tail = [] := by
      rw [← List.length_eq_zero_iff]
      simp only [Fits, List.length_tail]
      omega
    show asRecord shape ofMembers ofItems (.arr items) = _ ↔ _
    rw [asRecord_arr_eq_ok_iff, hfits]
    constructor
    · intro h
      obtain ⟨⟨kind, _⟩, hfirst, h⟩ := exists_of_bind_ok h
      obtain ⟨hkind, rfl⟩ := nextRequired_eq_ok_iff.1 hfirst
      obtain ⟨⟨name, _⟩, hsecond, h⟩ := exists_of_bind_ok h
      obtain ⟨hname, rfl⟩ := nextRequired_eq_ok_iff.1 hsecond
      obtain ⟨⟨version, _⟩, hthird, h⟩ := exists_of_bind_ok h
      obtain ⟨hversion, rfl⟩ := nextDefaulted_eq_ok_iff.1 hthird
      obtain ⟨⟨types, _⟩, hfourth, h⟩ := exists_of_bind_ok h
      obtain ⟨htypes, rfl⟩ := nextDefaulted_eq_ok_iff.1 hfourth
      obtain ⟨rfl, hend⟩ := Prod.mk.inj (Except.ok.inj h)
      simp only [List.getElem?_tail, Nat.zero_add, Nat.reduceAdd] at hname hversion htypes
      exact ⟨hend, hkind, hname, hversion, htypes⟩
    · rintro ⟨hend, hread⟩
      have hname : partAs none asText items.tail[0]? = some d.name := by
        simpa [part?, List.getElem?_tail] using hread.name
      have hversion : partAs (some "") asText items.tail.tail[0]? = some d.version := by
        simpa [part?, List.getElem?_tail] using hread.version
      have htypes : partAs (some []) (asList TypeDocument.ofJson) items.tail.tail.tail[0]? =
          some d.types := by
        simpa [part?, List.getElem?_tail] using hread.types
      unfold ofItems
      rw [nextRequired_eq_ok_iff.2 ⟨hread.kind, rfl⟩]
      simp only [bind, Except.bind]
      rw [nextRequired_eq_ok_iff.2 ⟨hname, rfl⟩]
      simp only
      rw [nextDefaulted_eq_ok_iff.2 ⟨hversion, rfl⟩]
      simp only
      rw [nextDefaulted_eq_ok_iff.2 ⟨htypes, hend.symm⟩]
      rfl
  | null | bool | num | str => exact iff_of_false (fun h => by cases h) fun h => h.1

theorem read_eq_ok_iff {j : Json} {d : ModuleDocument} :
    read j = .ok d ↔ ofJson j = .ok d ∧ d.kind = discriminator := by
  unfold read
  cases hj : ofJson j with
  | error e => simp
  | ok d' =>
    simp only [Except.ok.injEq]
    split
    next hkind =>
      simp only [Except.ok.injEq]
      exact ⟨fun h => ⟨h, h ▸ hkind⟩, And.left⟩
    next hkind =>
      refine iff_of_false (by simp) ?_
      rintro ⟨rfl, h⟩
      exact hkind h

theorem kind_of_read {j : Json} {d : ModuleDocument} (h : read j = .ok d) :
    d.kind = discriminator :=
  (read_eq_ok_iff.1 h).2

end ModuleDocument

end AssemblyLinker
