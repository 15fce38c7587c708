import AssemblyLinker.Assembly.ModuleInfo
import AssemblyLinker.Json.Decode

/-! # Module documents

    The document of a module names the module and lists its types, each with its package,
    its base, its interfaces, its fields and its bytecode. Everything but the names may be
    absent. In a written document the absent and empty parts of a body are left out.
-/

namespace AssemblyLinker

/-- A type of a module document. -/
structure TypeDocument where
  name : String
  package : String := ""
  base : Option String := none
  interfaces : List String := []
  fields : List FieldInfo := []
  bytecode : Option String := none
  deriving DecidableEq, Repr

/-- The document of a module. -/
structure ModuleDocument where
  kind : String
  name : String
  version : String := ""
  types : List TypeDocument := []
  deriving DecidableEq, Repr

/-! ## Reading -/

namespace FieldInfo

/-- The shape of a field. -/
def shape : Json.RecordShape := ⟨"FieldDocument", 2⟩

/-- The check on a member of a field. -/
def checkMember : String → Json → Except Json.Mismatch Unit
  | "name" => Json.fits Json.asText
  | "type" => Json.fits Json.asText
  | _ => fun _ => .ok ()

/-- A field from the members of an object. -/
def ofMembers (members : Json.Members) : Except Json.Mismatch FieldInfo := do
  Json.checkMembers checkMember members
  let name ← Json.required "name" Json.asText members
  let typeName ← Json.required "type" Json.asText members
  return { name, typeName }

/-- A field from a list of its fields. -/
def ofItems (items : List Json) : Except Json.Mismatch (FieldInfo × List Json) := do
  let (name, items) ← Json.nextRequired shape 0 Json.asText items
  let (typeName, items) ← Json.nextRequired shape 1 Json.asText items
  return ({ name, typeName }, items)

/-- Reads a field. -/
def ofJson : Json.Decoder FieldInfo := Json.asRecord shape ofMembers ofItems

end FieldInfo

namespace TypeDocument

/-- The shape of a type. -/
def shape : Json.RecordShape := ⟨"TypeDocument", 6⟩

/-- The check on a member of a type. -/
def checkMember : String → Json → Except Json.Mismatch Unit
  | "name" => Json.fits Json.asText
  | "package" => Json.fits Json.asText
  | "base" => Json.fits (Json.asOption Json.asText)
  | "interfaces" => Json.fits (Json.asList Json.asText)
  | "fields" => Json.fits (Json.asList FieldInfo.ofJson)
  | "bytecode" => Json.fits (Json.asOption Json.asText)
  | _ => fun _ => .ok ()

/-- A type from the members of an object. -/
def ofMembers (members : Json.Members) : Except Json.Mismatch TypeDocument := do
  Json.checkMembers checkMember members
  let name ← Json.required "name" Json.asText members
  let package ← Json.defaulted "package" "" Json.asText members
  let base ← Json.defaulted "base" none (Json.asOption Json.asText) members
  let interfaces ← Json.defaulted "interfaces" [] (Json.asList Json.asText) members
  let fields ← Json.defaulted "fields" [] (Json.asList FieldInfo.ofJson) members
  let bytecode ← Json.defaulted "bytecode" none (Json.asOption Json.asText) members
  return { name, package, base, interfaces, fields, bytecode }

/-- A type from a list of its fields. -/
def ofItems (items : List Json) : Except Json.Mismatch (TypeDocument × List Json) := do
  let (name, items) ← Json.nextRequired shape 0 Json.asText items
  let (package, items) ← Json.nextDefaulted "" Json.asText items
  let (base, items) ← Json.nextDefaulted none (Json.asOption Json.asText) items
  let (interfaces, items) ← Json.nextDefaulted [] (Json.asList Json.asText) items
  let (fields, items) ← Json.nextDefaulted [] (Json.asList FieldInfo.ofJson) items
  let (bytecode, items) ← Json.nextDefaulted none (Json.asOption Json.asText) items
  return ({ name, package, base, interfaces, fields, bytecode }, items)

/-- Reads a type. -/
def ofJson : Json.Decoder TypeDocument := Json.asRecord shape ofMembers ofItems

/-- The full name of a type. -/
def fullName (t : TypeDocument) : String := fullTypeName t.package t.name

/-- The names that the body of a type refers to: base, interfaces, types of fields. -/
def typeNames (t : TypeDocument) : List String :=
  t.base.toList ++ t.interfaces ++ t.fields.map (·.typeName)

/-- The body of a type. -/
def body (t : TypeDocument) : TypeBody :=
  { base := t.base, interfaces := t.interfaces, fields := t.fields, bytecode := t.bytecode }

/-- The document of a type. -/
def ofType (t : TypeInfo) : TypeDocument :=
  let body := t.body.getD {}
  { name := t.name, package := t.package, base := body.base, interfaces := body.interfaces,
    fields := body.fields, bytecode := body.bytecode }

end TypeDocument

namespace ModuleDocument

/-- The discriminator of module documents. -/
def discriminator : String := "MODULE"

/-- The shape of a module. -/
def shape : Json.RecordShape := ⟨"ModuleDocument", 4⟩

/-- The check on a member of a module. -/
def checkMember : String → Json → Except Json.Mismatch Unit
  | "type" => Json.fits Json.asText
  | "name" => Json.fits Json.asText
  | "version" => Json.fits Json.asText
  | "types" => Json.fits (Json.asList TypeDocument.ofJson)
  | _ => fun _ => .ok ()

/-- A module from the members of an object. -/
def ofMembers (members : Json.Members) : Except Json.Mismatch ModuleDocument := do
  Json.checkMembers checkMember members
  let kind ← Json.required "type" Json.asText members
  let name ← Json.required "name" Json.asText members
  let version ← Json.defaulted "version" "" Json.asText members
  let types ← Json.defaulted "types" [] (Json.asList TypeDocument.ofJson) members
  return { kind, name, version, types }

/-- A module from a list of its fields. -/
def ofItems (items : List Json) : Except Json.Mismatch (ModuleDocument × List Json) := do
  let (kind, items) ← Json.nextRequired shape 0 Json.asText items
  let (name, items) ← Json.nextRequired shape 1 Json.asText items
  let (version, items) ← Json.nextDefaulted "" Json.asText items
  let (types, items) ← Json.nextDefaulted [] (Json.asList TypeDocument.ofJson) items
  return ({ kind, name, version, types }, items)

/-- Reads a module. -/
def ofJson : Json.Decoder ModuleDocument := Json.asRecord shape ofMembers ofItems

/-- The document of a module. -/
def ofModule (m : ModuleInfo) : ModuleDocument :=
  { kind := discriminator, name := m.name, version := m.version,
    types := m.types.map .ofType }

end ModuleDocument

/-! ## Writing -/

/-- The value of a field. -/
def FieldInfo.toJson (f : FieldInfo) : Json :=
  Json.object [("name", .str f.name), ("type", .str f.typeName)]

/-- The value of a type. -/
def TypeDocument.toJson (t : TypeDocument) : Json :=
  Json.object <|
    [("name", .str t.name), ("package", .str t.package)] ++
    Json.optionalMember "base" (t.base.map .str) ++
    Json.nonemptyMember "interfaces" (t.interfaces.map .str) ++
    Json.nonemptyMember "fields" (t.fields.map FieldInfo.toJson) ++
    Json.optionalMember "bytecode" (t.bytecode.map .str)

/-- The value of a module document. -/
def ModuleDocument.toJson (d : ModuleDocument) : Json :=
  Json.object
    [("type", .str d.kind), ("name", .str d.name), ("version", .str d.version),
      ("types", .arr (d.types.map TypeDocument.toJson))]

/-- The value of the document of a module. -/
def ModuleInfo.toJson (m : ModuleInfo) : Json := (ModuleDocument.ofModule m).toJson

end AssemblyLinker
