import AssemblyLinker.Json.Decode
import AssemblyLinker.Json.Parser
import AssemblyLinker.Json.Printer
import AssemblyLinker.LinkError

/-! # Assembly documents

    The document of an assembly is a JSON object with the discriminator `"ASSEMBLY"`. It
    names the assembly, states its metadata and its references in the order in which they
    are resolved, and holds the documents of its modules, which are opaque here. A
    reference of an executable carries the text of its assembly as a base64 payload.

    A document is written in canonical form: keys in order, three blanks per level,
    absent fields and the flag of a library left out.
-/

namespace AssemblyLinker

/-- An entry of the references of a document. -/
structure Reference where
  name : String
  binary : Option String := none
  deriving DecidableEq, Repr

/-- The document of an assembly. -/
structure Document where
  name : String
  version : String
  /-- The uid, empty where one is to be drawn. -/
  uid : String := ""
  loomConfig : String
  jit : Bool
  debugBuild : Option Bool := none
  executable : Bool := false
  references : List Reference
  modules : List Json
  deriving DecidableEq, Repr

/-! ## Reading -/

/-- The parse error of a fault of a text. -/
def LinkError.ofFault (origin text : String) (fault : Json.Fault) : LinkError :=
  let p := fault.position text.toList
  .parse origin p.line p.column (fault.message p)

/-- The JSON value of a text; `origin` names the text in errors. -/
def Json.parseFrom (origin text : String) : Except LinkError Json :=
  match Json.parse text with
  | .ok j => .ok j
  | .error fault => .error (.ofFault origin text fault)

namespace Reference

/-- The shape of a reference. -/
def shape : Json.RecordShape := ⟨"ReferenceEntry", 2⟩

/-- The check on a member of a reference. -/
def checkMember : String → Json → Except Json.Mismatch Unit
  | "name" => Json.fits Json.asText
  | "binary" => Json.fits (Json.asOption Json.asText)
  | _ => fun _ => .ok ()

/-- A reference from the members of an object. -/
def ofMembers (members : Json.Members) : Except Json.Mismatch Reference := do
  Json.checkMembers checkMember members
  let name ← Json.required "name" Json.asText members
  let binary ← Json.defaulted "binary" none (Json.asOption Json.asText) members
  return { name, binary }

/-- A reference from a list of its fields. -/
def ofItems (items : List Json) : Except Json.Mismatch (Reference × List Json) := do
  let (name, items) ← Json.nextRequired shape 0 Json.asText items
  let (binary, items) ← Json.nextDefaulted none (Json.asOption Json.asText) items
  return ({ name, binary }, items)

/-- Reads a reference. -/
def ofJson : Json.Decoder Reference := Json.asRecord shape ofMembers ofItems

end Reference

namespace Document

/-- The discriminator of assembly documents. -/
def discriminator : String := "ASSEMBLY"

/-- Why a value is no assembly document. -/
inductive Fault where
  | discriminatorAbsent
  | wrongDiscriminator (found : String)
  | mismatch (m : Json.Mismatch)
  deriving DecidableEq, Repr

/-- The wording of a fault. -/
def Fault.message : Fault → String
  | .discriminatorAbsent => "discriminant type absent"
  | .wrongDiscriminator found => s!"discriminant type '{found}' au lieu de '{discriminator}'"
  | .mismatch m => m.message

/-- The check on a member of a document. -/
def checkMember : String → Json → Except Json.Mismatch Unit
  | "type" => Json.fits Json.asText
  | "name" => Json.fits Json.asText
  | "version" => Json.fits Json.asText
  | "uid" => Json.fits Json.asText
  | "loomconfig" => Json.fits Json.asText
  | "jit" => Json.fits Json.asFlag
  | "debugbuild" => Json.fits (Json.asOption Json.asFlag)
  | "executable" => Json.fits Json.asFlag
  | "references" => Json.fits (Json.asList Reference.ofJson)
  | "modules" => Json.fits (Json.asList Json.asValue)
  | _ => fun _ => .ok ()

/-- A document from the members of an object. -/
def ofMembers (members : Json.Members) : Except Json.Mismatch Document := do
  Json.checkMembers checkMember members
  let name ← Json.required "name" Json.asText members
  let version ← Json.required "version" Json.asText members
  let uid ← Json.defaulted "uid" "" Json.asText members
  let loomConfig ← Json.required "loomconfig" Json.asText members
  let jit ← Json.required "jit" Json.asFlag members
  let debugBuild ← Json.defaulted "debugbuild" none (Json.asOption Json.asFlag) members
  let executable ← Json.defaulted "executable" false Json.asFlag members
  let references ← Json.required "references" (Json.asList Reference.ofJson) members
  let modules ← Json.required "modules" (Json.asList Json.asValue) members
  return { name, version, uid, loomConfig, jit, debugBuild, executable, references, modules }

/-- The document that a value is. The discriminator is looked at first. -/
def ofJson : Json → Except Fault Document
  | .obj members =>
    match (Json.Members.get? "type" members).bind Json.text? with
    | none => .error .discriminatorAbsent
    | some found =>
      if found = discriminator then (ofMembers members).mapError .mismatch
      else .error (.wrongDiscriminator found)
  | _ => .error .discriminatorAbsent

/-- The name that a value declares. -/
def declaredName? (j : Json) : Option String := (j.member? "name").bind Json.text?

/-- The document that a text is; `origin` names the text in errors. -/
def parse (text origin : String) : Except LinkError Document := do
  let j ← Json.parseFrom origin text
  (ofJson j).mapError fun fault => .schema (declaredName? j) fault.message

/-! ## Writing -/

/-- The value of a reference. -/
def referenceToJson (r : Reference) : Json :=
  Json.object (("name", .str r.name) :: Json.optionalMember "binary" (r.binary.map .str))

/-- The value of a document. -/
def toJson (d : Document) : Json :=
  Json.object <|
    [("type", .str discriminator), ("name", .str d.name), ("version", .str d.version),
      ("uid", .str d.uid), ("loomconfig", .str d.loomConfig), ("jit", .bool d.jit)] ++
    Json.optionalMember "debugbuild" (d.debugBuild.map .bool) ++
    Json.optionalMember "executable" (if d.executable then some (.bool true) else none) ++
    [("references", .arr (d.references.map referenceToJson)), ("modules", .arr d.modules)]

/-- The layout of documents. -/
def layout : Json.Layout := .indented 3

/-- The text of a value in canonical form. -/
def renderValue (j : Json) : String := j.canonicalize.pretty layout

/-- The text of a document in canonical form. -/
def render (d : Document) : String := renderValue d.toJson

/-- Is the build a debug build? Only a flag that says otherwise makes it another one. -/
def isDebugBuild (d : Document) : Bool := d.debugBuild != some false

/-- The mode that the document states for its bytecode. -/
def mode (d : Document) : BytecodeMode := .ofJitFlag d.jit

end Document

end AssemblyLinker
