import AssemblyLinker.Assembly.ModuleDocument
import AssemblyLinker.Assembly.Store
import AssemblyLinker.LinkError

/-! # Declaring and defining modules

    A module enters an assembly in two passes. The first one declares it: the module is
    added with all of its types, none with a body. The second one defines it: each type
    gets its body, after every name in it has been found in the assembly, in its
    dependencies, or among the primitive types.

    Declaring changes nothing if it fails. Defining resolves all names first; it then
    gives the types their bodies one by one, up to the first type that was not declared.
-/

namespace AssemblyLinker

/-- The types that need no declaration. -/
def primitiveTypes : List String :=
  ["void", "bool", "int", "float", "number", "string", "object"]

/-- Why a module document is refused. -/
inductive ModuleFault where
  | mismatch (m : Json.Mismatch)
  | wrongDiscriminator (found : String)
  | declaredTwice
  | typeDeclaredTwice (fullName : String)
  | notDeclared
  | typeNotDeclared (fullName : String)
  | unknownType (typeName owner : String)
  deriving DecidableEq, Repr

/-- The wording of a fault. -/
def ModuleFault.message : ModuleFault → String
  | .mismatch m => m.message
  | .wrongDiscriminator found =>
    s!"discriminant type '{found}' au lieu de '{ModuleDocument.discriminator}'"
  | .declaredTwice => "module déclaré deux fois"
  | .typeDeclaredTwice fullName => s!"type '{fullName}' déclaré deux fois"
  | .notDeclared => "module non déclaré"
  | .typeNotDeclared fullName => s!"type '{fullName}' non déclaré"
  | .unknownType typeName owner => s!"type '{typeName}' introuvable (utilisé par '{owner}')"

namespace ModuleDocument

/-- A fault, and the name of the module that it is about. -/
structure Refusal where
  moduleName : String
  fault : ModuleFault
  deriving DecidableEq, Repr

/-- The error of a refusal for an assembly. -/
def Refusal.toError (r : Refusal) (assembly : String) : LinkError :=
  .module assembly r.moduleName r.fault.message

/-- The module document that a value is. -/
def read (j : Json) : Except Refusal ModuleDocument :=
  match ofJson j with
  | .error m =>
    .error ⟨((j.member? "name").bind Json.text?).getD "<sans nom>", .mismatch m⟩
  | .ok d =>
    if d.kind = discriminator then .ok d else .error ⟨d.name, .wrongDiscriminator d.kind⟩

/-! ## Declaring -/

/-- Adds the types of a document to a module, all of them new to the assembly and to the
    module. -/
def declareTypes (a : Assembly) :
    ModuleInfo → List TypeDocument → Except ModuleFault ModuleInfo
  | m, [] => .ok m
  | m, t :: rest =>
    if (a.locateLocalType? t.fullName).isSome ∨ (m.findType? t.fullName).isSome then
      .error (.typeDeclaredTwice t.fullName)
    else declareTypes a (m.addType (.declared t.package t.name)) rest

/-- Declares a module in an assembly. -/
def declare (j : Json) (a : Assembly) : Except Refusal Assembly := do
  let d ← read j
  if (a.findModule? d.name).isSome then throw ⟨d.name, .declaredTwice⟩
  let m ← (declareTypes a ⟨d.name, d.version, []⟩ d.types).mapError (⟨d.name, ·⟩)
  return a.addModule m

/-! ## Defining -/

/-- Does a name stand for a type that an assembly may refer to? -/
def resolves (store : Store) (a : Assembly) (typeName : String) : Bool :=
  primitiveTypes.contains typeName || (store.locateType? a typeName).isSome

/-- The first name of a list of types that does not resolve, with its owner. -/
def firstUnresolved? (store : Store) (a : Assembly) : List TypeDocument → Option ModuleFault
  | [] => none
  | t :: rest =>
    match t.typeNames.find? fun name => ¬ resolves store a name with
    | some name => some (.unknownType name t.fullName)
    | none => firstUnresolved? store a rest

/-- Gives the types of a module their bodies, up to the first type that is not declared. -/
def defineTypes : ModuleInfo → List TypeDocument → ModuleInfo × Except ModuleFault Unit
  | m, [] => (m, .ok ())
  | m, t :: rest =>
    match m.defineType? t.fullName t.body with
    | some m => defineTypes m rest
    | none => (m, .error (.typeNotDeclared t.fullName))

/-- Puts a module at the place of the first one with its name. -/
def replaceModule (a : Assembly) (m : ModuleInfo) : Assembly :=
  { a with modules := (modifyFirst? (·.name = m.name) (fun _ => m) a.modules).getD a.modules }

/-- Defines a module of an assembly. Yields the assembly as it is afterwards, also where
    defining fails. -/
def define (store : Store) (j : Json) (a : Assembly) : Assembly × Except Refusal Unit :=
  match read j with
  | .error r => (a, .error r)
  | .ok d =>
    match a.findModule? d.name with
    | none => (a, .error ⟨d.name, .notDeclared⟩)
    | some m =>
      match firstUnresolved? store a d.types with
      | some fault => (a, .error ⟨d.name, fault⟩)
      | none =>
        let (m, result) := defineTypes m d.types
        (replaceModule a m, result.mapError fun fault => ⟨d.name, fault⟩)

end ModuleDocument

end AssemblyLinker
