import AssemblyLinker.Assembly.ModuleInfo
import AssemblyLinker.BytecodeMode

/-! # Assemblies

    An assembly is a named unit of compiled bytecode: metadata, the names of the
    assemblies that it refers to, the assemblies that these names were linked to, and its
    modules. Assemblies are shared, so a link is a handle; `Store` says what it stands
    for.
-/

namespace AssemblyLinker

/-- Stands for an assembly: the number of assemblies created before it. -/
abbrev Handle := Nat

/-- How far the linking of an assembly has come. -/
inductive LinkState where
  /-- Registered, its references and modules are being resolved. -/
  | linking
  | linked
  deriving DecidableEq, Repr

/-- Where a type is found: the names of an assembly and of a module of it. -/
structure TypeLocation where
  assembly : String
  moduleName : String
  deriving DecidableEq, Repr

/-- A named unit of compiled bytecode. -/
structure Assembly where
  name : String
  uid : String
  version : String := ""
  loomConfig : String := ""
  debugBuild : Bool := true
  mode : BytecodeMode := .native
  executable : Bool := false
  /-- The names referred to, in order, duplicates included. -/
  references : List String := []
  /-- The assemblies that the references were linked to. -/
  dependencies : List Handle := []
  modules : List ModuleInfo := []
  state : LinkState := .linked
  deriving DecidableEq, Repr

namespace Assembly

/-- The module with a name; of several the first. -/
def findModule? (a : Assembly) (name : String) : Option ModuleInfo :=
  a.modules.find? (·.name = name)

/-- An assembly with one more reference. -/
def addReference (a : Assembly) (name : String) : Assembly :=
  { a with references := a.references ++ [name] }

/-- An assembly with one more dependency. -/
def addDependency (a : Assembly) (h : Handle) : Assembly :=
  { a with dependencies := a.dependencies ++ [h] }

/-- An assembly with one more module. -/
def addModule (a : Assembly) (m : ModuleInfo) : Assembly :=
  { a with modules := a.modules ++ [m] }

/-- The number of types of all modules, declared or defined. -/
def typeCount (a : Assembly) : Nat := (a.modules.flatMap (·.types)).length

/-- Finds a type in the modules of the assembly itself. -/
def locateLocalType? (a : Assembly) (fullName : String) : Option TypeLocation :=
  (a.modules.find? fun m => (m.findType? fullName).isSome).map fun m => ⟨a.name, m.name⟩

end Assembly

end AssemblyLinker
