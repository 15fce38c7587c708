import AssemblyLinker.BytecodeMode
import AssemblyLinker.FileSystem.Fault

/-! # Errors of linking

    Every error ends the operation that it occurs in. An error knows its category, the
    name that it is about, and its own wording; what caused it below may follow.
-/

namespace AssemblyLinker

/-- The category of an error. -/
inductive ErrorKind where
  | parse
  | schema
  | bytecodeMode
  | unresolvedReference
  | circularReference
  | missingBinary
  | invalidBinary
  | module
  | io
  | write
  deriving DecidableEq, Repr

/-- An error of loading, linking or writing assemblies. -/
inductive LinkError where
  /-- A text that is no JSON value; `origin` names the text. -/
  | parse (origin : String) (line column : Nat) (message : String)
  /-- A value that is no assembly document; `name` is the name that it declares. -/
  | schema (name : Option String) (message : String)
  /-- Bytecode for another execution strategy than the expected one. -/
  | bytecodeMode (name : String) (found expected : BytecodeMode)
  /-- A reference that nothing provides. -/
  | unresolvedReference (assembly reference : String)
  /-- A reference to an assembly that is still being linked. -/
  | circularReference (assembly reference : String)
  /-- A reference of an executable without a payload. -/
  | missingBinary (assembly reference : String)
  /-- A payload that cannot be read. -/
  | invalidBinary (reference message : String)
  /-- A module that cannot be declared or defined. -/
  | module (assembly name message : String)
  /-- A library file that cannot be read. -/
  | io (path : String) (cause : FileFault)
  /-- A destination that cannot be written. -/
  | write (destination : String) (cause : FileFault)
  deriving DecidableEq, Repr

namespace LinkError

/-- The category of an error. -/
def kind : LinkError → ErrorKind
  | .parse .. => .parse
  | .schema .. => .schema
  | .bytecodeMode .. => .bytecodeMode
  | .unresolvedReference .. => .unresolvedReference
  | .circularReference .. => .circularReference
  | .missingBinary .. => .missingBinary
  | .invalidBinary .. => .invalidBinary
  | .module .. => .module
  | .io .. => .io
  | .write .. => .write

/-- The name that an error is about: an assembly, a reference, a path or a destination. -/
def name? : LinkError → Option String
  | .parse origin .. => some origin
  | .schema name _ => name
  | .bytecodeMode name .. => some name
  | .unresolvedReference _ reference => some reference
  | .circularReference _ reference => some reference
  | .missingBinary _ reference => some reference
  | .invalidBinary reference _ => some reference
  | .module assembly .. => some assembly
  | .io path _ => some path
  | .write destination _ => some destination

/-- The wording of an error, without its cause. -/
def message : LinkError → String
  | .parse origin line column message =>
    s!"document d'assembly malformé ({origin}), ligne {line} colonne {column} : {message}"
  | .schema name message =>
    let name := name.getD "<sans nom>"
    s!"assembly {name} : {message}"
  | .bytecodeMode name found expected =>
    s!"l'assembly {name}.loom contient du bytecode {found.label}, bytecode {expected.label} requis"
  | .unresolvedReference assembly reference =>
    s!"impossible de charger l'assembly '{reference}' (référencée par '{assembly}') comme " ++
      "bibliothèque ou exécutable"
  | .circularReference assembly reference =>
    s!"référence circulaire : '{assembly}' référence '{reference}' dont le lien est encore en cours"
  | .missingBinary assembly reference =>
    s!"assembly liée '{reference}' de l'exécutable '{assembly}' : section binary manquante"
  | .invalidBinary reference message =>
    s!"assembly liée '{reference}' : charge binary invalide : {message}"
  | .module assembly name message => s!"assembly {assembly}, module {name} : {message}"
  | .io path _ => s!"lecture de {path} impossible"
  | .write destination _ => s!"écriture impossible vers {destination}"

/-- The fault of a file operation behind an error, if there is one. -/
def cause? : LinkError → Option FileFault
  | .io _ cause => some cause
  | .write _ cause => some cause
  | _ => none

end LinkError

end AssemblyLinker
