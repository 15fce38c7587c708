/-! # Types of a module

    A type is declared first: its name can be resolved, its body is absent. It is defined
    when its body is built. A linker declares all types of an assembly before it defines
    any, so that types may refer to each other in every order.

    The full name of a type is its package and its name joined by a dot. Two types with
    one full name count as the same, however the name is split.
-/

namespace AssemblyLinker

/-- A field of a type. -/
structure FieldInfo where
  name : String
  /-- The full name of the type of the field. -/
  typeName : String
  deriving DecidableEq, Repr

/-- The body of a defined type. -/
structure TypeBody where
  base : Option String := none
  interfaces : List String := []
  fields : List FieldInfo := []
  /-- Bytecode, carried along as it is. -/
  bytecode : Option String := none
  deriving DecidableEq, Repr

/-- A type of a module. -/
structure TypeInfo where
  package : String
  name : String
  /-- The body, absent as long as the type is only declared. -/
  body : Option TypeBody := none
  deriving DecidableEq, Repr

/-- The full name of a type of a package; the package may be empty. -/
def fullTypeName (package name : String) : String :=
  if package = "" then name else package ++ "." ++ name

namespace TypeInfo

/-- A declared type. -/
def declared (package name : String) : TypeInfo := { package, name }

/-- The full name of a type. -/
def fullName (t : TypeInfo) : String := fullTypeName t.package t.name

/-- Is a text the full name of a type? The text is taken apart, no name is built. -/
def isNamed (t : TypeInfo) (query : String) : Bool :=
  if t.package = "" then t.name = query
  else
    match t.package.toList.isPrefixOf? query.toList with
    | some ('.' :: rest) => rest = t.name.toList
    | _ => false

/-- Does a type have its body? -/
def isDefined (t : TypeInfo) : Bool := t.body.isSome

/-- The type with a body. -/
def define (t : TypeInfo) (body : TypeBody) : TypeInfo := { t with body := some body }

end TypeInfo

end AssemblyLinker
