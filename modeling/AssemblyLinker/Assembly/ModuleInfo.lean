import AssemblyLinker.Assembly.TypeInfo

/-! # Modules of an assembly

    A module is an ordered collection of types. A type is found by its full name; of
    several types with one full name the first one counts.
-/

namespace AssemblyLinker

/-- Changes the first element of a list that satisfies `p`; absent if there is none. -/
def modifyFirst? {α : Type} (p : α → Bool) (f : α → α) : List α → Option (List α)
  | [] => none
  | a :: rest => if p a then some (f a :: rest) else (modifyFirst? p f rest).map (a :: ·)

/-- A module of an assembly. -/
structure ModuleInfo where
  name : String
  version : String
  types : List TypeInfo := []
  deriving DecidableEq, Repr

namespace ModuleInfo

/-- A module with one more type. -/
def addType (m : ModuleInfo) (t : TypeInfo) : ModuleInfo := { m with types := m.types ++ [t] }

/-- The type with a full name. -/
def findType? (m : ModuleInfo) (fullName : String) : Option TypeInfo :=
  m.types.find? (·.isNamed fullName)

/-- Gives the type with a full name its body; absent if there is no such type. -/
def defineType? (m : ModuleInfo) (fullName : String) (body : TypeBody) : Option ModuleInfo :=
  (modifyFirst? (·.isNamed fullName) (·.define body) m.types).map fun types =>
    { m with types }

end ModuleInfo

end AssemblyLinker
