import AssemblyLinker.FileSystem.Basic
import AssemblyLinker.LinkError

/-! # The context of a load

    Where the texts of references come from: the bootstrap, which knows some assemblies by
    name, the bundle of the executable that is being loaded, and the library files in the
    directories of the search path, looked through in order.
-/

namespace AssemblyLinker

/-- The documents that are provided by name. -/
abbrev Bootstrap := List (String × String)

namespace Bootstrap

/-- The name of the assembly that may be embedded in a build. -/
def systemName : String := "System"

/-- The bootstrap that provides the system assembly alone. -/
def embeddedSystem (text : String) : Bootstrap := [(systemName, text)]

end Bootstrap

/-- The sources of texts of a loading session. -/
structure LoadContext where
  /-- The directories of libraries, in the order in which they are looked through. -/
  searchPath : List String := []
  /-- The payloads of an executable by name; each name occurs once. -/
  bundled : List (String × String) := []
  bootstrap : Option Bootstrap := none
  deriving DecidableEq, Repr

namespace LoadContext

/-- The ending of library files. -/
def libraryExtension : String := "loomlib"

/-- The directories of a search path written with colons between them; empty ones do not
    count. -/
def splitSearchPath (text : String) : List String :=
  (text.splitOn ":").filter (· ≠ "")

/-- The context with the search path that the environment states, if it states one. -/
def ofEnvironment (libraryPath? : Option String) : LoadContext :=
  { searchPath := (libraryPath?.map splitSearchPath).getD [] }

/-- The context with one more directory at the end of the search path. -/
def addLibraryPath (ctx : LoadContext) (dir : String) : LoadContext :=
  { ctx with searchPath := ctx.searchPath ++ [dir] }

/-! ## Bootstrap and bundle -/

/-- The document that the bootstrap provides for a name. -/
def bootstrapDocument? (ctx : LoadContext) (name : String) : Option String :=
  ctx.bootstrap.bind fun b => b.lookup name

/-- The payload bundled for a name. -/
def bundled? (ctx : LoadContext) (name : String) : Option String := ctx.bundled.lookup name

/-- The context with a payload; an older payload of that name gives way. -/
def bundle (ctx : LoadContext) (name text : String) : LoadContext :=
  { ctx with bundled := ctx.bundled.filter (·.1 ≠ name) ++ [(name, text)] }

/-- The context without payloads. -/
def clearBundle (ctx : LoadContext) : LoadContext := { ctx with bundled := [] }

/-! ## Library files -/

/-- The path of the library file of a name in a directory. -/
def libraryFile (dir name : String) : String :=
  Path.join dir (name ++ "." ++ libraryExtension)

/-- The first library file of a name in the given directories, and its text. A directory
    without such a file is passed over; any other fault ends the search. -/
def findLibraryIn (files : FileSystem) (name : String) :
    List String → Except LinkError (Option (String × String))
  | [] => .ok none
  | dir :: rest =>
    match files.readText (libraryFile dir name) with
    | .ok text => .ok (some (libraryFile dir name, text))
    | .error .notFound => findLibraryIn files name rest
    | .error fault => .error (.io (libraryFile dir name) fault)

theorem findLibraryIn_nil (files : FileSystem) (name : String) :
    findLibraryIn files name [] = .ok none := by
  rfl

theorem findLibraryIn_cons (files : FileSystem) (name dir : String) (rest : List String) :
    findLibraryIn files name (dir :: rest) =
      match files.readText (libraryFile dir name) with
      | .ok text => .ok (some (libraryFile dir name, text))
      | .error .notFound => findLibraryIn files name rest
      | .error fault => .error (.io (libraryFile dir name) fault) := by
  rfl

/-- The first library file of a name on the search path, and its text. -/
def findLibrary (ctx : LoadContext) (files : FileSystem) (name : String) :
    Except LinkError (Option (String × String)) :=
  findLibraryIn files name ctx.searchPath

end LoadContext

end AssemblyLinker
