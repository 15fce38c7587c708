import AssemblyLinker.Assembly.Store
import AssemblyLinker.LoadContext
import AssemblyLinker.Text.Quoted

/-! # Descriptions for diagnostics

    One-line descriptions of an assembly and of a context. Texts are quoted; what is
    bundled is listed in order of the names.
-/

namespace AssemblyLinker

namespace Description

/-- A list of parts in brackets. -/
def bracketed (parts : List String) : String := "[" ++ ", ".intercalate parts ++ "]"

/-- Quoted texts in brackets. -/
def quotedList (texts : List String) : String := bracketed (texts.map Text.quoted)

/-- A record: its name and its fields. -/
def record (name : String) (fields : List (String × String)) (open? : Bool) : String :=
  let shown := fields.map fun (field, value) => field ++ ": " ++ value
  let shown := if open? then shown ++ [".."] else shown
  name ++ " \x7b " ++ ", ".intercalate shown ++ " \x7d"

/-- A bytecode mode. -/
def mode : BytecodeMode → String
  | .jit => "Jit"
  | .interpreted => "Interpreted"

/-- The state of an assembly. -/
def state : LinkState → String
  | .linking => "Linking"
  | .linked => "Linked"

end Description

/-- The description of an assembly; dependencies are shown by name, modules by number. -/
def Assembly.description (a : Assembly) (store : Store) : String :=
  Description.record "Assembly"
    [("name", Text.quoted a.name), ("uid", Text.quoted a.uid),
      ("version", Text.quoted a.version), ("debug_build", toString a.debugBuild),
      ("bytecode_mode", Description.mode a.mode), ("executable", toString a.executable),
      ("references", Description.quotedList a.references),
      ("dependencies", Description.quotedList (a.dependencies.map store.nameOf)),
      ("modules", toString a.modules.length), ("state", Description.state a.state)] true

/-- The description of a context. -/
def LoadContext.description (ctx : LoadContext) : String :=
  Description.record "LoadContext"
    [("search_path", Description.quotedList ctx.searchPath),
      ("bundled", Description.quotedList ((ctx.bundled.map (·.1)).mergeSort (· ≤ ·))),
      ("bootstrap", toString ctx.bootstrap.isSome)] false

end AssemblyLinker
