import AssemblyLinker.Document
import AssemblyLinker.LoadContext
import AssemblyLinker.Text.Base64

/-! # Making executables

    An executable is a root document with the texts of all libraries that it needs,
    directly and indirectly, as payloads of its references. The libraries are visited
    breadth first, each name once; the text of a name is what the bootstrap has for it, or
    its first library file. The references of the root come first in the result, in their
    order, then the other libraries in the order in which they were visited.
-/

namespace AssemblyLinker.Executable

/-- A library that is needed, and who needs it. -/
structure Need where
  owner : String
  name : String
  deriving DecidableEq, Repr

/-- The state of the walk: the needs that are still to be looked at, and the texts found so
    far, by name. -/
structure Walk where
  queue : List Need
  payloads : List (String × String) := []
  deriving DecidableEq, Repr

/-- The needs of a document. -/
def needsOf (owner : String) (doc : Document) : List Need :=
  doc.references.map fun r => ⟨owner, r.name⟩

/-- The text of a library. -/
def provide (files : FileSystem) (ctx : LoadContext) (need : Need) :
    Except LinkError String :=
  match ctx.bootstrapDocument? need.name with
  | some text => .ok text
  | none =>
    match ctx.findLibrary files need.name with
    | .ok (some (_, text)) => .ok text
    | .ok none => .error (.unresolvedReference need.owner need.name)
    | .error e => .error e

/-- The document of the text of a library, in the mode of the root. -/
def readLibrary (jit : Bool) (name text : String) : Except LinkError Document :=
  match Document.parse text name with
  | .error e => .error e
  | .ok library =>
    if library.jit = jit then .ok library
    else .error (.bytecodeMode library.name library.mode (.ofJitFlag jit))

/-- Looks at the first need of a walk. -/
def visit (files : FileSystem) (ctx : LoadContext) (jit : Bool) (need : Need) (w : Walk) :
    Except LinkError Walk :=
  if (w.payloads.lookup need.name).isSome then .ok w
  else
    match provide files ctx need with
    | .error e => .error e
    | .ok text =>
      match readLibrary jit need.name text with
      | .error e => .error e
      | .ok library =>
        .ok { queue := w.queue ++ needsOf need.name library,
              payloads := w.payloads ++ [(need.name, text)] }

/-- Looks at needs, at most as many as given, until there are none. -/
def walk (files : FileSystem) (ctx : LoadContext) (jit : Bool) :
    Nat → Walk → Except LinkError (List (String × String))
  | 0, w => .ok w.payloads
  | steps + 1, w =>
    match w.queue with
    | [] => .ok w.payloads
    | need :: rest =>
      match visit files ctx jit need { w with queue := rest } with
      | .error e => .error e
      | .ok w => walk files ctx jit steps w

/-- The names that the document of a text refers to. -/
def referencedNames (text : String) : List String :=
  match Document.parse text "" with
  | .ok doc => doc.references.map (·.name)
  | .error _ => []

/-- All names that a walk may come upon: those that the root refers to, and those that any
    text at hand refers to. -/
def candidates (files : FileSystem) (ctx : LoadContext) (root : Document) : List String :=
  root.references.map (·.name) ++
    ((ctx.bootstrap.getD []).map (·.2) ++ files.texts).flatMap referencedNames

/-- More needs than a walk can come upon: each candidate is visited once at most, and each
    visit adds no more needs than there are candidates. -/
def stepBound (files : FileSystem) (ctx : LoadContext) (root : Document) : Nat :=
  let n := (candidates files ctx root).length
  (n + 1) * (n + 1)

/-- The texts of all libraries that a root needs, in the order of the visits. -/
def closure (files : FileSystem) (ctx : LoadContext) (root : Document) :
    Except LinkError (List (String × String)) :=
  walk files ctx root.jit (stepBound files ctx root) { queue := needsOf root.name root }

/-- The payload of a text. -/
def encodePayload (text : String) : String :=
  String.ofList (Base64.encode (Utf8.encode text))

/-- The root with the payloads of all libraries. -/
def embed (root : Document) (payloads : List (String × String)) : Document :=
  let direct := root.references.map fun r =>
    { r with binary := (payloads.lookup r.name).map encodePayload }
  let indirect := (payloads.filter fun (name, _) => ¬ root.references.any (·.name = name)).map
    fun (name, text) => { name, binary := some (encodePayload text) : Reference }
  { root with executable := true, references := direct ++ indirect }

/-- The origin of the text of a root. -/
def rootOrigin : String := "<racine>"

/-- The text of the executable of the text of a root. -/
def link (files : FileSystem) (ctx : LoadContext) (text : String) : Except LinkError String := do
  let root ← Document.parse text rootOrigin
  let payloads ← closure files ctx root
  return (embed root payloads).render

end AssemblyLinker.Executable
