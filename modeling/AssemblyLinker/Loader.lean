import AssemblyLinker.Document
import AssemblyLinker.Session
import AssemblyLinker.Text.Base64
import AssemblyLinker.Text.Blank

/-! # Loading and linking

    A load takes the text of an assembly and yields the handle of the linked assembly,
    with all that it refers to, directly and indirectly. The document is checked for its
    mode, and its uid is drawn where it has none. An assembly with its name and uid that
    is registered is the answer; else a new one is created and registered while it is
    being linked.

    Linking an executable first puts the payloads of its references into the bundle. Each
    reference is then resolved in order: by an assembly registered under its name, or by a
    load of the text that the bootstrap, the bundle or the search path has for it. At last
    all modules are declared and then all are defined. The bundle is cleared when an
    executable is done, linked or not, and an assembly that could not be linked leaves the
    registry.

    An assembly that is met again while it is still being linked is a circular reference.
    The loads of references nest; how deep they may is a limit of the linker, and a load
    that would go deeper stops without an answer.
-/

namespace AssemblyLinker

/-- What a series of loads has in common: the mode that is asked for, the file system, and
    the stream of uids. -/
structure Linker where
  mode : BytecodeMode := .native
  files : FileSystem := {}
  uids : UidStream := Uid.queued []
  /-- How deep the loads of references may nest. -/
  maxDepth : Nat := 4000

/-- Why a load ends without an assembly. -/
inductive Stop where
  | failed (e : LinkError)
  /-- The loads of references nest too deep. -/
  | tooDeep
  deriving DecidableEq, Repr

/-- The result of a part of a load. -/
abbrev Outcome (α : Type) := Except Stop α

/-- A part of a load: what it yields, and the session after it. -/
abbrev Action (α : Type) := Session → Outcome α × Session

namespace Action

/-- Yields a value and changes nothing. -/
def pure {α : Type} (a : α) : Action α := fun s => (.ok a, s)

/-- Fails and changes nothing. -/
def fail {α : Type} (e : LinkError) : Action α := fun s => (.error (.failed e), s)

/-- Records an event. -/
def record (e : Event) : Action Unit := fun s => (.ok (), s.record e)

/-- One part after the other; the second is left out if the first one stops. -/
def andThen {α β : Type} (first : Action α) (second : α → Action β) : Action β := fun s =>
  match first s with
  | (.ok a, s) => second a s
  | (.error stop, s) => (.error stop, s)

/-- The part for each item in order, up to the first that stops. -/
def forEach {α : Type} (act : α → Action Unit) : List α → Action Unit
  | [] => pure ()
  | a :: rest => (act a).andThen fun () => forEach act rest

/-- A step of a session that may fail, as a part of a load. -/
def ofStep (step : Session → Except LinkError Unit × Session) : Action Unit := fun s =>
  ((step s).1.mapError .failed, (step s).2)

end Action

/-! ## Payloads of executables -/

/-- The text of a payload. Blanks around it and NUL characters at the end of the text do
    not count. -/
def decodePayload (encoded : String) : Except String String :=
  match Base64.decode (Utf8.encode (Text.trim encoded)) with
  | .error fault => .error fault.message
  | .ok bytes =>
    match Utf8.decode bytes with
    | .error fault => .error fault.message
    | .ok text => .ok (Text.trimEnd '\x00' text)

/-- The payload of a reference of an executable. -/
def payload (executable : String) (r : Reference) : Except LinkError String :=
  match r.binary with
  | none => .error (.missingBinary executable r.name)
  | some encoded => (decodePayload encoded).mapError (.invalidBinary r.name)

/-- Puts the payload of a reference into the bundle. -/
def harvestReference (executable : String) (r : Reference) : Action Unit :=
  match payload executable r with
  | .ok text => .record (.payloadBundled r.name text)
  | .error e => .fail e

/-- Puts the payloads of an executable into the bundle; a library has none. -/
def harvest (doc : Document) : Action Unit :=
  if doc.executable then .forEach (harvestReference doc.name) doc.references else .pure ()

namespace Linker

/-! ## Texts and uids -/

/-- The text of a reference and where it comes from: the bootstrap, then the bundle, then
    the search path. -/
def locateText (L : Linker) (ctx : LoadContext) (assembly name : String) :
    Except LinkError (TextSource × String) :=
  match ctx.bootstrapDocument? name with
  | some text => .ok (.bootstrap, text)
  | none =>
    match ctx.bundled? name with
    | some text => .ok (.bundle, text)
    | none =>
      match ctx.findLibrary L.files name with
      | .ok (some (path, text)) => .ok (.library path, text)
      | .ok none => .error (.unresolvedReference assembly name)
      | .error e => .error e

/-- The uid of a document, or the next one of the stream. -/
def uidOf (L : Linker) (doc : Document) : Action String := fun s =>
  if doc.uid = "" then (.ok (L.uids s.uidsDrawn), s.record .uidDrawn) else (.ok doc.uid, s)

/-! ## References -/

/-- A load of a text that is named by its origin. -/
abbrev Load := (text origin : String) → Action Handle

/-- Links the assembly of a handle to the assembly that a reference stands for. -/
def resolveReference (L : Linker) (load : Load) (assembly : String) (h : Handle)
    (name : String) : Action Unit := fun s =>
  match s.registry.findByName? name with
  | some d =>
    if s.isLinking d then Action.fail (.circularReference assembly name) s
    else Action.record (.dependencyAdded h d) s
  | none =>
    match L.locateText s.context assembly name with
    | .error e => Action.fail e s
    | .ok (source, text) =>
      ((Action.record (.textLocated h name source text)).andThen fun () =>
        (load text name).andThen fun d => .record (.dependencyAdded h d)) s

/-- Adds a reference to the assembly of a handle and resolves it. -/
def linkReference (L : Linker) (load : Load) (assembly : String) (h : Handle)
    (r : Reference) : Action Unit :=
  (Action.record (.referenceAdded h r.name)).andThen fun () =>
    L.resolveReference load assembly h r.name

/-! ## Assemblies -/

/-- Declares all modules of a document, then defines all. -/
def buildModules (h : Handle) (modules : List Json) : Action Unit :=
  (Action.forEach (fun j => .ofStep (·.declare h j)) modules).andThen fun () =>
    .forEach (fun j => .ofStep (·.define h j)) modules

/-- Links the assembly of a handle as its document says. -/
def link (L : Linker) (load : Load) (doc : Document) (h : Handle) : Action Unit :=
  (harvest doc).andThen fun () =>
    (Action.forEach (L.linkReference load doc.name h) doc.references).andThen fun () =>
      buildModules h doc.modules

/-- The assembly of a document before it is linked. -/
def newAssembly (doc : Document) (uid : String) : Assembly :=
  { name := doc.name, uid, version := doc.version, loomConfig := doc.loomConfig,
    debugBuild := doc.isDebugBuild, mode := doc.mode, executable := doc.executable,
    state := .linking }

/-- What is left to do when linking is over: the bundle of an executable is cleared, and
    the assembly is linked, or leaves the registry. -/
def finish (doc : Document) (h : Handle) : Outcome Unit × Session → Outcome Handle × Session
  | (result, s) =>
    let s := if doc.executable then s.record .bundleCleared else s
    match result with
    | .ok () => (.ok h, s.record (.completed h))
    | .error stop => (.error stop, s.record (.abandoned h))

/-- Creates, registers and links the assembly of a document. -/
def create (L : Linker) (load : Load) (doc : Document) (uid : String) : Action Handle :=
  fun s =>
    let h := s.store.length
    finish doc h (L.link load doc h (s.record (.created (newAssembly doc uid))))

/-- The assembly registered under the name and uid of a document, or a new one. -/
def acceptAs (L : Linker) (load : Load) (doc : Document) (uid : String) : Action Handle :=
  fun s =>
    match s.registry.find? doc.name uid with
    | some h =>
      if s.isLinking h then Action.fail (.circularReference doc.name doc.name) s
      else Action.pure h s
    | none =>
      if (s.registry.findByName? doc.name).any s.isLinking then
        Action.fail (.circularReference doc.name doc.name) s
      else L.create load doc uid s

/-- The assembly of a document. -/
def accept (L : Linker) (load : Load) (doc : Document) : Action Handle :=
  if doc.mode ≠ L.mode then .fail (.bytecodeMode doc.name doc.mode L.mode)
  else (L.uidOf doc).andThen (L.acceptAs load doc)

/-! ## Loads -/

/-- The load of a text in which loads nest at most as deep as given. -/
def loadWithin (L : Linker) : Nat → Load
  | 0, _, _ => fun s => (.error .tooDeep, s)
  | depth + 1, text, origin =>
    match Document.parse text origin with
    | .ok doc => L.accept (L.loadWithin depth) doc
    | .error e => .fail e

/-- The origin of a text that is given without one. -/
def inputOrigin : String := "<entrée>"

/-- Loads a text and all that it refers to. -/
def load (L : Linker) (text : String) (origin : String := inputOrigin) : Action Handle :=
  L.loadWithin L.maxDepth text origin

end Linker

end AssemblyLinker
