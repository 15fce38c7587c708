import AssemblyLinker.Executable
import AssemblyLinker.FileSystem.Replace
import AssemblyLinker.Loader
import AssemblyLinker.Writer

/-! # Commands on files

    Loading a file, writing it in canonical form, and bundling it into an executable. A
    command is run in a setting: the file system, the search path of the environment, and
    the stream of uids. Only the commands that write change the file system.
-/

namespace AssemblyLinker

/-- What the commands that load assemblies have in common. -/
structure LinkOptions where
  /-- Directories of libraries, looked through before those of the environment. -/
  libraryPaths : List String := []
  useEnvironment : Bool := true
  /-- The file whose text is provided for the system assembly. -/
  system : Option String := none
  mode : BytecodeMode := .native
  deriving DecidableEq, Repr

/-- What a command is run in. -/
structure Setting where
  files : FileSystem := {}
  /-- The search path of the environment, if it has one. -/
  libraryPath : Option String := none
  uids : UidStream := Uid.queued []

/-- Why a command fails. -/
inductive CommandError where
  | opening (path : String) (fault : FileFault)
  | linking (path : String) (e : LinkError)
  /-- The references of the file nest deeper than the linker follows. -/
  | nestedTooDeep (path : String)
  | executableInput (path : String)
  | bundling (path : String) (e : LinkError)
  | noParent (path : String)
  | writing (e : LinkError)
  | creating (path : String) (fault : FileFault)
  | replacing (path : String) (fault : FileFault)
  deriving DecidableEq, Repr

namespace CommandError

/-- An error of linking with its cause. -/
def chain (e : LinkError) : List String := e.message :: (e.cause?.map (·.message)).toList

/-- The wording of an error and of what caused it, from the outside in. -/
def messages : CommandError → List String
  | .opening path fault => [s!"ouverture: {path}", fault.message]
  | .linking path e => s!"lien de {path}" :: chain e
  | .nestedTooDeep path => [s!"lien de {path}", "références imbriquées trop profondément"]
  | .executableInput path =>
    [s!"{path} est un exécutable ; réempaqueter depuis la racine avec `bundle`"]
  | .bundling path e => s!"empaquetage de {path}" :: chain e
  | .noParent path => [s!"chemin de sortie sans parent: {path}"]
  | .writing e => chain e
  | .creating path fault => [s!"création: {path}", fault.message]
  | .replacing path fault => [s!"écriture: {path}", fault.message]

/-- The wording of an error on one line. -/
def message (e : CommandError) : String := ": ".intercalate e.messages

/-- The error of linking behind an error, if there is one. -/
def linkError? : CommandError → Option LinkError
  | .linking _ e => some e
  | .bundling _ e => some e
  | .writing e => some e
  | _ => none

end CommandError

/-! ## Loading -/

/-- A loaded root, and the session with all that has been loaded. -/
structure Loaded where
  root : Assembly
  session : Session
  deriving DecidableEq, Repr

/-- What is told about a load. -/
structure Summary where
  name : String
  uid : String
  version : String
  mode : BytecodeMode
  executable : Bool
  references : List String
  modules : Nat
  types : Nat
  /-- The names of all registered assemblies, the root included. -/
  loaded : List String
  deriving DecidableEq, Repr

/-- The summary of a load. -/
def Loaded.summary (l : Loaded) : Summary :=
  { name := l.root.name, uid := l.root.uid, version := l.root.version, mode := l.root.mode,
    executable := l.root.executable, references := l.root.references,
    modules := l.root.modules.length, types := l.root.typeCount,
    loaded := l.session.registered.map (·.name) }

/-- The text of a file that a command needs. -/
def openText (files : FileSystem) (path : String) : Except CommandError String :=
  (files.readText path).mapError (.opening path)

/-- The directories of libraries, those of the options first. -/
def LinkOptions.searchPath (options : LinkOptions) (setting : Setting) : List String :=
  options.libraryPaths ++
    if options.useEnvironment then (LoadContext.ofEnvironment setting.libraryPath).searchPath
    else []

/-- The context that options ask for. -/
def LinkOptions.context (options : LinkOptions) (setting : Setting) :
    Except CommandError LoadContext := do
  let searchPath := options.searchPath setting
  match options.system with
  | none => return { searchPath }
  | some path =>
    let text ← openText setting.files path
    return { searchPath, bootstrap := some (Bootstrap.embeddedSystem text) }

/-- Loads a file. -/
def loadFile (setting : Setting) (options : LinkOptions) (path : String) :
    Except CommandError Loaded := do
  let text ← openText setting.files path
  let context ← options.context setting
  let linker : Linker := { mode := options.mode, files := setting.files, uids := setting.uids }
  match linker.load text path { context } with
  | (.ok h, session) =>
    match session.store.get? h with
    | some root => return { root, session }
    | none => throw (.nestedTooDeep path)
  | (.error (.failed e), _) => throw (.linking path e)
  | (.error .tooDeep, _) => throw (.nestedTooDeep path)

/-! ## Writing -/

/-- The error of a command whose output could not be replaced. -/
def replaceError (path : String) : ReplaceFault CommandError → CommandError
  | .noParent => .noParent path
  | .writing e => e
  | .moving fault => .replacing path fault

/-- Loads a file and yields its canonical text, which is written to the output if there is
    one. Executables are refused: what they carry would be lost. -/
def canonicalizeFile (setting : Setting) (options : LinkOptions) (input : String)
    (output : Option String) : Except CommandError String × FileSystem :=
  match loadFile setting options input with
  | .error e => (.error e, setting.files)
  | .ok loaded =>
    if loaded.root.executable then (.error (.executableInput input), setting.files)
    else
      let text := loaded.root.render options.mode
      match output with
      | none => (.ok text, setting.files)
      | some path =>
        let (result, files) := setting.files.replace path fun files temporary =>
          (writeToFile options.mode loaded.root files temporary).mapError .writing
        match result with
        | .ok () => (.ok text, files)
        | .error fault => (.error (replaceError path fault), files)

/-- The text of the executable of a root file. -/
def bundleText (setting : Setting) (options : LinkOptions) (root : String) :
    Except CommandError String := do
  let text ← openText setting.files root
  let context ← options.context setting
  (Executable.link setting.files context text).mapError (.bundling root)

/-- Bundles a root file into an executable. -/
def bundleFile (setting : Setting) (options : LinkOptions) (root output : String) :
    Except CommandError Unit × FileSystem :=
  match bundleText setting options root with
  | .error e => (.error e, setting.files)
  | .ok text =>
    let (result, files) := setting.files.replace output fun files temporary =>
      (files.write temporary (Utf8.encode text)).mapError (.creating temporary)
    (result.mapError (replaceError output), files)

/-- The ending of executables. -/
def executableExtension : String := "loom"

/-- Where the executable of a root file goes if nothing else is said. -/
def defaultExecutablePath (root : String) : String := Path.withExtension root executableExtension

end AssemblyLinker
