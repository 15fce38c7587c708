import AssemblyLinker.FileSystem.Basic

/-! # Replacing a file

    A file is replaced by writing a temporary file beside it and moving that to its path.
    A writer that fails leaves no temporary file. Where the move fails, the temporary file
    stays.
-/

namespace AssemblyLinker

/-- Why a file could not be replaced; `ε` is the error of the writer. -/
inductive ReplaceFault (ε : Type) where
  /-- A path that leads to nothing with a directory of its own. -/
  | noParent
  | writing (e : ε)
  | moving (fault : FileFault)
  deriving DecidableEq, Repr

namespace FileSystem

/-- The path of the `i`-th temporary file for a name in a directory. -/
def temporaryPath (dir name : String) (i : Nat) : String :=
  Path.join dir (name ++ ".tmp" ++ toString i)

/-- The first temporary path that leads to nothing. One of the first is free, since the
    file system has a node for each that is not. -/
def freeTemporaryPath (fs : FileSystem) (dir name : String) : String :=
  let bound := fs.nodes.length + 1
  let free := (List.range bound).find? fun i => ¬ fs.isThere (temporaryPath dir name i)
  temporaryPath dir name (free.getD bound)

/-- Removes a file if it can be removed. -/
def removeIfPossible (fs : FileSystem) (path : String) : FileSystem :=
  match fs.remove path with
  | .ok fs => fs
  | .error _ => fs

/-- The directory of a path, for a temporary file beside it. -/
def directoryOf? (path : String) : Option String :=
  (Path.parent? path.toList).map fun dir => if dir = [] then "." else String.ofList dir

/-- Moves a temporary file to a path. What is there is removed first. -/
def moveOver (fs : FileSystem) (temporary path : String) :
    Except FileFault Unit × FileSystem :=
  let cleared := if fs.isThere path then fs.removeIfPossible path else fs
  match cleared.rename temporary path with
  | .ok fs => (.ok (), fs)
  | .error fault => (.error fault, cleared)

/-- Replaces the file of a path by what a writer puts into a temporary file. Yields the
    file system as it is afterwards, also where that fails. -/
def replace {ε : Type} (fs : FileSystem) (path : String)
    (write : FileSystem → String → Except ε FileSystem) :
    Except (ReplaceFault ε) Unit × FileSystem :=
  match directoryOf? path with
  | none => (.error .noParent, fs)
  | some dir =>
    let name := String.ofList ((Path.fileName? path.toList).getD [])
    let temporary := fs.freeTemporaryPath dir name
    match write fs temporary with
    | .error e => (.error (.writing e), fs.removeIfPossible temporary)
    | .ok written =>
      let (result, fs) := written.moveOver temporary path
      (result.mapError .moving, fs)

end FileSystem

end AssemblyLinker
