import AssemblyLinker.FileSystem.Fault
import AssemblyLinker.FileSystem.Path
import AssemblyLinker.Text.Utf8

/-! # A file system

    Files and directories by location, the list of the names that lead to them from the
    root, and the working directory that relative paths start from.

    A path is followed part by part. Each part needs the location before it to be a
    directory; a name needs to be there and to have no more than 255 bytes. The first part
    that fails decides the fault. There are no links, and everything may be read and
    written.
-/

namespace AssemblyLinker

/-- The names that lead from the root to a file or directory. -/
abbrev Location := List String

/-- What a location holds. -/
inductive FileNode where
  | directory
  | file (bytes : List UInt8)
  deriving DecidableEq, Repr

/-- Files and directories. Of two nodes with one location the first counts. -/
structure FileSystem where
  nodes : List (Location × FileNode) := []
  workingDirectory : Location := []
  deriving DecidableEq, Repr

namespace FileSystem

/-! ## Locations -/

/-- What a location holds; the root is always there. -/
def node? (fs : FileSystem) (location : Location) : Option FileNode :=
  if location = [] then some .directory else fs.nodes.lookup location

/-- The file system with another node at a location. -/
def setNode (fs : FileSystem) (location : Location) (node : FileNode) : FileSystem :=
  { fs with nodes := (location, node) :: fs.nodes.filter (·.1 ≠ location) }

/-- The file system without the node at a location. -/
def dropNode (fs : FileSystem) (location : Location) : FileSystem :=
  { fs with nodes := fs.nodes.filter (·.1 ≠ location) }

/-- The file system with directories at a location and on the way to it. -/
def makeDirectories (fs : FileSystem) (location : Location) : FileSystem :=
  (List.range (location.length + 1)).foldl
    (fun fs n => if (fs.node? (location.take n)).isSome then fs
      else fs.setNode (location.take n) .directory) fs

/-- The file system with a node at a location and directories on the way to it. -/
def install (fs : FileSystem) (location : Location) (node : FileNode) : FileSystem :=
  (fs.makeDirectories location.dropLast).setNode location node

/-- A file system with nothing but a working directory and the way to it. -/
def empty (workingDirectory : Location) : FileSystem :=
  makeDirectories { workingDirectory } workingDirectory

/-- The directory that a location is in; the root is in itself. -/
def up (location : Location) : Location := location.dropLast

/-- Where a path starts. -/
def start (fs : FileSystem) (path : List Char) : Location :=
  if Path.isAbsolute path then [] else fs.workingDirectory

/-- The location that a path spells, whether anything is there or not. -/
def spelled (fs : FileSystem) (path : String) : Location :=
  (Path.parts path.toList).foldl
    (fun location part =>
      if part = [] ∨ part = ['.'] then location
      else if part = ['.', '.'] then up location
      else location ++ [String.ofList part])
    (fs.start path.toList)

/-! ## Following paths -/

/-- Is a location a directory? -/
def isDirectory (fs : FileSystem) (location : Location) : Bool :=
  fs.node? location = some .directory

/-- The number of bytes that a name may have. -/
def maxNameSize : Nat := 255

/-- The number of bytes that a path may have. -/
def maxPathSize : Nat := 4095

/-- The location of a name in a directory, whether it is there or not. -/
def entry (directory : Location) (name : List Char) : Except FileFault Location :=
  if maxNameSize < Utf8.byteSize name then .error .nameTooLong
  else .ok (directory ++ [String.ofList name])

/-- Follows one part of a path. -/
def follow (fs : FileSystem) (location : Location) (part : List Char) :
    Except FileFault Location :=
  if ¬ fs.isDirectory location then .error .notDirectory
  else if part = [] ∨ part = ['.'] then .ok location
  else if part = ['.', '.'] then .ok (up location)
  else
    match entry location part with
    | .error fault => .error fault
    | .ok location => if (fs.node? location).isSome then .ok location else .error .notFound

/-- Follows the parts of a path one after the other. -/
def followAll (fs : FileSystem) : Location → List (List Char) → Except FileFault Location
  | location, [] => .ok location
  | location, part :: rest =>
    match fs.follow location part with
    | .error fault => .error fault
    | .ok location => followAll fs location rest

/-- The faults of a path that show before it is followed. -/
def checkPath (path : String) : Except FileFault Unit :=
  if path.toList.contains '\x00' then .error .nulInPath
  else if maxPathSize < path.utf8ByteSize then .error .nameTooLong
  else if path = "" then .error .notFound
  else .ok ()

/-- The location that a path leads to. -/
def resolve (fs : FileSystem) (path : String) : Except FileFault Location := do
  checkPath path
  fs.followAll (fs.start path.toList) (Path.parts path.toList)

/-- Does a path lead to something? -/
def isThere (fs : FileSystem) (path : String) : Bool :=
  match fs.resolve path with
  | .ok _ => true
  | .error _ => false

/-! ## Reading -/

/-- The bytes of a file. -/
def read (fs : FileSystem) (path : String) : Except FileFault (List UInt8) := do
  match fs.node? (← fs.resolve path) with
  | some (.file bytes) => return bytes
  | _ => throw .isDirectory

/-- The text of a file. -/
def readText (fs : FileSystem) (path : String) : Except FileFault String := do
  match Utf8.decode (← fs.read path) with
  | .ok s => return s
  | .error _ => throw .notText

/-! ## Changing files -/

/-- The last part of a path that is not empty, and the directory that it is looked up
    in. -/
structure Target where
  directory : Location
  /-- The last part; absent if there is none. -/
  name : Option (List Char)
  /-- Do slashes follow the last part? -/
  slashed : Bool
  deriving DecidableEq, Repr

/-- The last part of a path and its directory. -/
def target (fs : FileSystem) (path : String) : Except FileFault Target := do
  checkPath path
  let reversed := (Path.parts path.toList).reverse
  let slashed := reversed.head? = some []
  match reversed.dropWhile (· = []) with
  | [] => return ⟨fs.start path.toList, none, slashed⟩
  | name :: before =>
    let directory ← fs.followAll (fs.start path.toList) before.reverse
    if fs.isDirectory directory then return ⟨directory, some name, slashed⟩
    else throw .notDirectory

/-- Is a part a name, and not a way to say where one stands? -/
def isName (part : List Char) : Bool := part ≠ ['.'] && part ≠ ['.', '.']

/-- The location that a file is written to. -/
def fileLocation (fs : FileSystem) (path : String) : Except FileFault Location := do
  let t ← fs.target path
  match t.name with
  | none => throw .isDirectory
  | some name =>
    if ¬ isName name ∨ t.slashed then throw .isDirectory
    let location ← entry t.directory name
    if fs.isDirectory location then throw .isDirectory
    return location

/-- Creates a file or replaces its content. -/
def write (fs : FileSystem) (path : String) (bytes : List UInt8) :
    Except FileFault FileSystem :=
  (fs.fileLocation path).map fun location => fs.setNode location (.file bytes)

/-- The location of a file that is there. -/
def existingFile (fs : FileSystem) (path : String) : Except FileFault Location := do
  let t ← fs.target path
  match t.name with
  | none => throw .isDirectory
  | some name =>
    if ¬ isName name then throw .isDirectory
    let location ← entry t.directory name
    match fs.node? location with
    | none => throw .notFound
    | some .directory => throw .isDirectory
    | some (.file _) => if t.slashed then throw .notDirectory else return location

/-- Removes a file. -/
def remove (fs : FileSystem) (path : String) : Except FileFault FileSystem :=
  (fs.existingFile path).map fs.dropNode

/-- The location that a file can be moved to. -/
def renameLocation (fs : FileSystem) (t : Target) (name : List Char) :
    Except FileFault Location := do
  if t.slashed then throw .notDirectory
  let location ← entry t.directory name
  if fs.isDirectory location then throw .isDirectory
  return location

/-- Moves a file to another path, over a file that is there. -/
def rename (fs : FileSystem) (source destination : String) : Except FileFault FileSystem := do
  let s ← fs.target source
  let t ← fs.target destination
  match s.name, t.name with
  | some a, some b =>
    if ¬ isName a ∨ ¬ isName b then throw .busy
    let old ← fs.existingFile source
    let new ← fs.renameLocation t b
    match fs.node? old with
    | some node => return (fs.dropNode old).setNode new node
    | none => throw .notFound
  | _, _ => throw .busy

/-! ## Listing -/

/-- The path of a location from the working directory down; a directory ends in a slash.
    Absent for other locations. -/
def pathBelow? (fs : FileSystem) (location : Location) (node : FileNode) : Option String :=
  match fs.workingDirectory.isPrefixOf? location with
  | some (name :: rest) =>
    some ("/".intercalate (name :: rest) ++ (if node = .directory then "/" else ""))
  | _ => none

/-- The paths of everything below the working directory, in increasing order. -/
def list (fs : FileSystem) : List String :=
  (fs.nodes.filterMap fun (location, node) => fs.pathBelow? location node).mergeSort (· ≤ ·)

/-- The texts of all files that are texts. -/
def texts (fs : FileSystem) : List String :=
  fs.nodes.filterMap fun (_, node) =>
    match node with
    | .file bytes => (Utf8.decode bytes).toOption
    | .directory => none

end FileSystem

end AssemblyLinker
