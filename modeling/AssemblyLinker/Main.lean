import AssemblyLinker.Command.Report

/-! # The program

    Reads from the real file system what a command can come to look at, runs the command,
    and writes back what it has changed.
-/

namespace AssemblyLinker.Program

/-- The path of a location from the root. -/
def pathOf (location : Location) : String := "/" ++ "/".intercalate location

/-- What is at a path, if it is a directory or a file that can be read. -/
def probe (path : String) : IO (Option FileNode) := do
  try
    let bytes ← IO.FS.readBinFile path
    return some (.file bytes.toList)
  catch e =>
    match e with
    | .inappropriateType _ 21 _ => return some .directory
    | _ => return none

/-- Takes up what is at a path and on the way to it. -/
def capture (files : FileSystem) (path : String) : IO FileSystem := do
  let location := files.spelled path
  let mut files := files
  for n in List.range location.length do
    let part := location.take (n + 1)
    if (files.node? part).isNone then
      if let some node ← probe (pathOf part) then files := files.setNode part node
  return files

/-- Takes up an output path and the temporary files beside it. -/
def captureOutput (files : FileSystem) (path : String) : IO FileSystem := do
  let mut files ← capture files path
  match FileSystem.directoryOf? path with
  | none => return files
  | some dir =>
    let name := String.ofList ((Path.fileName? path.toList).getD [])
    files ← capture files dir
    let mut i := 0
    repeat
      let temporary := FileSystem.temporaryPath dir name i
      files ← capture files temporary
      if ¬ files.isThere temporary then break
      i := i + 1
    return files

/-- The texts that a text carries as payloads. -/
def payloadsOf (text : String) : List String :=
  match Document.parse text "" with
  | .ok doc =>
    doc.references.filterMap fun r => r.binary.bind fun encoded => (decodePayload encoded).toOption
  | .error _ => []

/-- Takes up all library files that a text can come to refer to. -/
partial def captureLibraries (searchPath : List String) (files : FileSystem)
    (seen pending : List String) : IO FileSystem := do
  match pending with
  | [] => return files
  | text :: pending =>
    let mut files := files
    let mut seen := seen
    let mut pending := payloadsOf text ++ pending
    for name in Executable.referencedNames text do
      if ¬ seen.contains name then
        seen := name :: seen
        for dir in searchPath do
          let path := LoadContext.libraryFile dir name
          files ← capture files path
          if let .ok found := files.readText path then pending := found :: pending
    captureLibraries searchPath files seen pending

/-- Takes up what the options and the input of a command can lead to. -/
def captureInput (files : FileSystem) (options : LinkOptions) (setting : Setting)
    (input : String) : IO FileSystem := do
  let mut files ← capture files input
  if let some path := options.system then files ← capture files path
  let texts := (input :: options.system.toList).filterMap fun path =>
    (files.readText path).toOption
  captureLibraries (options.searchPath setting) files [] texts

/-- Takes up what a command can come to look at. -/
def captureCommand (files : FileSystem) (setting : Setting) : Command → IO FileSystem
  | .load input _ options => captureInput files options setting input
  | .canon input output options => do
    let files ← captureInput files options setting input
    match output with
    | some path => captureOutput files path
    | none => return files
  | .bundle root output options => do
    let files ← captureInput files options setting root
    captureOutput files (output.getD (defaultExecutablePath root))
  | .uid => return files

/-- Writes back the files that differ from the ones at the start. -/
def writeBack (before after : FileSystem) : IO Unit := do
  for (location, node) in after.nodes do
    if before.node? location ≠ some node then
      if let .file bytes := node then
        IO.FS.writeBinFile (pathOf location) bytes.toByteArray
  for (location, _) in before.nodes do
    if (after.node? location).isNone then IO.FS.removeFile (pathOf location)

/-- A number made of random bytes. -/
def randomSeed : IO Nat := do
  let bytes ← IO.getRandomBytes 16
  return bytes.toList.foldl (fun n b => n * 256 + b.toNat) 0

/-- The file system with the working directory alone. -/
def workingFiles : IO FileSystem := do
  let path := (← IO.currentDir).toString
  return FileSystem.empty (({} : FileSystem).spelled path)

end AssemblyLinker.Program

open AssemblyLinker in
/-- Runs the program on its arguments. -/
def main (arguments : List String) : IO UInt32 := do
  let files ← Program.workingFiles
  let libraryPath ← IO.getEnv "LOOM_LIBRARY_PATH"
  let setting : Setting := { files, libraryPath, uids := Uid.seeded (← Program.randomSeed) }
  let files ← match Arguments.parse arguments with
    | .run command => Program.captureCommand files setting command
    | _ => pure files
  let (report, after) := runProgram { setting with files } arguments
  Program.writeBack files after
  IO.print report.stdout
  IO.eprint report.stderr
  return report.code.toUInt32
