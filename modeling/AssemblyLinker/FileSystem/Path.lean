import AssemblyLinker.Text.Utf8

/-! # Paths

    A path is a text of parts joined by slashes. Empty parts and single dots mean
    nothing, except for a dot that begins a relative path; two dots stay as they are. The
    functions here look at the text alone, not at a file system.
-/

namespace AssemblyLinker.Path

/-- The parts between the slashes of a path, the empty ones included. -/
def parts (path : List Char) : List (List Char) :=
  match path with
  | [] => [[]]
  | '/' :: rest => [] :: parts rest
  | c :: rest =>
    match parts rest with
    | [] => [[c]]
    | part :: others => (c :: part) :: others

/-- Does a path begin at the root? -/
def isAbsolute (path : List Char) : Bool := path.head? = some '/'

/-- A path put behind a directory. An absolute path stands for itself. -/
def join (dir path : String) : String :=
  if isAbsolute path.toList then path
  else if dir = "" ∨ dir.toList.getLast? = some '/' then dir ++ path
  else dir ++ "/" ++ path

/-! ## The end of a path -/

/-- A reversed path without the slashes and dots behind its last part that means
    something. -/
def dropTrailing : List Char → List Char
  | '/' :: rest => dropTrailing rest
  | '.' :: '/' :: rest => dropTrailing rest
  | ['.'] => []
  | path => path

/-- A path that ends in its last part that means something. -/
def trimmed (path : List Char) : List Char := (dropTrailing path.reverse).reverse

/-- What follows the last slash. -/
def lastPart (path : List Char) : List Char := (path.reverse.takeWhile (· ≠ '/')).reverse

/-- What stands up to the last slash, with the slash. -/
def beforeLastPart (path : List Char) : List Char := (path.reverse.dropWhile (· ≠ '/')).reverse

/-- The name of the file that a path leads to, if its last part is a name. -/
def fileName? (path : List Char) : Option (List Char) :=
  let name := lastPart (trimmed path)
  if name = [] ∨ name = ['.', '.'] then none else some name

/-- The path of the directory of what a path leads to. -/
def parent? (path : List Char) : Option (List Char) :=
  match trimmed path with
  | [] => if path = [] ∨ isAbsolute path then none else some []
  | body =>
    match trimmed (beforeLastPart body) with
    | [] =>
      some (if isAbsolute path then ['/'] else if path.take 2 = ['.', '/'] then ['.'] else [])
    | dir => some dir

/-! ## Extensions -/

/-- A file name split at its last dot. A dot that begins the name does not count. -/
def splitExtension (name : List Char) : List Char × Option (List Char) :=
  let extension := (name.reverse.takeWhile (· ≠ '.')).reverse
  let stem := (name.reverse.dropWhile (· ≠ '.')).drop 1 |>.reverse
  if stem = [] then (name, none) else (stem, some extension)

/-- A reversed text without the characters that fit its last `count` bytes. -/
def dropBytes (count : Nat) : List Char → List Char
  | [] => []
  | c :: rest => if c.utf8Size ≤ count then dropBytes (count - c.utf8Size) rest else c :: rest

/-- A path with another extension on its last part. A path that leads to no file is left
    alone. -/
def setExtension (path extension : List Char) : List Char :=
  match fileName? path with
  | none => path
  | some name =>
    beforeLastPart (trimmed path) ++ (splitExtension name).1 ++ '.' :: extension

/-- A path without as many bytes at its end as its extension has. Blank parts behind the
    extension go first. -/
def withoutExtension (path : List Char) : List Char :=
  match (fileName? path).bind fun name => (splitExtension name).2 with
  | none => path
  | some extension =>
    (dropBytes (Utf8.byteSize extension) path.reverse).reverse

/-- A path with its extension replaced. -/
def withExtension (path extension : String) : String :=
  String.ofList (setExtension (withoutExtension path.toList) extension.toList)

end AssemblyLinker.Path
