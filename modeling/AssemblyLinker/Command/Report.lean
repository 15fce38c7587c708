import AssemblyLinker.Command.Arguments
import AssemblyLinker.Json.Printer

/-! # Running the program

    The program reports an exit code and what it writes to its two outputs. Results go to
    the standard output; what has been done, and errors with all that caused them, go to
    the error output. Arguments that do not fit have a code of their own.
-/

namespace AssemblyLinker

/-- What a run of the program leaves behind, files apart. -/
structure Report where
  code : Nat
  stdout : String := ""
  stderr : String := ""
  deriving DecidableEq, Repr

/-! ## Texts -/

/-- A line on what has been done, its tag bold and green. -/
def statusLine (tag text : String) : String :=
  "\x1b[1m\x1b[32m" ++ tag ++ "\x1b[39m\x1b[0m " ++ text ++ "\n"

/-- The line on an error. -/
def errorLine (e : CommandError) : String := "❌ " ++ e.message ++ "\n"

namespace Summary

/-- The value of a summary, its members in the order of the fields. -/
def toJson (s : Summary) : Json :=
  .obj [("name", .str s.name), ("uid", .str s.uid), ("version", .str s.version),
    ("mode", .str s.mode.word), ("executable", .bool s.executable),
    ("references", .arr (s.references.map .str)), ("modules", .num (.whole s.modules)),
    ("types", .num (.whole s.types)), ("loaded", .arr (s.loaded.map .str))]

/-- The line on a load. -/
def status (s : Summary) : String :=
  let kind := if s.executable then "exécutable" else "bibliothèque"
  statusLine "lié" s!"{s.name} {s.version} ({kind}, bytecode {s.mode.label})"

/-- The summary as a text of four lines. -/
def text (s : Summary) : String :=
  let references := if s.references.isEmpty then "-" else ", ".intercalate s.references
  let loaded := ", ".intercalate s.loaded
  s!"  uid        : {s.uid}\n" ++ s!"  références : {references}\n" ++
    s!"  modules    : {s.modules} ({s.types} types)\n" ++ s!"  chargées   : {loaded}\n"

end Summary

/-- The name and version of the program. -/
def versionText : String := "loom-link 0.1.0\n"

/-- A short reminder of the subcommands. -/
def usageText : String :=
  "Usage: loom-link [OPTIONS] <COMMAND>\n\nCommands: load, canon, bundle, uid, help\n"

/-! ## Runs -/

/-- The report on an error of a command. -/
def Report.ofError (e : CommandError) : Report := { code := 1, stderr := errorLine e }

/-- Runs a subcommand. -/
def Command.run (setting : Setting) : Command → Report × FileSystem
  | .load input json options =>
    match loadFile setting options input with
    | .error e => (.ofError e, setting.files)
    | .ok loaded =>
      let s := loaded.summary
      let report : Report :=
        if json then { code := 0, stdout := s.toJson.pretty (.indented 2) ++ "\n" }
        else { code := 0, stdout := s.text, stderr := s.status }
      (report, setting.files)
  | .canon input output options =>
    match canonicalizeFile setting options input output with
    | (.error e, files) => (.ofError e, files)
    | (.ok text, files) =>
      ({ code := 0, stdout := if output.isNone then text ++ "\n" else "" }, files)
  | .bundle root output options =>
    let path := output.getD (defaultExecutablePath root)
    match bundleFile setting options root path with
    | (.error e, files) => (.ofError e, files)
    | (.ok (), files) => ({ code := 0, stderr := statusLine "écrit" path }, files)
  | .uid => ({ code := 0, stdout := setting.uids 0 ++ "\n" }, setting.files)

/-- The exit code for arguments that do not fit. -/
def refusedCode : Nat := 2

/-- Runs the program on its arguments. -/
def runProgram (setting : Setting) (arguments : List String) : Report × FileSystem :=
  match Arguments.parse arguments with
  | .run command => command.run setting
  | .help => ({ code := 0, stdout := usageText }, setting.files)
  | .version => ({ code := 0, stdout := versionText }, setting.files)
  | .refused => ({ code := refusedCode, stderr := usageText }, setting.files)

end AssemblyLinker
