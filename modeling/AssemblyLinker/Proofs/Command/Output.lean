import AssemblyLinker.Command.Basic
import AssemblyLinker.Proofs.Executable.Embedding
import AssemblyLinker.Proofs.FileSystem.Replacing

/-! # The output of a command

    Canonicalizing and bundling do the same once they have a text: they put it out by replacing
    the file of a path (`outputFile`).  Whether the output is all or nothing is then decided by
    the path alone:

    - a path that can be replaced gets the text (`outputFile_of_replaceable`);
    - a path that strands the temporary file is left as it is, and the temporary file stays
      beside it (`outputFile_of_strands`);
    - with any other path, or without a text, nothing changes (`outputFile_of_neither`).

    What was there before a command that fails is there afterwards in each case (`Keeps`).
-/

namespace AssemblyLinker

/-! ## What is promised -/

/-- A command that yields a text has put it out and changed nothing else, and a command that
    fails has changed nothing. -/
structure AllOrNothing (before : FileSystem) (path : String)
    (run : Except CommandError String × FileSystem) : Prop where
  all : ∀ text, run.1 = .ok text → before.Written run.2 path (Utf8.encode text)
  nothing : ∀ e, run.1 = .error e → run.2 = before

/-- Whatever was there before a command that fails is there afterwards. -/
def Keeps (before : FileSystem) (run : Except CommandError String × FileSystem) : Prop :=
  ∀ e, run.1 = .error e →
    ∀ i, (before.node? i).isSome = true → run.2.node? i = before.node? i

/-- The text that a command has put out, where the command itself says only that it is done. -/
def withText (produced : Except CommandError String) (run : Except CommandError Unit × FileSystem) :
    Except CommandError String × FileSystem :=
  (run.1.bind fun _ => produced, run.2)

/-! ## Putting a text out -/

/-- Replaces the file of a path by a text, once there is one. -/
def outputFile (files : FileSystem) (path : String) (fault : String → FileFault → CommandError)
    (produced : Except CommandError String) : Except CommandError String × FileSystem :=
  match produced with
  | .error e => (.error e, files)
  | .ok text =>
    let replaced := files.replace path (FileSystem.putting (Utf8.encode text) fault)
    ((replaced.1.mapError (replaceError path)).map fun _ => text, replaced.2)

/-- The writer of canonical texts puts their bytes into the temporary file. -/
theorem writeToFile_eq_putting (mode : BytecodeMode) (a : Assembly) (files : FileSystem)
    (temporary : String) :
    (writeToFile mode a files temporary).mapError CommandError.writing =
      FileSystem.putting (Utf8.encode (a.render mode))
        (fun path fault => .writing (.write path fault)) files temporary := by
  unfold writeToFile FileSystem.putting
  cases files.write temporary (Utf8.encode (a.render mode)) <;> rfl

theorem canonicalizeFile_eq_outputFile (setting : Setting) (options : LinkOptions)
    (input output : String) :
    canonicalizeFile setting options input (some output) =
      outputFile setting.files output (fun temporary fault => .writing (.write temporary fault))
        (canonicalizeFile setting options input none).1 := by
  unfold canonicalizeFile
  cases loadFile setting options input with
  | error e => rfl
  | ok loaded =>
    by_cases hexecutable : loaded.root.executable = true
    · simp [hexecutable, outputFile]
    · simp only [hexecutable, Bool.false_eq_true, if_false, outputFile, writeToFile_eq_putting]
      cases (setting.files.replace output _).1 <;> rfl

theorem bundleFile_of_text {setting : Setting} {options : LinkOptions} {input text : String}
    (h : bundleText setting options input = .ok text) (output : String) :
    let replaced := setting.files.replace output
      (FileSystem.putting (Utf8.encode text) CommandError.creating)
    bundleFile setting options input output =
      (replaced.1.mapError (replaceError output), replaced.2) := by
  have hputting : (fun files temporary =>
      (FileSystem.write files temporary (Utf8.encode text)).mapError (.creating temporary)) =
        FileSystem.putting (Utf8.encode text) CommandError.creating := rfl
  unfold bundleFile
  simp only [h, hputting]

theorem bundleFile_eq_outputFile (setting : Setting) (options : LinkOptions)
    (input output : String) :
    withText (bundleText setting options input) (bundleFile setting options input output) =
      outputFile setting.files output .creating (bundleText setting options input) := by
  cases h : bundleText setting options input with
  | error e =>
    unfold bundleFile
    rw [h]
    rfl
  | ok text =>
    rw [bundleFile_of_text h, withText, outputFile]
    cases (setting.files.replace output _).1 <;> rfl

section Outcome

variable {files : FileSystem} {path : String} (fault : String → FileFault → CommandError)
  {produced : Except CommandError String}

/-- A path that can be replaced: the command yields its text, and has put it out. -/
theorem outputFile_of_replaceable (hproduced : produced.isOk = true)
    (h : files.Replaceable path) :
    ∃ text after, outputFile files path fault produced = (.ok text, after) ∧
      files.Written after path (Utf8.encode text) := by
  cases produced with
  | error e => cases hproduced
  | ok text =>
    obtain ⟨after, hreplace, hwritten⟩ :=
      FileSystem.replace_of_replaceable (Utf8.encode text) fault h
    refine ⟨text, after, ?_, hwritten⟩
    rw [outputFile, hreplace]
    rfl

/-- A path that strands the temporary file: the command fails, and has left it. -/
theorem outputFile_of_strands (hproduced : produced.isOk = true) (h : files.Strands path) :
    ∃ text e location, files.node? location = none ∧ location ≠ [] ∧
      outputFile files path fault produced =
        (.error e, files.setNode location (.file (Utf8.encode text))) := by
  cases produced with
  | error e => cases hproduced
  | ok text =>
    obtain ⟨temporary, e, location, -, hreplace, hlocation, hnone⟩ :=
      FileSystem.replace_of_strands (Utf8.encode text) fault h
    refine ⟨text, replaceError path e, location, hnone,
      FileSystem.ne_nil_of_fileLocation hlocation, ?_⟩
    rw [outputFile, hreplace]
    rfl

/-- Any other path, or no text: the command fails, and has changed nothing. -/
theorem outputFile_of_neither (hreplaceable : ¬ (produced.isOk = true ∧ files.Replaceable path))
    (hstrands : ¬ (produced.isOk = true ∧ files.Strands path)) :
    ∃ e, outputFile files path fault produced = (.error e, files) := by
  cases produced with
  | error e => exact ⟨e, rfl⟩
  | ok text =>
    obtain ⟨e, hreplace⟩ := FileSystem.replace_of_neither (Utf8.encode text) fault
      (fun h => hreplaceable ⟨rfl, h⟩) (fun h => hstrands ⟨rfl, h⟩)
    refine ⟨replaceError path e, ?_⟩
    rw [outputFile, hreplace]
    rfl

theorem outputFile_allOrNothing_iff :
    AllOrNothing files path (outputFile files path fault produced) ↔
      ¬ (produced.isOk = true ∧ files.Strands path) := by
  constructor
  · rintro h ⟨hproduced, hstrands⟩
    obtain ⟨text, e, location, hnone, hne, houtput⟩ :=
      outputFile_of_strands fault hproduced hstrands
    rw [houtput] at h
    -- the temporary file is where nothing was
    have hsame := congrArg (·.node? location) (h.nothing e rfl)
    simp [FileSystem.node?_setNode hne, hnone] at hsame
  · intro hstrands
    by_cases hreplaceable : produced.isOk = true ∧ files.Replaceable path
    · obtain ⟨text, after, houtput, hwritten⟩ :=
        outputFile_of_replaceable fault hreplaceable.1 hreplaceable.2
      rw [houtput]
      refine ⟨fun _ htext => ?_, fun _ he => ?_⟩
      · cases htext
        exact hwritten
      · cases he
    · obtain ⟨e, houtput⟩ := outputFile_of_neither fault hreplaceable hstrands
      rw [houtput]
      refine ⟨fun _ htext => ?_, fun _ _ => rfl⟩
      cases htext

theorem outputFile_isOk_iff :
    (outputFile files path fault produced).1.isOk = true ↔
      produced.isOk = true ∧ files.Replaceable path := by
  by_cases hreplaceable : produced.isOk = true ∧ files.Replaceable path
  · obtain ⟨text, after, houtput, -⟩ :=
      outputFile_of_replaceable fault hreplaceable.1 hreplaceable.2
    rw [houtput]
    exact iff_of_true rfl hreplaceable
  · refine iff_of_false ?_ hreplaceable
    by_cases hstrands : produced.isOk = true ∧ files.Strands path
    · obtain ⟨_, _, _, -, -, houtput⟩ := outputFile_of_strands fault hstrands.1 hstrands.2
      rw [houtput]
      exact Bool.false_ne_true
    · obtain ⟨e, houtput⟩ := outputFile_of_neither fault hreplaceable hstrands
      rw [houtput]
      exact Bool.false_ne_true

theorem outputFile_keeps : Keeps files (outputFile files path fault produced) := by
  intro e he i hi
  by_cases hstrands : produced.isOk = true ∧ files.Strands path
  · obtain ⟨_, _, location, hnone, hne, houtput⟩ :=
      outputFile_of_strands fault hstrands.1 hstrands.2
    rw [houtput, FileSystem.node?_setNode hne, if_neg]
    rintro rfl
    rw [hnone] at hi
    cases hi
  · rw [((outputFile_allOrNothing_iff fault).2 hstrands).nothing e he]

end Outcome

/-! ## Both commands -/

/-- The output of canonicalizing a file and of bundling one is all or nothing, except where
    there is a text and the path strands the temporary file.  Each command succeeds exactly if
    there is a text and the path can be replaced, and what was there before it is kept if it
    fails, whatever the path. -/
theorem output_all_or_nothing_iff (setting : Setting) (options : LinkOptions)
    (input output : String) :
    let canonical := (canonicalizeFile setting options input none).1
    let canonicalized := canonicalizeFile setting options input (some output)
    let executable := bundleText setting options input
    let bundled := withText executable (bundleFile setting options input output)
    ((AllOrNothing setting.files output canonicalized ↔
        ¬ (canonical.isOk = true ∧ setting.files.Strands output)) ∧
      (canonicalized.1.isOk = true ↔
        canonical.isOk = true ∧ setting.files.Replaceable output) ∧
      Keeps setting.files canonicalized) ∧
    ((AllOrNothing setting.files output bundled ↔
        ¬ (executable.isOk = true ∧ setting.files.Strands output)) ∧
      (bundled.1.isOk = true ↔
        executable.isOk = true ∧ setting.files.Replaceable output) ∧
      Keeps setting.files bundled) := by
  simp only [canonicalizeFile_eq_outputFile, bundleFile_eq_outputFile]
  exact ⟨⟨outputFile_allOrNothing_iff _, outputFile_isOk_iff _, outputFile_keeps _⟩,
    ⟨outputFile_allOrNothing_iff _, outputFile_isOk_iff _, outputFile_keeps _⟩⟩

/-! ### A directory in the way -/

/-- A root without references has no libraries to embed. -/
theorem link_bareDocument (files : FileSystem) (ctx : LoadContext) (name : String) :
    Executable.link files ctx (bareDocument name []).render =
      .ok (Executable.embed (bareDocument name []) []).render := by
  refine (Executable.link_eq_ok_iff (parse_bareDocument name [] _)).2 ⟨[], ?_, rfl⟩
  unfold Executable.closure
  cases Executable.stepBound files ctx (bareDocument name []) <;> rfl

theorem bundleText_bareDocument {files : FileSystem} {root name : String}
    (hread : files.read root = .ok (Utf8.encode (bareDocument name []).render)) :
    bundleText { files } { useEnvironment := false } root =
      .ok (Executable.embed (bareDocument name []) []).render := by
  have hopen : openText files root = .ok (bareDocument name []).render := by
    unfold openText FileSystem.readText
    rw [hread]
    simp [bind, Except.bind, pure, Except.pure, Except.mapError]
  have hcontext : LinkOptions.context { useEnvironment := false } { files } = .ok {} := rfl
  unfold bundleText
  rw [hopen, hcontext]
  simp only [bind, Except.bind, link_bareDocument, Except.mapError]

/-- A root without references, and a directory. -/
def directoryFiles : FileSystem :=
  { nodes := [(["Main.loomlib"], .file (Utf8.encode (bareDocument "Main" []).render)),
      (["out"], .directory)] }

/-- The temporary file is written, but cannot be moved over the directory. -/
theorem replace_directoryFiles (bytes : List UInt8) :
    directoryFiles.replace "out" (FileSystem.putting bytes CommandError.creating) =
      (.error (.moving .isDirectory), directoryFiles.setNode ["out.tmp0"] (.file bytes)) := rfl

/-- A directory is where the executable is to be put: bundling fails, and the temporary file is
    left beside the directory. -/
theorem bundle_leaves_temporary :
    let setting : Setting := { files := directoryFiles }
    let options : LinkOptions := { useEnvironment := false }
    let executable := bundleText setting options "Main.loomlib"
    let bundled := bundleFile setting options "Main.loomlib" "out"
    ¬ AllOrNothing setting.files "out" (withText executable bundled) ∧
      bundled.1 = .error (.replacing "out" .isDirectory) ∧
      setting.files.isThere "out.tmp0" = false ∧
      ∃ text, executable = .ok text ∧ bundled.2.read "out.tmp0" = .ok (Utf8.encode text) := by
  dsimp only
  have hread : directoryFiles.read "Main.loomlib" =
      .ok (Utf8.encode (bareDocument "Main" []).render) := rfl
  have hexecutable := bundleText_bareDocument hread
  generalize (Executable.embed (bareDocument "Main" []) []).render = text at hexecutable
  have hbundled := bundleFile_of_text hexecutable "out"
  simp only [replace_directoryFiles] at hbundled
  rw [hexecutable, hbundled]
  have hmissing : directoryFiles.isThere "out.tmp0" = false := rfl
  have hthere : (directoryFiles.setNode ["out.tmp0"] (.file (Utf8.encode text))).isThere
      "out.tmp0" = true := rfl
  refine ⟨fun h => ?_, rfl, hmissing, text, rfl, rfl⟩
  have hsame := h.nothing (.replacing "out" .isDirectory) rfl
  rw [← hsame] at hmissing
  exact Bool.false_ne_true (hmissing.symm.trans hthere)

end AssemblyLinker
