import AssemblyLinker.Proofs.FileSystem.Paths

/-! # What replacing a file leaves behind

    A file is replaced in two steps, and each of them changes one location:

    - the temporary file is written where nothing was before (`exists_write_temporary`);
    - it is moved to the path, over the file that is there (`moveOver_of_fileLocation`).

    The move fails exactly where no file could be written in the first place
    (`rename_eq_ok_iff`), and nothing has been removed from the path then.  So there are three
    ends: both files can be written and the path is replaced (`replace_of_replaceable`), the
    path strands the temporary file, which is left where it is (`replace_of_strands`), or not
    even the temporary file can be written and nothing happens (`replace_of_neither`).
-/

namespace AssemblyLinker.FileSystem

variable {fs fs' : FileSystem} {path source temporary : String} {location old new : Location}
  {node : FileNode} {bytes : List UInt8}

/-! ## Where files can be written -/

/-- Can a file be written to a path? -/
def takesFile (fs : FileSystem) (path : String) : Bool := (fs.fileLocation path).isOk

theorem takesFile_eq_true_iff :
    fs.takesFile path = true ↔ ∃ location, fs.fileLocation path = .ok location := by
  unfold takesFile
  cases fs.fileLocation path with
  | ok location => simp [Except.isOk, Except.toBool]
  | error fault => simp [Except.isOk, Except.toBool]

theorem takesFile_eq_false_iff :
    fs.takesFile path = false ↔ ∃ fault, fs.fileLocation path = .error fault := by
  unfold takesFile
  cases fs.fileLocation path with
  | ok location => simp [Except.isOk, Except.toBool]
  | error fault => simp [Except.isOk, Except.toBool]

theorem ne_nil_of_fileLocation (h : fs.fileLocation path = .ok location) : location ≠ [] := by
  obtain ⟨_, _, -, -, hentry, -⟩ := fileLocation_eq_ok_iff.1 h
  exact ne_nil_of_entry hentry

theorem not_isDirectory_of_fileLocation (h : fs.fileLocation path = .ok location) :
    fs.isDirectory location = false := by
  obtain ⟨_, _, -, -, -, hfree⟩ := fileLocation_eq_ok_iff.1 h
  exact hfree

theorem resolve_of_fileLocation (h : fs.fileLocation path = .ok location) :
    fs.resolve path = if (fs.node? location).isSome then .ok location else .error .notFound := by
  obtain ⟨_, _, htarget, hname, hentry, -⟩ := fileLocation_eq_ok_iff.1 h
  rw [resolve_of_target htarget hname, hentry]

/-- Nothing is at the location of a path that leads to nothing. -/
theorem node?_of_missing (h : fs.fileLocation path = .ok location)
    (hmissing : fs.isThere path = false) : fs.node? location = none := by
  rw [isThere, resolve_of_fileLocation h] at hmissing
  by_cases hsome : (fs.node? location).isSome = true
  · simp [hsome] at hmissing
  · simpa using hsome

/-- A file could be written where one is. -/
theorem fileLocation_of_existingFile (h : fs.existingFile path = .ok location) :
    fs.fileLocation path = .ok location := by
  obtain ⟨directory, name, bytes, htarget, hname, hentry, hnode⟩ := existingFile_eq_ok_iff.1 h
  refine fileLocation_eq_ok_iff.2 ⟨directory, name, htarget, hname, hentry, ?_⟩
  simp [isDirectory, hnode]

theorem existingFile_of_fileLocation (h : fs.fileLocation path = .ok location)
    (hnode : fs.node? location = some (.file bytes)) : fs.existingFile path = .ok location := by
  obtain ⟨directory, name, htarget, hname, hentry, -⟩ := fileLocation_eq_ok_iff.1 h
  exact existingFile_eq_ok_iff.2 ⟨directory, name, bytes, htarget, hname, hentry, hnode⟩

theorem SameDirectories.fileLocation (h : fs.SameDirectories fs')
    (hlocation : fs.fileLocation path = .ok location) : fs'.fileLocation path = .ok location := by
  obtain ⟨directory, name, htarget, hname, hentry, hfree⟩ := fileLocation_eq_ok_iff.1 hlocation
  refine fileLocation_eq_ok_iff.2 ⟨directory, name, h.target htarget, hname, hentry, ?_⟩
  rw [h.isDirectory, hfree]

theorem SameDirectories.takesFile (h : fs.SameDirectories fs') (path : String) :
    fs'.takesFile path = fs.takesFile path := by
  rw [Bool.eq_iff_iff, takesFile_eq_true_iff, takesFile_eq_true_iff]
  constructor
  · rintro ⟨location, hlocation⟩
    exact ⟨location, h.symm.fileLocation hlocation⟩
  · rintro ⟨location, hlocation⟩
    exact ⟨location, h.fileLocation hlocation⟩

/-! ## Moving -/

theorem renameLocation_eq_ok_iff {t : Target} {name : List Char} :
    fs.renameLocation t name = .ok location ↔
      t.slashed = false ∧ entry t.directory name = .ok location ∧
        fs.isDirectory location = false := by
  constructor
  · intro h
    unfold renameLocation at h
    split at h
    · cases h
    next hslashed =>
      obtain ⟨l, hentry, h⟩ := exists_of_bind_ok h
      split at h
      · cases h
      next hfree =>
        cases h
        exact ⟨by simpa using hslashed, hentry, by simpa using hfree⟩
  · rintro ⟨hslashed, hentry, hfree⟩
    unfold renameLocation
    simp [bind, Except.bind, hslashed, hentry, hfree, pure, Except.pure]

/-- A file is moved to where one could be written. -/
theorem rename_eq_ok_iff (hold : fs.existingFile source = .ok old)
    (hnode : fs.node? old = some node) :
    fs.rename source path = .ok fs' ↔
      ∃ new, fs.fileLocation path = .ok new ∧ fs' = (fs.dropNode old).setNode new node := by
  obtain ⟨directory, name, -, hsource, hname, -⟩ := existingFile_eq_ok_iff.1 hold
  constructor
  · intro h
    obtain ⟨s, hs, h⟩ := exists_of_bind_ok h
    obtain ⟨⟨d, part?, slashed⟩, ht, h⟩ := exists_of_bind_ok h
    split at h
    next a part _ hpart =>
      cases hpart
      split at h
      · cases h
      next hnames =>
        obtain ⟨o, ho, hmoved⟩ := exists_of_bind_ok h
        -- the source is looked for again, and is where it was found
        cases hold.symm.trans ho
        obtain ⟨new, hnew, hmoved⟩ := exists_of_bind_ok hmoved
        rw [hnode] at hmoved
        cases hmoved
        obtain ⟨rfl, hentry, hfree⟩ := renameLocation_eq_ok_iff.1 hnew
        have hpart : isName part = true := by
          by_contra hpart
          exact hnames (.inr hpart)
        exact ⟨new, fileLocation_eq_ok_iff.2 ⟨d, part, ht, hpart, hentry, hfree⟩, rfl⟩
    next => cases h
  · rintro ⟨new, hnew, rfl⟩
    obtain ⟨d, part, ht, hpart, hentry, hfree⟩ := fileLocation_eq_ok_iff.1 hnew
    have hrename : fs.renameLocation ⟨d, some part, false⟩ part = .ok new :=
      renameLocation_eq_ok_iff.2 ⟨rfl, hentry, hfree⟩
    unfold rename
    rw [hsource, ht]
    simp [bind, Except.bind, hname, hpart, hold, hrename, hnode, pure, Except.pure]

/-- Before a file is written to a path, the file that is there is removed. -/
theorem removeIfPossible_of_fileLocation (h : fs.fileLocation path = .ok location) :
    fs.SameDirectories (fs.removeIfPossible path) ∧
      ∀ i, (fs.removeIfPossible path).node? i = if i = location then none else fs.node? i := by
  have hne := ne_nil_of_fileLocation h
  have hfree := not_isDirectory_of_fileLocation h
  unfold removeIfPossible remove
  cases hfile : fs.existingFile path with
  | ok l =>
    cases (fileLocation_of_existingFile hfile).symm.trans h
    exact ⟨.dropNode hne hfree, node?_dropNode hne⟩
  | error fault =>
    -- there is no file that could be removed, nor anything else
    refine ⟨.refl fs, fun i => ?_⟩
    by_cases hi : i = location
    · subst hi
      rw [if_pos rfl]
      show fs.node? i = none
      rcases hnode : fs.node? i with _ | _ | bytes
      · rfl
      · simp [isDirectory, hnode] at hfree
      · cases hfile.symm.trans (existingFile_of_fileLocation h hnode)
    · rw [if_neg hi]
      rfl

theorem removeIfPossible_of_not_takesFile (h : fs.takesFile path = false) :
    fs.removeIfPossible path = fs := by
  obtain ⟨_, hfault⟩ := takesFile_eq_false_iff.1 h
  unfold removeIfPossible remove
  cases hfile : fs.existingFile path with
  | error fault => rfl
  | ok l => cases hfault.symm.trans (fileLocation_of_existingFile hfile)

theorem moveOver_eq : fs.moveOver temporary path =
    match (fs.removeIfPossible path).rename temporary path with
    | .ok fs' => (.ok (), fs')
    | .error fault => (.error fault, fs.removeIfPossible path) := by
  unfold moveOver
  cases hthere : fs.isThere path with
  | true => rfl
  | false =>
    rw [removeIfPossible_of_missing hthere]
    rfl

theorem moveOver_of_fileLocation (hold : fs.existingFile temporary = .ok old)
    (hnode : fs.node? old = some (.file bytes)) (hnew : fs.fileLocation path = .ok new)
    (hne : old ≠ new) :
    ∃ fs', fs.moveOver temporary path = (.ok (), fs') ∧ fs.SameDirectories fs' ∧
      ∀ i, fs'.node? i =
        if i = new then some (.file bytes) else if i = old then none else fs.node? i := by
  obtain ⟨hcleared, hnodes⟩ := removeIfPossible_of_fileLocation hnew
  have hnode' : (fs.removeIfPossible path).node? old = some (.file bytes) := by
    rw [hnodes, if_neg hne, hnode]
  have hlocation := hcleared.fileLocation (fileLocation_of_existingFile hold)
  have hnew' := hcleared.fileLocation hnew
  have hrename := (rename_eq_ok_iff (existingFile_of_fileLocation hlocation hnode') hnode').2
    ⟨new, hnew', rfl⟩
  have hdropped := SameDirectories.dropNode (ne_nil_of_fileLocation hlocation)
    (not_isDirectory_of_fileLocation hlocation)
  refine ⟨_, by rw [moveOver_eq, hrename], ?_, fun i => ?_⟩
  · refine (hcleared.trans hdropped).trans (.setNode (ne_nil_of_fileLocation hnew) ?_ bytes)
    exact not_isDirectory_of_fileLocation (hdropped.fileLocation hnew')
  · rw [node?_setNode (ne_nil_of_fileLocation hnew), node?_dropNode (ne_nil_of_fileLocation hlocation),
      hnodes]
    by_cases hi : i = new
    · rw [if_pos hi, if_pos hi]
    · rw [if_neg hi, if_neg hi, if_neg hi]

/-- Where no file can be written, none is moved to, and nothing is removed. -/
theorem moveOver_of_not_takesFile (hold : fs.existingFile temporary = .ok old)
    (h : fs.takesFile path = false) :
    ∃ fault, fs.moveOver temporary path = (.error fault, fs) := by
  obtain ⟨_, hfault⟩ := takesFile_eq_false_iff.1 h
  obtain ⟨_, _, bytes, -, -, -, hnode⟩ := existingFile_eq_ok_iff.1 hold
  rw [moveOver_eq, removeIfPossible_of_not_takesFile h]
  cases hrename : fs.rename temporary path with
  | error fault => exact ⟨fault, rfl⟩
  | ok fs' =>
    obtain ⟨new, hnew, -⟩ := (rename_eq_ok_iff hold hnode).1 hrename
    cases hfault.symm.trans hnew

/-! ## The temporary file -/

/-- The path of the temporary file that a file is replaced by. -/
def temporaryFor? (fs : FileSystem) (path : String) : Option String :=
  (directoryOf? path).map fun dir =>
    fs.freeTemporaryPath dir (String.ofList ((Path.fileName? path.toList).getD []))

/-- A file can be written beside the path and to the path itself. -/
def Replaceable (fs : FileSystem) (path : String) : Prop :=
  ∃ temporary, fs.temporaryFor? path = some temporary ∧
    fs.takesFile temporary = true ∧ fs.takesFile path = true

/-- A file can be written beside the path, and none to the path itself. -/
def Strands (fs : FileSystem) (path : String) : Prop :=
  ∃ temporary, fs.temporaryFor? path = some temporary ∧
    fs.takesFile temporary = true ∧ fs.takesFile path = false

/-- The temporary path is a free one for the name of the file. -/
theorem exists_temporaryPath (h : fs.temporaryFor? path = some temporary) :
    ∃ dir name i, '/' ∉ name.toList ∧ temporary = temporaryPath dir name i ∧
      fs.isThere temporary = false ∧
      ∀ part, Path.fileName? path.toList = some part → name = String.ofList part := by
  obtain ⟨dir, -, rfl⟩ := Option.map_eq_some_iff.1 h
  have hname : '/' ∉ (String.ofList ((Path.fileName? path.toList).getD [])).toList := by
    rw [String.toList_ofList]
    cases hfile : Path.fileName? path.toList with
    | none => simp
    | some part => exact Path.not_mem_of_fileName? hfile
  obtain ⟨i, hpath, hfree⟩ := exists_freeTemporaryPath fs hname dir
  refine ⟨dir, _, i, hname, hpath, hpath ▸ hfree, fun part hpart => ?_⟩
  rw [hpart, Option.getD_some]

/-- The temporary file is not the one that it replaces. -/
theorem ne_of_temporaryFor? (h : fs.temporaryFor? path = some temporary)
    (hold : fs.fileLocation temporary = .ok old) (hnew : fs.fileLocation path = .ok new) :
    old ≠ new := by
  obtain ⟨dir, name, i, hslash, rfl, -, hname⟩ := exists_temporaryPath h
  obtain ⟨d, part, htarget, hpart, hentry, -⟩ := fileLocation_eq_ok_iff.1 hnew
  obtain ⟨d', part', htarget', -, hentry', -⟩ := fileLocation_eq_ok_iff.1 hold
  obtain ⟨-, rfl⟩ := entry_eq_ok_iff.1 hentry
  obtain ⟨-, rfl⟩ := entry_eq_ok_iff.1 hentry'
  obtain ⟨before, hparts⟩ := exists_parts_temporaryPath hslash dir i
  obtain ⟨before', hparts', -⟩ := target_eq_ok_iff.1 htarget'
  have hlast : part' = (temporaryName name i).toList :=
    (Path.lastPart_of_parts hparts').symm.trans (Path.lastPart_of_parts hparts)
  intro hsame
  have hsame := congrArg List.getLast? hsame
  rw [List.getLast?_concat, List.getLast?_concat, hlast, String.ofList_toList,
    ← hname part (fileName?_of_target htarget hpart)] at hsame
  exact temporaryName_ne name i (Option.some.inj hsame)

/-! ## Replacing -/

/-- The writer that puts bytes into the temporary file. -/
def putting {ε : Type} (bytes : List UInt8) (fault : String → FileFault → ε) (files : FileSystem)
    (temporary : String) : Except ε FileSystem :=
  (files.write temporary bytes).mapError (fault temporary)

/-- After a path has been written to, it leads to a file with the bytes, and nothing else has
    changed. -/
structure Written (before after : FileSystem) (path : String) (bytes : List UInt8) : Prop where
  read : after.read path = .ok bytes
  workingDirectory : after.workingDirectory = before.workingDirectory
  /-- Every other location holds what it held. -/
  node? : ∀ i, after.resolve path ≠ .ok i → after.node? i = before.node? i
  /-- Every other path leads to the file that it led to. -/
  read_other : ∀ other, after.resolve other ≠ after.resolve path →
    ∀ content, after.read other = .ok content ↔ before.read other = .ok content

theorem read_eq_ok_iff : fs.read path = .ok bytes ↔
    ∃ location, fs.resolve path = .ok location ∧ fs.node? location = some (.file bytes) := by
  constructor
  · intro h
    obtain ⟨location, hresolve, h⟩ := exists_of_bind_ok h
    split at h
    next content hnode =>
      cases h
      exact ⟨location, hresolve, hnode⟩
    next => cases h
  · rintro ⟨location, hresolve, hnode⟩
    unfold read
    rw [hresolve]
    simp [bind, Except.bind, hnode, pure, Except.pure]

theorem SameDirectories.read {content : List UInt8} (h : fs.SameDirectories fs')
    (hread : fs.read path = .ok content)
    (hnode : ∀ i, fs.resolve path = .ok i → fs'.node? i = fs.node? i) :
    fs'.read path = .ok content := by
  obtain ⟨i, hresolve, hfile⟩ := read_eq_ok_iff.1 hread
  have hfile' := (hnode i hresolve).trans hfile
  refine read_eq_ok_iff.2 ⟨i, h.resolve hresolve ?_, hfile'⟩
  rw [hfile']
  rfl

theorem SameDirectories.written (h : fs.SameDirectories fs')
    (hlocation : fs.fileLocation path = .ok location)
    (hnodes : ∀ i, fs'.node? i = if i = location then some (.file bytes) else fs.node? i) :
    Written fs fs' path bytes := by
  have hnode : fs'.node? location = some (.file bytes) := by rw [hnodes, if_pos rfl]
  have hresolve : fs'.resolve path = .ok location := by
    rw [resolve_of_fileLocation (h.fileLocation hlocation), hnode]
    rfl
  have hother : ∀ i, fs'.resolve path ≠ .ok i → fs'.node? i = fs.node? i := by
    intro i hi
    rw [hnodes, if_neg]
    rintro rfl
    exact hi hresolve
  refine ⟨read_eq_ok_iff.2 ⟨location, hresolve, hnode⟩, h.workingDirectory, hother, ?_⟩
  intro other hne content
  constructor
  · intro hread
    refine h.symm.read hread fun i hi => (hother i fun hpath => ?_).symm
    exact hne (hi.trans hpath.symm)
  · intro hread
    refine h.read hread fun i hi => hother i fun hpath => ?_
    -- the path has led to the file that has been written, so it still does
    refine hne ((h.resolve hi ?_).trans hpath.symm)
    cases hpath.symm.trans hresolve
    rw [hnode]
    rfl

section Putting

variable {ε : Type}

theorem replace_of_write_error {write : FileSystem → String → Except ε FileSystem} {e : ε}
    (h : fs.temporaryFor? path = some temporary) (hwrite : write fs temporary = .error e) :
    fs.replace path write = (.error (.writing e), fs.removeIfPossible temporary) := by
  obtain ⟨dir, hdir, rfl⟩ := Option.map_eq_some_iff.1 h
  unfold replace
  rw [hdir]
  simp only [hwrite]

theorem replace_of_write_ok {write : FileSystem → String → Except ε FileSystem}
    {written after : FileSystem} {result : Except FileFault Unit}
    (h : fs.temporaryFor? path = some temporary) (hwrite : write fs temporary = .ok written)
    (hmove : written.moveOver temporary path = (result, after)) :
    fs.replace path write = (result.mapError .moving, after) := by
  obtain ⟨dir, hdir, rfl⟩ := Option.map_eq_some_iff.1 h
  unfold replace
  rw [hdir]
  simp only [hwrite, hmove]

variable (bytes) (fault : String → FileFault → ε)

/-- The temporary file is there, and nothing else has changed. -/
theorem exists_write_temporary (h : fs.temporaryFor? path = some temporary)
    (htakes : fs.takesFile temporary = true) :
    ∃ old, putting bytes fault fs temporary = .ok (fs.setNode old (.file bytes)) ∧
      fs.fileLocation temporary = .ok old ∧ fs.node? old = none ∧
      fs.SameDirectories (fs.setNode old (.file bytes)) ∧
      (fs.setNode old (.file bytes)).existingFile temporary = .ok old := by
  obtain ⟨old, hold⟩ := takesFile_eq_true_iff.1 htakes
  obtain ⟨_, _, _, -, -, hfree, -⟩ := exists_temporaryPath h
  have hne := ne_nil_of_fileLocation hold
  have hsame := SameDirectories.setNode hne (not_isDirectory_of_fileLocation hold) bytes
  refine ⟨old, by rw [putting, write, hold]; rfl, hold, node?_of_missing hold hfree, hsame, ?_⟩
  have hnode : (fs.setNode old (.file bytes)).node? old = some (.file bytes) := by
    rw [node?_setNode hne, if_pos rfl]
  exact existingFile_of_fileLocation (hsame.fileLocation hold) hnode

theorem replace_of_replaceable (h : fs.Replaceable path) :
    ∃ after, fs.replace path (putting bytes fault) = (.ok (), after) ∧
      Written fs after path bytes := by
  obtain ⟨temporary, h, htakes, hpath⟩ := h
  obtain ⟨old, hput, hold, hnone, hsame, hfile⟩ := exists_write_temporary bytes fault h htakes
  obtain ⟨new, hnew⟩ := takesFile_eq_true_iff.1 hpath
  have hnodes : ∀ i, (fs.setNode old (.file bytes)).node? i =
      if i = old then some (.file bytes) else fs.node? i :=
    node?_setNode (ne_nil_of_fileLocation hold) (.file bytes)
  obtain ⟨after, hmove, hsame', hmoved⟩ := moveOver_of_fileLocation hfile
    (by rw [hnodes, if_pos rfl]) (hsame.fileLocation hnew) (ne_of_temporaryFor? h hold hnew)
  refine ⟨after, replace_of_write_ok h hput hmove, (hsame.trans hsame').written hnew fun i => ?_⟩
  -- at the location of the temporary file there is nothing again
  rw [hmoved, hnodes]
  by_cases hi : i = old
  · rw [if_pos hi, hi, hnone]
  · rw [if_neg hi, if_neg hi]

/-- Where not even the temporary file can be written, nothing happens. -/
theorem replace_of_neither (hreplaceable : ¬ fs.Replaceable path) (hstrands : ¬ fs.Strands path) :
    ∃ e, fs.replace path (putting bytes fault) = (.error e, fs) := by
  cases htemporary : fs.temporaryFor? path with
  | none =>
    have hdir := Option.map_eq_none_iff.1 htemporary
    refine ⟨.noParent, ?_⟩
    unfold replace
    rw [hdir]
  | some temporary =>
    have htakes : fs.takesFile temporary = false := by
      by_contra htakes
      rw [Bool.not_eq_false] at htakes
      cases hpath : fs.takesFile path with
      | true => exact hreplaceable ⟨temporary, htemporary, htakes, hpath⟩
      | false => exact hstrands ⟨temporary, htemporary, htakes, hpath⟩
    obtain ⟨e, hlocation⟩ := takesFile_eq_false_iff.1 htakes
    have hput : putting bytes fault fs temporary = .error (fault temporary e) := by
      rw [putting, write, hlocation]
      rfl
    refine ⟨.writing (fault temporary e), ?_⟩
    rw [replace_of_write_error htemporary hput, removeIfPossible_of_not_takesFile htakes]

/-- The temporary file stays where the path strands it, and all else is as before. -/
theorem replace_of_strands (h : fs.Strands path) :
    ∃ temporary e old, fs.temporaryFor? path = some temporary ∧
      fs.replace path (putting bytes fault) = (.error e, fs.setNode old (.file bytes)) ∧
      fs.fileLocation temporary = .ok old ∧ fs.node? old = none := by
  obtain ⟨temporary, htemporary, htakes, hpath⟩ := h
  obtain ⟨old, hput, hold, hnone, hsame, hfile⟩ :=
    exists_write_temporary bytes fault htemporary htakes
  obtain ⟨e, hmove⟩ := moveOver_of_not_takesFile hfile ((hsame.takesFile path).trans hpath)
  exact ⟨temporary, .moving e, old, htemporary, replace_of_write_ok htemporary hput hmove, hold,
    hnone⟩

end Putting

end AssemblyLinker.FileSystem
