import AssemblyLinker.FileSystem.Replace
import AssemblyLinker.Proofs.Fallible

/-! # Where paths lead when files change

    A path is followed through directories, so where it leads is decided by which locations are
    directories (`SameDirectories`).  To write, to move or to remove a file leaves that alone:
    the directory and the name that a path ends in are the same before and after.

    A file that can be removed is one that its path leads to.
-/

namespace AssemblyLinker.FileSystem

variable {fs fs' fs'' : FileSystem} {path : String} {location : Location}

/-! ## Nodes -/

theorem lookup_filter_ne (nodes : List (Location × FileNode)) (location i : Location) :
    (nodes.filter (·.1 ≠ location)).lookup i = if i = location then none else nodes.lookup i := by
  induction nodes with
  | nil => simp
  | cons node rest ih =>
    obtain ⟨l, n⟩ := node
    by_cases hl : l = location
    · subst hl
      rw [List.filter_cons_of_neg (by simp), ih]
      by_cases hi : i = l
      · rw [if_pos hi, if_pos hi]
      · rw [if_neg hi, if_neg hi, List.lookup_cons, beq_eq_false_iff_ne.2 hi]
    · rw [List.filter_cons_of_pos (by simpa using hl), List.lookup_cons, List.lookup_cons, ih]
      by_cases hi : i = l
      · subst hi
        simp [hl]
      · simp [beq_eq_false_iff_ne.2 hi]

theorem node?_setNode (hne : location ≠ []) (node : FileNode) (i : Location) :
    (fs.setNode location node).node? i = if i = location then some node else fs.node? i := by
  unfold node? setNode
  by_cases hroot : i = []
  · subst hroot
    rw [if_pos rfl, if_neg (Ne.symm hne), if_pos rfl]
  · rw [if_neg hroot, if_neg hroot, List.lookup_cons, lookup_filter_ne]
    by_cases hi : i = location
    · simp [hi]
    · simp [hi, beq_eq_false_iff_ne.2 hi]

theorem node?_dropNode (hne : location ≠ []) (i : Location) :
    (fs.dropNode location).node? i = if i = location then none else fs.node? i := by
  unfold node? dropNode
  by_cases hroot : i = []
  · subst hroot
    rw [if_pos rfl, if_neg (Ne.symm hne), if_pos rfl]
  · rw [if_neg hroot, if_neg hroot, lookup_filter_ne]

theorem isDirectory_eq_true_iff : fs.isDirectory location = true ↔
    fs.node? location = some .directory := by
  simp [isDirectory]

/-! ## What a path ends in -/

/-- What a path ends in, if nothing is wrong with the path itself. -/
theorem target_of_check (hcheck : checkPath path = .ok ()) :
    fs.target path =
      match (Path.parts path.toList).reverse.dropWhile (· = []) with
      | [] => .ok ⟨fs.start path.toList, none, (Path.parts path.toList).reverse.head? = some []⟩
      | name :: before =>
        match fs.followAll (fs.start path.toList) before.reverse with
        | .error fault => .error fault
        | .ok directory =>
          if fs.isDirectory directory then
            .ok ⟨directory, some name, (Path.parts path.toList).reverse.head? = some []⟩
          else .error .notDirectory := by
  unfold target
  rw [hcheck]
  simp only [bind, Except.bind]
  cases (Path.parts path.toList).reverse.dropWhile (· = []) with
  | nil => rfl
  | cons name before =>
    simp only
    cases fs.followAll (fs.start path.toList) before.reverse with
    | error fault => rfl
    | ok directory => rfl

theorem check_of_target {t : Target} (h : fs.target path = .ok t) : checkPath path = .ok () := by
  obtain ⟨_, hcheck, -⟩ := exists_of_bind_ok h
  exact hcheck

/-! ## The same directories -/

/-- In two file systems the same locations are directories, and paths start at the same one. -/
structure SameDirectories (fs fs' : FileSystem) : Prop where
  workingDirectory : fs'.workingDirectory = fs.workingDirectory
  isDirectory : ∀ location, fs'.isDirectory location = fs.isDirectory location

namespace SameDirectories

theorem refl (fs : FileSystem) : fs.SameDirectories fs := ⟨rfl, fun _ => rfl⟩

theorem symm (h : fs.SameDirectories fs') : fs'.SameDirectories fs :=
  ⟨h.workingDirectory.symm, fun location => (h.isDirectory location).symm⟩

theorem trans (h : fs.SameDirectories fs') (h' : fs'.SameDirectories fs'') :
    fs.SameDirectories fs'' :=
  ⟨h'.workingDirectory.trans h.workingDirectory,
    fun location => (h'.isDirectory location).trans (h.isDirectory location)⟩

/-- A file is put where no directory is. -/
theorem setNode (hne : location ≠ []) (hfree : fs.isDirectory location = false)
    (bytes : List UInt8) : fs.SameDirectories (fs.setNode location (.file bytes)) := by
  refine ⟨rfl, fun i => ?_⟩
  by_cases hi : i = location
  · subst hi
    rw [hfree]
    simp [FileSystem.isDirectory, node?_setNode hne]
  · simp [FileSystem.isDirectory, node?_setNode hne, hi]

/-- What is no directory is taken away. -/
theorem dropNode (hne : location ≠ []) (hfree : fs.isDirectory location = false) :
    fs.SameDirectories (fs.dropNode location) := by
  refine ⟨rfl, fun i => ?_⟩
  by_cases hi : i = location
  · subst hi
    rw [hfree]
    simp [FileSystem.isDirectory, node?_dropNode hne]
  · simp [FileSystem.isDirectory, node?_dropNode hne, hi]

end SameDirectories

theorem isDirectory_of_follow {part : List Char} {next : Location}
    (h : fs.follow location part = .ok next) : fs.isDirectory location = true := by
  unfold follow at h
  split at h
  · cases h
  next hdirectory => simpa using hdirectory

namespace SameDirectories

variable (h : fs.SameDirectories fs')
include h

theorem start (path : List Char) : fs'.start path = fs.start path := by
  unfold FileSystem.start
  rw [h.workingDirectory]

/-- A directory is there in both file systems. -/
theorem isSome_of_isDirectory (hdirectory : fs.isDirectory location = true) :
    (fs'.node? location).isSome = true := by
  rw [← h.isDirectory, isDirectory_eq_true_iff] at hdirectory
  rw [hdirectory]
  rfl

theorem follow {part : List Char} {next : Location} (hfollow : fs.follow location part = .ok next)
    (hnext : (fs'.node? next).isSome = true) : fs'.follow location part = .ok next := by
  have hlocation := isDirectory_of_follow hfollow
  unfold FileSystem.follow at hfollow ⊢
  rw [h.isDirectory location]
  simp only [hlocation, not_true_eq_false, if_false] at hfollow ⊢
  split
  next hsame => rwa [if_pos hsame] at hfollow
  next hother =>
    rw [if_neg hother] at hfollow
    split
    next hup => rwa [if_pos hup] at hfollow
    next hname =>
      rw [if_neg hname] at hfollow
      -- a name leads on if something is there, which is given for the other file system
      cases hentry : entry location part with
      | error fault =>
        rw [hentry] at hfollow
        cases hfollow
      | ok found =>
        rw [hentry] at hfollow
        simp only at hfollow ⊢
        split at hfollow
        · cases hfollow
          rw [if_pos hnext]
        · cases hfollow

/-- A path leads to the same place, if something is there in both file systems: all before it
    are directories. -/
theorem followAll {parts : List (List Char)} {last : Location}
    (hfollow : fs.followAll location parts = .ok last) (hlast : (fs'.node? last).isSome = true) :
    fs'.followAll location parts = .ok last := by
  induction parts generalizing location with
  | nil => exact hfollow
  | cons part rest ih =>
    rw [FileSystem.followAll] at hfollow ⊢
    cases hpart : fs.follow location part with
    | error fault =>
      rw [hpart] at hfollow
      cases hfollow
    | ok next =>
      rw [hpart] at hfollow
      change fs.followAll next rest = .ok last at hfollow
      -- what this part leads to is the end of the way, or a directory
      have hnext : (fs'.node? next).isSome = true := by
        cases rest with
        | nil =>
          cases hfollow
          exact hlast
        | cons part' rest =>
          rw [FileSystem.followAll] at hfollow
          split at hfollow
          · cases hfollow
          next hfollow' => exact h.isSome_of_isDirectory (isDirectory_of_follow hfollow')
      rw [h.follow hpart hnext]
      exact ih hfollow

theorem resolve (hresolve : fs.resolve path = .ok location)
    (hthere : (fs'.node? location).isSome = true) : fs'.resolve path = .ok location := by
  obtain ⟨_, hcheck, hfollow⟩ := exists_of_bind_ok hresolve
  unfold FileSystem.resolve
  rw [hcheck, h.start]
  exact h.followAll hfollow hthere

/-- What a path ends in, and the directory of that. -/
theorem target {t : Target} (htarget : fs.target path = .ok t) : fs'.target path = .ok t := by
  have hcheck := check_of_target htarget
  rw [target_of_check hcheck] at htarget ⊢
  rw [h.start]
  split at htarget
  · exact htarget
  · split at htarget
    · cases htarget
    next directory hfollow =>
      split at htarget
      next hdirectory =>
        rw [h.followAll hfollow (h.isSome_of_isDirectory hdirectory)]
        simp only [h.isDirectory, hdirectory, if_true]
        exact htarget
      next => cases htarget

end SameDirectories

/-! ## Paths that end in a name -/

/-- A name in a directory. -/
theorem entry_eq_ok_iff {directory : Location} {name : List Char} :
    entry directory name = .ok location ↔
      Utf8.byteSize name ≤ maxNameSize ∧ directory ++ [String.ofList name] = location := by
  unfold entry
  split
  next hlong => simp [Nat.not_le.2 hlong]
  next hshort => simp [Nat.not_lt.1 hshort]

theorem ne_nil_of_entry {directory : Location} {name : List Char}
    (h : entry directory name = .ok location) : location ≠ [] := by
  obtain ⟨-, rfl⟩ := entry_eq_ok_iff.1 h
  simp

/-- Where a path ends in a name, behind which no slash follows. -/
theorem target_eq_ok_iff {directory : Location} {name : List Char} :
    fs.target path = .ok ⟨directory, some name, false⟩ ↔
      ∃ before, Path.parts path.toList = before ++ [name] ∧ name ≠ [] ∧ checkPath path = .ok () ∧
        fs.followAll (fs.start path.toList) before = .ok directory ∧
        fs.isDirectory directory = true := by
  constructor
  · intro h
    have hcheck := check_of_target h
    rw [target_of_check hcheck] at h
    split at h
    · cases h
    next last before hparts =>
      split at h
      · cases h
      next d hfollow =>
        split at h
        next hdirectory =>
          simp only [Except.ok.injEq, Target.mk.injEq, Option.some.injEq] at h
          obtain ⟨rfl, rfl, hslash⟩ := h
          -- the last part is not empty, and so it is the one that the path ends in
          cases hreversed : (Path.parts path.toList).reverse with
          | nil =>
            rw [hreversed] at hparts
            cases hparts
          | cons part others =>
            have hpart : part ≠ [] := by simpa [hreversed] using hslash
            rw [hreversed, List.dropWhile_cons_of_neg (by simpa using hpart)] at hparts
            cases hparts
            refine ⟨before.reverse, ?_, hpart, hcheck, hfollow, hdirectory⟩
            rw [← List.reverse_reverse (Path.parts path.toList), hreversed, List.reverse_cons]
        next => cases h
  · rintro ⟨before, hparts, hname, hcheck, hfollow, hdirectory⟩
    rw [target_of_check hcheck, hparts, List.reverse_append, List.reverse_singleton,
      List.singleton_append, List.dropWhile_cons_of_neg (by simpa using hname)]
    simp [hfollow, hdirectory, hname]

theorem isName_eq_true_iff {part : List Char} :
    isName part = true ↔ part ≠ ['.'] ∧ part ≠ ['.', '.'] := by
  simp [isName]

/-- Parts are followed from where the parts before them lead. -/
theorem followAll_append (before after : List (List Char)) :
    fs.followAll location (before ++ after) =
      (fs.followAll location before).bind fun directory => fs.followAll directory after := by
  induction before generalizing location with
  | nil => rfl
  | cons first rest ih =>
    rw [List.cons_append, followAll, followAll]
    cases fs.follow location first with
    | error fault => rfl
    | ok next => exact ih

theorem followAll_singleton (part : List Char) :
    fs.followAll location [part] = fs.follow location part := by
  rw [followAll]
  cases fs.follow location part <;> rfl

theorem followAll_concat {before : List (List Char)} {directory : Location} {part : List Char}
    (h : fs.followAll location before = .ok directory) :
    fs.followAll location (before ++ [part]) = fs.follow directory part := by
  rw [followAll_append, h]
  exact followAll_singleton part

/-- Such a path leads to what is there under the name. -/
theorem resolve_of_target {directory : Location} {name : List Char}
    (h : fs.target path = .ok ⟨directory, some name, false⟩) (hname : isName name = true) :
    fs.resolve path =
      match entry directory name with
      | .error fault => .error fault
      | .ok location => if (fs.node? location).isSome then .ok location else .error .notFound := by
  obtain ⟨before, hparts, hne, hcheck, hfollow, hdirectory⟩ := target_eq_ok_iff.1 h
  have hname := isName_eq_true_iff.1 hname
  unfold resolve
  rw [hcheck, hparts]
  show fs.followAll (fs.start path.toList) (before ++ [name]) = _
  rw [followAll_concat hfollow]
  unfold follow
  cases entry directory name <;> simp [hdirectory, hne, hname]

/-! ## Files -/

/-- A file that is there is what its path ends in. -/
theorem existingFile_eq_ok_iff : fs.existingFile path = .ok location ↔
    ∃ directory name bytes, fs.target path = .ok ⟨directory, some name, false⟩ ∧
      isName name = true ∧ entry directory name = .ok location ∧
      fs.node? location = some (.file bytes) := by
  constructor
  · intro h
    obtain ⟨⟨directory, name?, slashed⟩, htarget, h⟩ := exists_of_bind_ok h
    cases name? with
    | none => cases h
    | some name =>
      simp only at h
      split at h
      · cases h
      next hname =>
        obtain ⟨l, hentry, h⟩ := exists_of_bind_ok h
        split at h
        · cases h
        · cases h
        next bytes hnode =>
          -- a slash at the end asks for a directory
          cases slashed with
          | true => cases h
          | false =>
            cases h
            exact ⟨directory, name, bytes, htarget, by simpa using hname, hentry, hnode⟩
  · rintro ⟨directory, name, bytes, htarget, hname, hentry, hnode⟩
    unfold existingFile
    rw [htarget]
    simp [bind, Except.bind, hname, hentry, hnode, pure, Except.pure]

theorem resolve_of_existingFile (h : fs.existingFile path = .ok location) :
    fs.resolve path = .ok location := by
  obtain ⟨directory, name, bytes, htarget, hname, hentry, hnode⟩ := existingFile_eq_ok_iff.1 h
  rw [resolve_of_target htarget hname, hentry]
  simp [hnode]

/-- A file is removed only if it is there, so it is no matter if one looks before. -/
theorem removeIfPossible_of_missing (h : fs.isThere path = false) :
    fs.removeIfPossible path = fs := by
  unfold removeIfPossible remove
  cases hfile : fs.existingFile path with
  | error fault => rfl
  | ok location =>
    rw [isThere, resolve_of_existingFile hfile] at h
    cases h

/-- A file is written to where its path ends in a name. -/
theorem fileLocation_eq_ok_iff : fs.fileLocation path = .ok location ↔
    ∃ directory name, fs.target path = .ok ⟨directory, some name, false⟩ ∧
      isName name = true ∧ entry directory name = .ok location ∧
      fs.isDirectory location = false := by
  constructor
  · intro h
    obtain ⟨⟨directory, name?, slashed⟩, htarget, h⟩ := exists_of_bind_ok h
    cases name? with
    | none => cases h
    | some name =>
      simp only at h
      split at h
      · cases h
      next hname =>
        obtain ⟨l, hentry, h⟩ := exists_of_bind_ok h
        split at h
        · cases h
        next hfree =>
          cases h
          -- a slash at the end asks for a directory
          cases slashed with
          | true => simp at hname
          | false => exact ⟨directory, name, htarget, by simpa using hname, hentry,
              by simpa using hfree⟩
  · rintro ⟨directory, name, htarget, hname, hentry, hfree⟩
    unfold fileLocation
    rw [htarget]
    simp [bind, Except.bind, hname, hentry, hfree, pure, Except.pure]

end AssemblyLinker.FileSystem
