import AssemblyLinker.Proofs.FileSystem.Following
import AssemblyLinker.Proofs.Json.Numbers
import Mathlib.Data.List.Nodup
import Mathlib.Data.List.Perm.Subperm
import Mathlib.Data.List.TakeWhile

/-! # Temporary paths

    A temporary file goes by the name of the file that it is to replace, with a number behind
    it.  Its path ends in that name, so the paths for different numbers lead to different
    locations, and one of the first is free (`exists_freeTemporaryPath`).

    The name of a file is read off its path as a text, and the path is followed part by part.
    Both agree where the path ends in a name at all (`fileName?_of_target`).
-/

namespace AssemblyLinker

namespace Path

/-! ## Parts -/

theorem parts_ne_nil (path : List Char) : parts path ≠ [] := by
  unfold parts
  split
  · simp
  · simp
  · split <;> simp

theorem parts_cons {c : Char} (hc : c ≠ '/') (path : List Char) :
    ∃ part others, parts path = part :: others ∧ parts (c :: path) = (c :: part) :: others := by
  obtain ⟨part, others, hparts⟩ := List.exists_cons_of_ne_nil (parts_ne_nil path)
  refine ⟨part, others, hparts, ?_⟩
  rw [parts, hparts]
  exact hc

/-- A slash separates parts. -/
theorem parts_append (before path : List Char) :
    parts (before ++ '/' :: path) = parts before ++ parts path := by
  induction before with
  | nil => rfl
  | cons c before ih =>
    by_cases hc : c = '/'
    · subst hc
      show [] :: parts (before ++ '/' :: path) = [] :: parts before ++ parts path
      rw [ih, List.cons_append]
    · obtain ⟨part, others, hbefore, hcons⟩ := parts_cons hc before
      obtain ⟨part', others', hall, hcons'⟩ := parts_cons hc (before ++ '/' :: path)
      rw [ih, hbefore, List.cons_append] at hall
      obtain ⟨rfl, rfl⟩ := List.cons.inj hall
      rw [List.cons_append, hcons', hcons, List.cons_append]

theorem parts_of_not_mem {name : List Char} (hname : '/' ∉ name) : parts name = [name] := by
  induction name with
  | nil => rfl
  | cons c name ih =>
    rw [List.mem_cons, not_or] at hname
    obtain ⟨part, others, hparts, hcons⟩ := parts_cons (Ne.symm hname.1) name
    rw [ih hname.2] at hparts
    obtain ⟨rfl, rfl⟩ := List.cons.inj hparts
    exact hcons

theorem not_mem_lastPart (path : List Char) : '/' ∉ lastPart path := by
  intro h
  unfold lastPart at h
  have hne := List.mem_takeWhile_imp (List.mem_reverse.1 h)
  simp at hne

/-- The parts of a path end in what follows its last slash. -/
theorem exists_parts (path : List Char) : ∃ before, parts path = before ++ [lastPart path] := by
  have hlast := parts_of_not_mem (not_mem_lastPart path)
  have hsplit : beforeLastPart path ++ lastPart path = path := by
    unfold beforeLastPart lastPart
    rw [← List.reverse_append, List.takeWhile_append_dropWhile, List.reverse_reverse]
  rcases hrest : path.reverse.dropWhile (· ≠ '/') with _ | ⟨c, rest⟩
  · -- there is no slash
    have hbefore : beforeLastPart path = [] := by rw [beforeLastPart, hrest, List.reverse_nil]
    rw [hbefore, List.nil_append] at hsplit
    rw [hsplit] at hlast ⊢
    exact ⟨[], hlast⟩
  · have hslash : c = '/' := by
      have hhead := List.head?_dropWhile_not (fun c => decide (c ≠ '/')) path.reverse
      rw [hrest] at hhead
      simpa using hhead
    have hbefore : beforeLastPart path = rest.reverse ++ ['/'] := by
      rw [beforeLastPart, hrest, List.reverse_cons, hslash]
    rw [hbefore, List.append_assoc, List.singleton_append] at hsplit
    refine ⟨parts rest.reverse, ?_⟩
    calc parts path
        = parts (rest.reverse ++ '/' :: lastPart path) := by rw [hsplit]
      _ = parts rest.reverse ++ [lastPart path] := by rw [parts_append, hlast]

theorem lastPart_of_parts {path name : List Char} {before : List (List Char)}
    (h : parts path = before ++ [name]) : lastPart path = name := by
  obtain ⟨before', hparts⟩ := exists_parts path
  rw [hparts] at h
  simpa using congrArg List.getLast? h

/-! ## Names of files -/

/-- Nothing is trimmed off a path that ends in a name. -/
theorem trimmed_of_lastPart {path : List Char} (hname : lastPart path ≠ [])
    (hdot : lastPart path ≠ ['.']) : trimmed path = path := by
  have hsame : dropTrailing path.reverse = path.reverse := by
    unfold lastPart at hname hdot
    unfold dropTrailing
    split
    next hreversed => simp [hreversed] at hname
    next hreversed => simp [hreversed] at hdot
    next hreversed => simp [hreversed] at hdot
    next => rfl
  rw [trimmed, hsame, List.reverse_reverse]

theorem fileName?_of_lastPart {path : List Char} (hname : lastPart path ≠ [])
    (hdot : lastPart path ≠ ['.']) (hdots : lastPart path ≠ ['.', '.']) :
    fileName? path = some (lastPart path) := by
  unfold fileName?
  rw [trimmed_of_lastPart hname hdot]
  simp [hname, hdots]

theorem not_mem_of_fileName? {path name : List Char} (h : fileName? path = some name) :
    '/' ∉ name := by
  unfold fileName? at h
  simp only at h
  split at h
  · cases h
  · cases h
    exact not_mem_lastPart _

/-- A name that is put behind a directory is the last part of the path. -/
theorem exists_parts_join {name : String} (hname : '/' ∉ name.toList) (dir : String) :
    ∃ before, parts (join dir name).toList = before ++ [name.toList] := by
  have hlast := parts_of_not_mem hname
  unfold join
  split
  · exact ⟨[], hlast⟩
  · split
    next hdir =>
      rcases hdir with rfl | hdir
      · exact ⟨[], by simpa using hlast⟩
      · obtain ⟨before, hbefore⟩ := List.getLast?_eq_some_iff.1 hdir
        refine ⟨parts before, ?_⟩
        rw [String.toList_append, hbefore, List.append_assoc, List.singleton_append, parts_append,
          hlast]
    next =>
      refine ⟨parts dir.toList, ?_⟩
      have hslash : (dir ++ "/" ++ name).toList = dir.toList ++ '/' :: name.toList := by simp
      rw [hslash, parts_append, hlast]

end Path

namespace FileSystem

variable {fs : FileSystem} {path dir name : String} {location : Location} {i j : Nat}

/-! ## Paths that end in a name -/

/-- The name that a path ends in is the name of its file, read off as a text. -/
theorem fileName?_of_target {directory : Location} {part : List Char}
    (htarget : fs.target path = .ok ⟨directory, some part, false⟩) (hname : isName part = true) :
    Path.fileName? path.toList = some part := by
  obtain ⟨before, hparts, hne, -⟩ := target_eq_ok_iff.1 htarget
  have hlast := Path.lastPart_of_parts hparts
  obtain ⟨hdot, hdots⟩ := isName_eq_true_iff.1 hname
  rw [← hlast] at hne hdot hdots ⊢
  exact Path.fileName?_of_lastPart hne hdot hdots

theorem exists_follow_of_concat {before : List (List Char)} {part : List Char} {start : Location}
    (h : fs.followAll start (before ++ [part]) = .ok location) :
    ∃ directory, fs.followAll start before = .ok directory ∧
      fs.follow directory part = .ok location := by
  rw [followAll_append] at h
  cases hbefore : fs.followAll start before with
  | error fault =>
    rw [hbefore] at h
    cases h
  | ok directory =>
    rw [hbefore] at h
    exact ⟨directory, rfl, (followAll_singleton part).symm.trans h⟩

/-- What a path leads to that ends in a name. -/
theorem exists_entry_of_resolve {before : List (List Char)} {part : List Char}
    (hparts : Path.parts path.toList = before ++ [part]) (hne : part ≠ [])
    (hname : isName part = true) (h : fs.resolve path = .ok location) :
    ∃ directory, location = directory ++ [String.ofList part] ∧
      (fs.node? location).isSome = true := by
  obtain ⟨_, -, h⟩ := exists_of_bind_ok h
  rw [hparts] at h
  obtain ⟨directory, -, hfollow⟩ := exists_follow_of_concat h
  obtain ⟨hdot, hdots⟩ := isName_eq_true_iff.1 hname
  have hdirectory := isDirectory_of_follow hfollow
  rw [follow, if_neg (by simp [hdirectory]), if_neg (by simp [hne, hdot]), if_neg hdots] at hfollow
  split at hfollow
  · cases hfollow
  next l hentry =>
    split at hfollow
    next hthere =>
      cases hfollow
      exact ⟨directory, (entry_eq_ok_iff.1 hentry).2.symm, hthere⟩
    next => cases hfollow

/-! ## Temporary paths -/

/-- The name of a temporary file. -/
def temporaryName (name : String) (i : Nat) : String := name ++ ".tmp" ++ toString i

theorem temporaryName_injective (h : temporaryName name i = temporaryName name j) : i = j := by
  have hlist := congrArg String.toList h
  simp only [temporaryName, String.toList_append, List.append_cancel_left_eq] at hlist
  have hdigits : Nat.toDigits 10 i = Nat.toDigits 10 j := by simpa using hlist
  have hnumber := congrArg (Nat.ofDigitChars 10 · 0) hdigits
  simpa [Nat.ofDigitChars_ten_toDigits] using hnumber

/-- A temporary file does not go by the name of the file that it is for. -/
theorem temporaryName_ne (name : String) (i : Nat) : temporaryName name i ≠ name := by
  intro h
  have hlength := congrArg String.length h
  simp only [temporaryName, String.length_append] at hlength
  have hmark : ".tmp".length = 4 := rfl
  omega

theorem temporaryName_isName (name : String) (i : Nat) :
    (temporaryName name i).toList ≠ [] ∧ isName (temporaryName name i).toList = true := by
  have hlength : 4 ≤ (temporaryName name i).toList.length := by
    have hmark : ".tmp".length = 4 := rfl
    simp only [temporaryName, String.length_toList, String.length_append]
    omega
  refine ⟨fun h => ?_, isName_eq_true_iff.2 ⟨fun h => ?_, fun h => ?_⟩⟩ <;>
    · rw [h] at hlength
      exact absurd hlength (by decide)

theorem not_mem_temporaryName (hname : '/' ∉ name.toList) : '/' ∉ (temporaryName name i).toList := by
  intro h
  simp only [temporaryName, String.toList_append, List.mem_append] at h
  rcases h with (h | h) | h
  · exact hname h
  · exact absurd h (by decide)
  · have hdigit : '/' ∈ Nat.toDigits 10 i := by simpa using h
    exact absurd (Json.isDigit_of_mem_toDigits hdigit) (by decide)

theorem exists_parts_temporaryPath (hname : '/' ∉ name.toList) (dir : String) (i : Nat) :
    ∃ before, Path.parts (temporaryPath dir name i).toList =
      before ++ [(temporaryName name i).toList] :=
  Path.exists_parts_join (not_mem_temporaryName hname) dir

/-- The temporary paths of different numbers do not lead to the same location. -/
theorem temporaryPath_location (hname : '/' ∉ name.toList)
    (h : fs.resolve (temporaryPath dir name i) = .ok location) :
    location.getLast? = some (temporaryName name i) ∧ location ∈ fs.nodes.map (·.1) := by
  obtain ⟨before, hparts⟩ := exists_parts_temporaryPath hname dir i
  obtain ⟨hne, hisName⟩ := temporaryName_isName name i
  obtain ⟨directory, rfl, hthere⟩ := exists_entry_of_resolve hparts hne hisName h
  refine ⟨by simp, ?_⟩
  rw [node?, if_neg (by simp), Option.isSome_iff_exists] at hthere
  obtain ⟨node, hnode⟩ := hthere
  exact List.mem_map_of_mem (mem_of_lookup hnode)

/-- One of the first temporary paths leads to nothing: a file system has not enough nodes for
    all of them. -/
theorem exists_free (fs : FileSystem) (hname : '/' ∉ name.toList) (dir : String) :
    ∃ i < fs.nodes.length + 1, fs.isThere (temporaryPath dir name i) = false := by
  by_contra hall
  push Not at hall
  have hthere : ∀ i, ∃ l, i < fs.nodes.length + 1 →
      fs.resolve (temporaryPath dir name i) = .ok l := by
    intro i
    by_cases hi : i < fs.nodes.length + 1
    · have hi' := hall i hi
      unfold isThere at hi'
      split at hi'
      next l hl => exact ⟨l, fun _ => hl⟩
      next => exact absurd rfl hi'
    · exact ⟨[], fun h => absurd h hi⟩
  choose place hplace using hthere
  -- the locations are different, and each of them has a node
  have hnodup : ((List.range (fs.nodes.length + 1)).map place).Nodup := by
    refine List.Nodup.map_on (fun i hi j hj hij => ?_) List.nodup_range
    have hi := temporaryPath_location hname (hplace i (List.mem_range.1 hi))
    have hj := temporaryPath_location hname (hplace j (List.mem_range.1 hj))
    rw [hij, hj.1] at hi
    exact temporaryName_injective (Option.some.inj hi.1).symm
  have hsubset : (List.range (fs.nodes.length + 1)).map place ⊆ fs.nodes.map (·.1) := by
    intro l hl
    obtain ⟨i, hi, rfl⟩ := List.mem_map.1 hl
    exact (temporaryPath_location hname (hplace i (List.mem_range.1 hi))).2
  have hlength := (List.subperm_of_subset hnodup hsubset).length_le
  simp only [List.length_map, List.length_range] at hlength
  omega

/-- A temporary path that is chosen leads to nothing. -/
theorem exists_freeTemporaryPath (fs : FileSystem) (hname : '/' ∉ name.toList) (dir : String) :
    ∃ i, fs.freeTemporaryPath dir name = temporaryPath dir name i ∧
      fs.isThere (temporaryPath dir name i) = false := by
  obtain ⟨i, hi, hfree⟩ := exists_free fs hname dir
  unfold freeTemporaryPath
  simp only
  cases hfind : (List.range (fs.nodes.length + 1)).find? fun i =>
      ¬ fs.isThere (temporaryPath dir name i) with
  | none =>
    have hnone := List.find?_eq_none.1 hfind i (List.mem_range.2 hi)
    simp [hfree] at hnone
  | some k =>
    have hk := List.find?_some hfind
    exact ⟨k, rfl, by simpa using hk⟩

end FileSystem

end AssemblyLinker
