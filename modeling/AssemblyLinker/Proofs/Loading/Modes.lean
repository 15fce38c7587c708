import AssemblyLinker.Proofs.Loading.Bundle
import AssemblyLinker.Proofs.Loading.Registration
import AssemblyLinker.Proofs.Locating.Preorder
import Mathlib.Logic.Relation

/-! # Bytecode modes of linked programs

    A linker asks every document that it opens for its own mode.  Assemblies come into a
    program in two other ways: an assembly with the name and uid of the document is the
    answer as it is, and so is the first assembly of the name of a reference.  Neither is
    asked for its mode.

    * Whatever a load opens is of the mode of its linker, so a program is of one mode if and
      only if the older assemblies in it are (`modes_agree_iff`).  They are if all loads so
      far were of one mode.
    * Otherwise modes do mix (`modes_mix`).
-/

namespace AssemblyLinker

/-! ## Programs -/

namespace Session

/-- An assembly has been linked to another, and so depends on it. -/
abbrev LinksTo (s : Session) : Handle → Handle → Prop := s.store.DependsOn

/-- A program includes its root, and what an assembly in it is linked to. -/
abbrev Includes (s : Session) : Handle → Handle → Prop := Relation.ReflTransGen s.LinksTo

/-- The mode of the assembly of a handle. -/
def mode? (s : Session) (h : Handle) : Option BytecodeMode := (s.store.get? h).map (·.mode)

/-- A handle stands for a program of one mode. -/
def OfMode (s : Session) (mode : BytecodeMode) (h : Handle) : Prop :=
  ∀ i, s.Includes h i → s.mode? i = some mode

variable {s t : Session}

/-- Where registered assemblies are complete, programs of registered assemblies are
    registered as a whole. -/
theorem Settled.includes {requests : List LoadRequest} (hsettled : s.Settled requests)
    {h i : Handle} (hh : h ∈ s.registry.handles)
    (hi : s.Includes h i) : i ∈ s.registry.handles := by
  induction hi with
  | refl => exact hh
  | tail _ hlink ih =>
    obtain ⟨a, ha, hd⟩ := hlink
    obtain ⟨e, he, hhandle⟩ := mem_handles.1 ih
    obtain ⟨b, hb, hcomplete, -⟩ := hsettled e he
    have hsame : b = a := by
      rw [hhandle, ha] at hb
      exact (Option.some.inj hb).symm
    subst hsame
    exact (hcomplete.provided _ hd).registered

theorem mode?_of_prefix (hle : s.store <+: t.store) {h : Handle} {mode : BytecodeMode}
    (hmode : s.mode? h = some mode) : t.mode? h = some mode := by
  obtain ⟨a, ha, hmode⟩ := Option.map_eq_some_iff.1 hmode
  have ha' : t.store.get? h = some a := Store.get?_of_prefix hle ha
  simp [mode?, ha', hmode]

end Session

/-! ## The modes of what is registered -/

section Modes

variable {s : Session}

/-- Of what is registered after a load, the entries from before it have kept their modes,
    and the others have the mode of its linker. -/
theorem LoadRequest.run_modes (r : LoadRequest) (hs : s.Sound) {h : Handle}
    (hh : h ∈ (r.run s).2.registry.handles) :
    (h ∈ s.registry.handles ∧ (r.run s).2.mode? h = s.mode? h) ∨
      (r.run s).2.mode? h = some r.linker.mode := by
  have hadvances := (LoadRequest.run_registers (r := r) hs).1
  obtain ⟨added, hentries, hadded⟩ := hadvances.entries
  obtain ⟨e, he, rfl⟩ := Session.mem_handles.1 hh
  rw [hentries] at he
  rcases List.mem_append.1 he with he | he
  · left
    obtain ⟨a, ha, -⟩ := hs.stored e he
    have hmode : s.mode? e.handle = some a.mode := by simp [Session.mode?, ha]
    exact ⟨Session.mem_handles.2 ⟨e, he, rfl⟩,
      (Session.mode?_of_prefix hadvances.store hmode).trans hmode.symm⟩
  · right
    obtain ⟨-, a, ha, -, hmode, -⟩ := hadded e he
    simp [Session.mode?, ha, hmode]

/-- Every registered assembly has the mode of one of the loads so far. -/
theorem Session.after_modes (requests : List LoadRequest) :
    ∀ h ∈ (Session.after requests).registry.handles,
      ∃ r ∈ requests, (Session.after requests).mode? h = some r.linker.mode := by
  induction requests using List.reverseRecOn with
  | nil =>
    intro h hh
    cases hh
  | append_singleton requests r ih =>
    intro h hh
    rw [Session.after_append] at hh ⊢
    rcases r.run_modes (Session.after_settled requests).1 hh with ⟨hold, hmode⟩ | hmode
    · obtain ⟨q, hq, hqmode⟩ := ih h hold
      exact ⟨q, List.mem_append_left _ hq, hmode.trans hqmode⟩
    · exact ⟨r, List.mem_append_right _ List.mem_cons_self, hmode⟩

end Modes

/-- After any series of loads by linkers of any modes: the program that a load yields is of
    the mode of its linker as a whole, if and only if every assembly in it that was
    registered before the load is of that mode.  So it is, if no load before was of another
    mode. -/
theorem modes_agree_iff (earlier : List LoadRequest) (r : LoadRequest) (h : Handle)
    (hok : (r.run (Session.after earlier)).1 = .ok h) :
    let s := Session.after earlier
    let t := (r.run s).2
    (t.OfMode r.linker.mode h ↔
      ∀ i ∈ s.registry.handles, t.Includes h i → s.mode? i = some r.linker.mode) ∧
    ((∀ q ∈ earlier, q.linker.mode = r.linker.mode) → t.OfMode r.linker.mode h) := by
  intro s t
  obtain ⟨hsound, hsettled⟩ := Session.after_settled earlier
  obtain ⟨hadvances, hanswers⟩ := LoadRequest.run_registers (r := r) hsound
  -- the program that has been loaded is registered as a whole
  have hroot : h ∈ t.registry.handles := by
    unfold Linker.Answers at hanswers
    rw [show r.run (Session.after earlier) = (.ok h, t) from Prod.ext hok rfl] at hanswers
    exact hanswers.1.registered
  have hregistered : ∀ i, t.Includes h i → i ∈ t.registry.handles := by
    intro i hi
    exact (hsettled.run hsound).includes hroot hi
  have hiff : t.OfMode r.linker.mode h ↔
      ∀ i ∈ s.registry.handles, t.Includes h i → s.mode? i = some r.linker.mode := by
    constructor
    · intro hmodes i hold hi
      obtain ⟨e, he, rfl⟩ := Session.mem_handles.1 hold
      obtain ⟨a, ha, -⟩ := hsound.stored e he
      have hmode : s.mode? e.handle = some a.mode := by simp [Session.mode?, s, ha]
      rw [hmode, ← hmodes _ hi]
      exact (Session.mode?_of_prefix hadvances.store hmode).symm
    · intro hmodes i hi
      rcases r.run_modes hsound (hregistered i hi) with ⟨hold, hmode⟩ | hmode
      · exact hmode.trans (hmodes i hold hi)
      · exact hmode
  refine ⟨hiff, fun hone => hiff.2 fun i hold _ => ?_⟩
  obtain ⟨q, hq, hmode⟩ := Session.after_modes earlier i hold
  exact hmode.trans (congrArg some (hone q hq))

/-! ### A program of two modes -/

section Mixing

/-- A library for some mode. -/
def fastLibrary (jit : Bool) : Document :=
  { name := "Fast", version := "1", uid := "Fast", loomConfig := "", jit, references := [],
    modules := [] }

/-- A program that refers to the library. -/
def mainProgram : Document :=
  { name := "Main", version := "1", uid := "Main", loomConfig := "", jit := false,
    references := [{ name := "Fast" }], modules := [] }

/-- The load of a document in the mode that it states. -/
def ownRequest (doc : Document) : LoadRequest :=
  { linker := { mode := doc.mode, maxDepth := 1 }, context := {}, text := doc.render, origin := "" }

theorem run_ownRequest {doc : Document} (hmodules : doc.modules = []) (s : Session) :
    (ownRequest doc).run s =
      (ownRequest doc).linker.accept ((ownRequest doc).linker.loadWithin 0) doc
        { s with context := {} } := by
  have hreadable : doc.Readable := by
    intro j hj
    rw [hmodules] at hj
    cases hj
  have hsame : doc.reread = doc := by
    unfold Document.reread
    rw [hmodules, Json.rereadItems, ← hmodules]
  have hload := (ownRequest doc).linker.loadWithin_render hreadable 0 ""
  have hdepth : (ownRequest doc).linker.maxDepth = 0 + 1 := rfl
  have htext : (ownRequest doc).text = doc.render := rfl
  have horigin : (ownRequest doc).origin = "" := rfl
  rw [LoadRequest.run, Linker.load, hdepth, htext, horigin, hload, hsame]
  rfl

/-- The session in which the library has been loaded. -/
def fastLinked (jit : Bool) : Session :=
  ((ownRequest (fastLibrary jit)).linker.accept
    ((ownRequest (fastLibrary jit)).linker.loadWithin 0) (fastLibrary jit) {}).2

theorem after_fastLibrary (jit : Bool) :
    Session.after [ownRequest (fastLibrary jit)] = fastLinked jit := by
  show ((ownRequest (fastLibrary jit)).run {}).2 = _
  rw [run_ownRequest rfl]
  rfl

/-- The program is linked to the library, whatever the mode of the library is. -/
theorem run_mainProgram (jit : Bool) :
    ((ownRequest mainProgram).run (fastLinked jit)).1 = .ok 1 ∧
      ((ownRequest mainProgram).run (fastLinked jit)).2.LinksTo 1 0 ∧
      ((ownRequest mainProgram).run (fastLinked jit)).2.mode? 0 = some (.ofJitFlag jit) := by
  rw [run_ownRequest rfl]
  cases jit with
  | false => exact ⟨rfl, ⟨_, rfl, List.mem_cons_self⟩, rfl⟩
  | true => exact ⟨rfl, ⟨_, rfl, List.mem_cons_self⟩, rfl⟩

/-- With a library of its own mode the program is of one mode. -/
theorem modes_agree_behind_interpreted :
    ((ownRequest mainProgram).run (Session.after [ownRequest (fastLibrary false)])).1 = .ok 1 ∧
      ((ownRequest mainProgram).run
        (Session.after [ownRequest (fastLibrary false)])).2.OfMode .interpreted 1 := by
  have hok : ((ownRequest mainProgram).run
      (Session.after [ownRequest (fastLibrary false)])).1 = .ok 1 := by
    rw [after_fastLibrary]
    exact (run_mainProgram false).1
  refine ⟨hok, (modes_agree_iff [ownRequest (fastLibrary false)] (ownRequest mainProgram) 1
    hok).2 fun q hq => ?_⟩
  rw [List.mem_singleton.1 hq]
  rfl

/-- A library that another linker has loaded comes into the program as it is. -/
theorem modes_mix :
    (ownRequest mainProgram).linker.mode = .interpreted ∧
      ((ownRequest mainProgram).run (Session.after [ownRequest (fastLibrary true)])).1 = .ok 1 ∧
      ¬ ((ownRequest mainProgram).run
        (Session.after [ownRequest (fastLibrary true)])).2.OfMode .interpreted 1 := by
  rw [after_fastLibrary]
  obtain ⟨hok, hlink, hmode⟩ := run_mainProgram true
  refine ⟨rfl, hok, fun hmodes => ?_⟩
  have hinterpreted := hmodes 0 (.single hlink)
  rw [hmode] at hinterpreted
  cases hinterpreted

end Mixing

end AssemblyLinker
