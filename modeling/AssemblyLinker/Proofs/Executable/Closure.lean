import AssemblyLinker.Executable
import AssemblyLinker.Proofs.Loading.Texts
import Mathlib.Algebra.Order.BigOperators.Group.List
import Mathlib.Data.List.Nodup

/-! # The libraries of an executable

    A name is needed by a root if the root refers to it, or the text of a needed name does
    (`Needed`).  The walk through the libraries is compared with this least set of names.

    * **One visit** does one of three things: it passes over a name that it knows, it takes
      a library in, or it stops at a name without a library (`Visited`).
    * **The invariant** says that whatever the walk knows is needed, and that everything that
      the libraries taken in refer to is known (`Walk.Follows`).
    * **The measure** is the length of the queue, and as much again for each candidate that
      has not been taken in; every visit lowers it, so the walk has steps enough
      (`walk_ends`).

    So the walk yields the texts of exactly the needed names, if each of them has a library,
    and stops otherwise (`closure_ends`).
-/

namespace AssemblyLinker.Executable

/-! ## What is needed -/

section Needs

variable (files : FileSystem) (ctx : LoadContext)

/-- The text of a name: the document that the bootstrap has for it, or else its first library
    file.  There is none where the search for a file ends in a fault. -/
def textOf? (name : String) : Option String :=
  match ctx.bootstrapDocument? name with
  | some text => some text
  | none =>
    match ctx.findLibrary files name with
    | .ok (some (_, text)) => some text
    | _ => none

/-- The names that a root needs. -/
inductive Needed (root : Document) : String → Prop where
  | direct {name : String} (referenced : name ∈ root.references.map (·.name)) : Needed root name
  | indirect {owner text name : String} (needed : Needed root owner)
      (found : textOf? files ctx owner = some text)
      (referenced : name ∈ referencedNames text) : Needed root name

/-- A name has a text, which is the document of a library in a mode. -/
structure Ships (jit : Bool) (name text : String) (library : Document) : Prop where
  found : textOf? files ctx name = some text
  parsed : Document.parse text name = .ok library
  mode : library.jit = jit

end Needs

variable {files : FileSystem} {ctx : LoadContext} {root : Document} {jit : Bool}
  {name text : String} {library : Document} {need : Need} {w w' : Walk}

theorem provide_eq_ok_iff :
    provide files ctx need = .ok text ↔ textOf? files ctx need.name = some text := by
  unfold provide textOf?
  cases ctx.bootstrapDocument? need.name with
  | some found => simp
  | none =>
    simp only
    rcases ctx.findLibrary files need.name with e | _ | ⟨path, found⟩ <;> simp

/-- The text of a name is one that the bootstrap or a file holds. -/
theorem mem_of_textOf? (h : textOf? files ctx name = some text) :
    text ∈ (ctx.bootstrap.getD []).map (·.2) ++ files.texts := by
  unfold textOf? at h
  split at h
  next hbootstrap =>
    cases h
    apply List.mem_append_left
    obtain ⟨b, hb, hlookup⟩ := Option.bind_eq_some_iff.1 hbootstrap
    rw [hb]
    exact List.mem_map_of_mem (mem_of_lookup hlookup)
  next =>
    split at h
    next hfound =>
      cases h
      exact List.mem_append_right _ (LoadContext.mem_of_findLibraryIn hfound)
    next => cases h

theorem referencedNames_of_parse {origin : String} (h : Document.parse text origin = .ok library) :
    referencedNames text = library.references.map (·.name) := by
  unfold referencedNames
  rw [Document.parse_origin h ""]

/-- Whatever is needed is a candidate. -/
theorem Needed.mem_candidates (h : Needed files ctx root name) :
    name ∈ candidates files ctx root := by
  cases h with
  | direct referenced => exact List.mem_append_left _ referenced
  | indirect needed found referenced =>
    apply List.mem_append_right
    exact List.mem_flatMap.2 ⟨_, mem_of_textOf? found, referenced⟩

/-- A library refers to no more names than there are candidates. -/
theorem Ships.references_length_le (h : Ships files ctx jit name text library) :
    library.references.length ≤ (candidates files ctx root).length := by
  have hnames := referencedNames_of_parse h.parsed
  calc library.references.length
      = (referencedNames text).length := by rw [hnames, List.length_map]
    _ ≤ (((ctx.bootstrap.getD []).map (·.2) ++ files.texts).flatMap referencedNames).length := by
        rw [List.length_flatMap]
        apply List.le_sum_of_mem
        exact List.mem_map.2 ⟨text, mem_of_textOf? h.found, rfl⟩
    _ ≤ (candidates files ctx root).length := by
        rw [candidates, List.length_append]
        exact Nat.le_add_left _ _

/-! ## One visit -/

/-- The names of the libraries that a walk has taken in. -/
def Walk.names (w : Walk) : List String := w.payloads.map (·.1)

/-- The names that a walk has come upon. -/
def Walk.Knows (w : Walk) (name : String) : Prop :=
  name ∈ w.names ∨ name ∈ w.queue.map (·.name)

/-- The ways in which a need is looked at. -/
inductive Visited (files : FileSystem) (ctx : LoadContext) (jit : Bool) (need : Need) (w : Walk) :
    Except LinkError Walk → Prop where
  | known (seen : need.name ∈ w.names) : Visited files ctx jit need w (.ok w)
  | taken (text : String) (library : Document) (fresh : need.name ∉ w.names)
      (ships : Ships files ctx jit need.name text library) :
      Visited files ctx jit need w
        (.ok { queue := w.queue ++ needsOf need.name library,
               payloads := w.payloads ++ [(need.name, text)] })
  | missing (e : LinkError) (unshipped : ∀ text library, ¬ Ships files ctx jit need.name text library) :
      Visited files ctx jit need w (.error e)

theorem lookup_isSome_iff {payloads : List (String × String)} :
    (payloads.lookup name).isSome = true ↔ name ∈ payloads.map (·.1) := by
  induction payloads with
  | nil => simp
  | cons p rest ih =>
    obtain ⟨key, value⟩ := p
    by_cases hname : name = key
    · simp [hname]
    · have hne : (name == key) = false := by simpa using hname
      simp only [List.lookup_cons, hne, ih, List.map_cons, List.mem_cons, hname, false_or]

theorem visited (files : FileSystem) (ctx : LoadContext) (jit : Bool) (need : Need) (w : Walk) :
    Visited files ctx jit need w (visit files ctx jit need w) := by
  unfold visit
  by_cases hseen : need.name ∈ w.names
  · rw [if_pos (lookup_isSome_iff.2 hseen)]
    exact .known hseen
  · rw [if_neg fun hsome => hseen (lookup_isSome_iff.1 hsome)]
    cases hprovide : provide files ctx need with
    | error e =>
      refine .missing e ?_
      intro text library hships
      rw [provide_eq_ok_iff.2 hships.found] at hprovide
      cases hprovide
    | ok text =>
      have hfound := provide_eq_ok_iff.1 hprovide
      -- the text of the name is fixed, so it is this one that has to be a library
      have hunique : ∀ text' library, Ships files ctx jit need.name text' library →
          Document.parse text need.name = .ok library ∧ library.jit = jit := by
        intro text' library hships
        have htext : text = text' := Option.some.inj (hfound.symm.trans hships.found)
        rw [htext]
        exact ⟨hships.parsed, hships.mode⟩
      cases hparse : Document.parse text need.name with
      | error e =>
        simp only [readLibrary, hparse]
        refine .missing e ?_
        intro text' library hships
        have hok := (hunique text' library hships).1
        rw [hparse] at hok
        cases hok
      | ok library =>
        by_cases hmode : library.jit = jit
        · simp only [readLibrary, hparse, hmode, ↓reduceIte]
          exact .taken text library hseen ⟨hfound, hparse, hmode⟩
        · simp only [readLibrary, hparse, hmode, ↓reduceIte]
          refine .missing _ ?_
          intro text' library' hships
          obtain ⟨hok, hmode'⟩ := hunique text' library' hships
          rw [hparse] at hok
          cases hok
          exact hmode hmode'

/-! ## The invariant -/

/-- What a walk knows is needed, what it has taken in are the libraries of their names, and
    it knows all that they and the root refer to. -/
structure Walk.Follows (files : FileSystem) (ctx : LoadContext) (root : Document) (w : Walk) :
    Prop where
  needed : ∀ name, w.Knows name → Needed files ctx root name
  rooted : ∀ r ∈ root.references, w.Knows r.name
  distinct : w.names.Nodup
  shipped : ∀ p ∈ w.payloads, ∃ library, Ships files ctx root.jit p.1 p.2 library ∧
    ∀ r ∈ library.references, w.Knows r.name

/-- How much is left to do: what is in the queue, and as many needs as there are candidates
    for each library that may still be taken in. -/
def Walk.weight (files : FileSystem) (ctx : LoadContext) (root : Document) (w : Walk) : Nat :=
  let n := (candidates files ctx root).length
  w.queue.length + n * (n - w.payloads.length)

theorem Walk.queue_eq_nil (h : w.weight files ctx root = 0) : w.queue = [] := by
  simp only [Walk.weight] at h
  exact List.eq_nil_of_length_eq_zero (by omega)

theorem follows_start : Walk.Follows files ctx root { queue := needsOf root.name root } := by
  have hqueue : (needsOf root.name root).map (·.name) = root.references.map (·.name) := by
    simp [needsOf]
  refine ⟨?_, ?_, List.nodup_nil, ?_⟩
  · intro name hknown
    rcases hknown with hnames | hqueued
    · cases hnames
    · exact .direct (hqueue ▸ hqueued)
  · intro r hr
    exact .inr (hqueue ▸ List.mem_map_of_mem hr)
  · intro p hp
    cases hp

/-- No walk takes in more libraries than there are candidates. -/
theorem Walk.Follows.payloads_length_le (h : w.Follows files ctx root) :
    w.payloads.length ≤ (candidates files ctx root).length := by
  have hsubset : w.names ⊆ candidates files ctx root := by
    intro name hname
    exact (h.needed name (.inl hname)).mem_candidates
  have hle := h.distinct.length_le_of_subset hsubset
  rwa [Walk.names, List.length_map] at hle

/-- What is known before a visit is the need that it looks at, and what is known without it. -/
theorem Walk.knows_iff {rest : List Need} (hqueue : w.queue = need :: rest) {name : String} :
    w.Knows name ↔ name = need.name ∨ Walk.Knows { w with queue := rest } name := by
  simp only [Walk.Knows, hqueue, List.map_cons, List.mem_cons, Walk.names]
  tauto

/-- A need that is known already is passed over. -/
theorem Walk.Follows.pass {rest : List Need} (h : w.Follows files ctx root)
    (hqueue : w.queue = need :: rest) (hseen : need.name ∈ w.names) :
    Walk.Follows files ctx root { w with queue := rest } := by
  have hsame : ∀ name, w.Knows name ↔ Walk.Knows { w with queue := rest } name := by
    intro name
    rw [Walk.knows_iff hqueue]
    constructor
    · rintro (rfl | hname)
      · exact .inl hseen
      · exact hname
    · exact .inr
  refine ⟨?_, ?_, h.distinct, ?_⟩
  · intro name hname
    exact h.needed name ((hsame name).2 hname)
  · intro r hr
    exact (hsame _).1 (h.rooted r hr)
  · intro p hp
    obtain ⟨library, hships, hreferences⟩ := h.shipped p hp
    exact ⟨library, hships, fun r hr => (hsame _).1 (hreferences r hr)⟩

/-- The library of a need is taken in, and what it refers to is known from then on. -/
theorem Walk.Follows.take {rest : List Need} (h : w.Follows files ctx root)
    (hqueue : w.queue = need :: rest) (hfresh : need.name ∉ w.names)
    (hships : Ships files ctx root.jit need.name text library) :
    Walk.Follows files ctx root
      ⟨rest ++ needsOf need.name library, w.payloads ++ [(need.name, text)]⟩ := by
  have hgrown : ∀ name, Walk.Knows ⟨rest ++ needsOf need.name library,
      w.payloads ++ [(need.name, text)]⟩ name ↔
        w.Knows name ∨ name ∈ library.references.map (·.name) := by
    intro name
    simp only [Walk.knows_iff hqueue]
    simp only [Walk.Knows, Walk.names, needsOf, List.map_append, List.mem_append, List.map_cons,
      List.map_nil, List.mem_cons, List.not_mem_nil, or_false, List.map_map, Function.comp_def]
    tauto
  -- the names in the library are needed because its own name is
  have hneeded : Needed files ctx root need.name :=
    h.needed need.name ((Walk.knows_iff hqueue).2 (.inl rfl))
  refine ⟨?_, ?_, ?_, ?_⟩
  · intro name hname
    rcases (hgrown name).1 hname with hname | hname
    · exact h.needed name hname
    · refine .indirect hneeded hships.found ?_
      rwa [referencedNames_of_parse hships.parsed]
  · intro r hr
    exact (hgrown _).2 (.inl (h.rooted r hr))
  · have hnames : Walk.names ⟨rest ++ needsOf need.name library,
        w.payloads ++ [(need.name, text)]⟩ = w.names ++ [need.name] := by
      simp [Walk.names]
    rw [hnames]
    exact h.distinct.append (List.nodup_singleton _) (List.disjoint_singleton.2 hfresh)
  · intro p hp
    rcases List.mem_append.1 hp with hp | hp
    · obtain ⟨library', hships', hreferences⟩ := h.shipped p hp
      exact ⟨library', hships', fun r hr => (hgrown _).2 (.inl (hreferences r hr))⟩
    · rw [List.mem_singleton.1 hp]
      exact ⟨library, hships, fun r hr => (hgrown _).2 (.inr (List.mem_map_of_mem hr))⟩

/-- One visit keeps the invariant and lowers the measure. -/
theorem Walk.Follows.visit {rest : List Need} (h : w.Follows files ctx root)
    (hqueue : w.queue = need :: rest)
    (hvisited : Visited files ctx root.jit need { w with queue := rest } (.ok w')) :
    w'.Follows files ctx root ∧ w'.weight files ctx root < w.weight files ctx root := by
  cases hvisited with
  | known seen =>
    refine ⟨h.pass hqueue seen, ?_⟩
    simp only [Walk.weight, hqueue, List.length_cons]
    omega
  | taken text library fresh ships =>
    have hfollows := h.take hqueue fresh ships
    refine ⟨hfollows, ?_⟩
    -- the queue grows by one library at most, and one library less is left to be taken in
    have hlength : library.references.length ≤ (candidates files ctx root).length :=
      ships.references_length_le
    have hle := hfollows.payloads_length_le
    simp only [List.length_append, List.length_singleton] at hle
    simp only [Walk.weight, hqueue, List.length_cons, List.length_append, List.length_nil, needsOf,
      List.length_map, Nat.zero_add]
    generalize (candidates files ctx root).length = n at hlength hle ⊢
    have hsplit : n - w.payloads.length = n - (w.payloads.length + 1) + 1 := by omega
    rw [hsplit, Nat.mul_succ]
    omega

/-! ## The whole walk -/

/-- The texts of exactly the needed names, each of them a library. -/
structure Gathers (files : FileSystem) (ctx : LoadContext) (root : Document)
    (payloads : List (String × String)) : Prop where
  distinct : (payloads.map (·.1)).Nodup
  shipped : ∀ p ∈ payloads, Needed files ctx root p.1 ∧
    ∃ library, Ships files ctx root.jit p.1 p.2 library
  complete : ∀ name, Needed files ctx root name → name ∈ payloads.map (·.1)

/-- With an empty queue the libraries that have been taken in are all that are needed. -/
theorem Walk.Follows.gathers (h : w.Follows files ctx root) (hqueue : w.queue = []) :
    Gathers files ctx root w.payloads := by
  have hknown : ∀ name, w.Knows name → name ∈ w.names := by
    intro name hname
    rcases hname with hname | hname
    · exact hname
    · rw [hqueue] at hname
      cases hname
  refine ⟨h.distinct, ?_, ?_⟩
  · intro p hp
    obtain ⟨library, hships, -⟩ := h.shipped p hp
    exact ⟨h.needed p.1 (.inl (List.mem_map_of_mem hp)), library, hships⟩
  · -- a name that is needed is known by the library that refers to it, back to the root
    intro name hneeded
    induction hneeded with
    | direct referenced =>
      obtain ⟨r, hr, rfl⟩ := List.mem_map.1 referenced
      exact hknown _ (h.rooted r hr)
    | indirect _ found referenced ih =>
      obtain ⟨p, hp, rfl⟩ := List.mem_map.1 ih
      obtain ⟨library, hships, hreferences⟩ := h.shipped p hp
      have htext := Option.some.inj (found.symm.trans hships.found)
      rw [htext, referencedNames_of_parse hships.parsed] at referenced
      obtain ⟨r, hr, rfl⟩ := List.mem_map.1 referenced
      exact hknown _ (hreferences r hr)

/-- How a walk may end: with the texts of all names that are needed, or at a name without a
    library. -/
def Ends (files : FileSystem) (ctx : LoadContext) (root : Document) :
    Except LinkError (List (String × String)) → Prop
  | .ok payloads => Gathers files ctx root payloads
  | .error _ => ∃ name, Needed files ctx root name ∧
      ∀ text library, ¬ Ships files ctx root.jit name text library

/-- A walk with as many steps as its weight comes to its end. -/
theorem walk_ends (steps : Nat) (w : Walk) (h : w.Follows files ctx root)
    (hweight : w.weight files ctx root ≤ steps) :
    Ends files ctx root (walk files ctx root.jit steps w) := by
  induction steps generalizing w with
  | zero => exact h.gathers (Walk.queue_eq_nil (Nat.eq_zero_of_le_zero hweight))
  | succ steps ih =>
    unfold walk
    cases hqueue : w.queue with
    | nil => exact h.gathers hqueue
    | cons need rest =>
      have hvisited := visited files ctx root.jit need { w with queue := rest }
      simp only
      generalize visit files ctx root.jit need { w with queue := rest } = result at hvisited
      cases result with
      | error e =>
        cases hvisited with
        | missing _ unshipped =>
          have hknown : w.Knows need.name := by
            refine .inr ?_
            rw [hqueue]
            exact List.mem_cons_self
          exact ⟨need.name, h.needed _ hknown, unshipped⟩
      | ok w' =>
        -- a visit keeps the invariant and takes weight away
        obtain ⟨hfollows, hlt⟩ := h.visit hqueue hvisited
        exact ih w' hfollows (by omega)

/-- At its start a walk weighs no more than it is given steps. -/
theorem weight_start_le (files : FileSystem) (ctx : LoadContext) (root : Document) :
    Walk.weight files ctx root { queue := needsOf root.name root } ≤ stepBound files ctx root := by
  have hle : root.references.length ≤ (candidates files ctx root).length := by
    rw [candidates, List.length_append, List.length_map]
    exact Nat.le_add_right _ _
  simp only [Walk.weight, needsOf, List.length_map, List.length_nil, Nat.sub_zero, stepBound]
  nlinarith

theorem closure_ends (files : FileSystem) (ctx : LoadContext) (root : Document) :
    Ends files ctx root (closure files ctx root) :=
  walk_ends _ _ follows_start (weight_start_le files ctx root)

/-- The walk yields texts if and only if every needed name has a library. -/
theorem closure_isOk_iff : (∃ payloads, closure files ctx root = .ok payloads) ↔
    ∀ name, Needed files ctx root name → ∃ text library, Ships files ctx root.jit name text library := by
  have hends := closure_ends files ctx root
  constructor
  · rintro ⟨payloads, hok⟩ name hneeded
    rw [hok] at hends
    obtain ⟨p, hp, rfl⟩ := List.mem_map.1 (hends.complete name hneeded)
    obtain ⟨-, library, hships⟩ := hends.shipped p hp
    exact ⟨p.2, library, hships⟩
  · intro hall
    cases hresult : closure files ctx root with
    | ok payloads => exact ⟨payloads, rfl⟩
    | error e =>
      rw [hresult] at hends
      obtain ⟨name, hneeded, hnone⟩ := hends
      obtain ⟨text, library, hships⟩ := hall name hneeded
      exact absurd hships (hnone text library)

theorem Gathers.of_closure {payloads : List (String × String)}
    (h : closure files ctx root = .ok payloads) : Gathers files ctx root payloads := by
  have hends := closure_ends files ctx root
  rw [h] at hends
  exact hends

/-- A text has been gathered for a name if and only if the name is needed and the text is
    its text. -/
theorem Gathers.lookup_eq_some_iff {payloads : List (String × String)}
    (h : Gathers files ctx root payloads) : payloads.lookup name = some text ↔
      Needed files ctx root name ∧ textOf? files ctx name = some text := by
  have hmem : ∀ text', payloads.lookup name = some text' →
      Needed files ctx root name ∧ textOf? files ctx name = some text' := by
    intro text' hlookup
    obtain ⟨hneeded, library, hships⟩ := h.shipped _ (mem_of_lookup hlookup)
    exact ⟨hneeded, hships.found⟩
  constructor
  · exact hmem text
  · rintro ⟨hneeded, htext⟩
    have hsome := lookup_isSome_iff.2 (h.complete name hneeded)
    obtain ⟨text', htext'⟩ := Option.isSome_iff_exists.1 hsome
    rw [htext', ← htext, (hmem text' htext').2]

end AssemblyLinker.Executable
