import AssemblyLinker.Proofs.Executable.Closure

/-! # The walk through the libraries comes to an end

    `walk` is told how many steps it may take.  Here the same rounds are a relation that
    knows of no limit, and that keeps the names that a round has looked for in the bootstrap
    and on the search path:

    * **A round** (`Round`) takes the first need off the queue.  A name that is known already
      is dropped without being looked up; any other name is looked up, and its library is
      taken in, or the walk stops there.
    * **A run** (`Runs`) is one round after the other until the queue is empty or a round
      stops.  A walk has one run at most (`Runs.unique`).
    * **Each name once**: a round looks up only what is not known, and what has been looked
      up is known from then on (`Runs.looked_nodup`).
    * **The end**: the measure of a walk bounds the rounds of its run, whatever refers to
      whatever (`Walk.Follows.runs`).

    `link_terminates` puts this together for every root text, context and file system.
-/

namespace AssemblyLinker.Executable

variable {files : FileSystem} {ctx : LoadContext} {root : Document} {jit : Bool}
  {need : Need} {w w' : Walk} {looked : List String} {rounds : Nat}

/-! ## Rounds -/

/-- One round of the walk: the names that it looks up, and what becomes of the walk. -/
inductive Round (files : FileSystem) (ctx : LoadContext) (jit : Bool) :
    Walk → List String → Except LinkError Walk → Prop where
  | known {w : Walk} {need : Need} {rest : List Need} (queue : w.queue = need :: rest)
      (seen : need.name ∈ w.names) :
      Round files ctx jit w [] (.ok { w with queue := rest })
  | missing {w : Walk} {need : Need} {rest : List Need} {e : LinkError}
      (queue : w.queue = need :: rest) (fresh : need.name ∉ w.names)
      (unprovided : provide files ctx need = .error e) :
      Round files ctx jit w [need.name] (.error e)
  | refused {w : Walk} {need : Need} {rest : List Need} {text : String} {e : LinkError}
      (queue : w.queue = need :: rest) (fresh : need.name ∉ w.names)
      (provided : provide files ctx need = .ok text)
      (unread : readLibrary jit need.name text = .error e) :
      Round files ctx jit w [need.name] (.error e)
  | taken {w : Walk} {need : Need} {rest : List Need} {text : String} {library : Document}
      (queue : w.queue = need :: rest) (fresh : need.name ∉ w.names)
      (provided : provide files ctx need = .ok text)
      (read : readLibrary jit need.name text = .ok library) :
      Round files ctx jit w [need.name]
        (.ok { queue := rest ++ needsOf need.name library,
               payloads := w.payloads ++ [(need.name, text)] })

/-- A walk with a need in its queue has a round, which is a visit. -/
theorem round_visit (files : FileSystem) (ctx : LoadContext) (jit : Bool) {rest : List Need}
    (hqueue : w.queue = need :: rest) :
    ∃ looked, Round files ctx jit w looked (visit files ctx jit need { w with queue := rest }) := by
  unfold visit
  by_cases hseen : need.name ∈ w.names
  · rw [if_pos (lookup_isSome_iff.2 hseen)]
    exact ⟨_, .known hqueue hseen⟩
  · rw [if_neg fun hsome => hseen (lookup_isSome_iff.1 hsome)]
    refine ⟨[need.name], ?_⟩
    cases hprovide : provide files ctx need with
    | error e => exact .missing hqueue hseen hprovide
    | ok text =>
      cases hread : readLibrary jit need.name text with
      | error e =>
        simp only [hread]
        exact .refused hqueue hseen hprovide hread
      | ok library =>
        simp only [hread]
        exact .taken hqueue hseen hprovide hread

theorem Round.queue_ne_nil {result : Except LinkError Walk}
    (h : Round files ctx jit w looked result) : w.queue ≠ [] := by
  cases h <;> simp_all

/-- A walk has one round only. -/
theorem Round.unique {looked₁ looked₂ : List String} {result₁ result₂ : Except LinkError Walk}
    (h₁ : Round files ctx jit w looked₁ result₁) (h₂ : Round files ctx jit w looked₂ result₂) :
    looked₁ = looked₂ ∧ result₁ = result₂ := by
  cases h₁ <;> cases h₂ <;> simp_all

/-- A round looks up one name at most, one that is not known yet, and knows it afterwards. -/
theorem Round.looked_fresh {result : Except LinkError Walk}
    (h : Round files ctx jit w looked result) :
    looked.Nodup ∧ (∀ name ∈ looked, name ∉ w.names) ∧
      ∀ w', result = .ok w' → w'.names = w.names ++ looked := by
  cases h with
  | known queue seen =>
    refine ⟨List.nodup_nil, by simp, ?_⟩
    rintro w' ⟨⟩
    simp [Walk.names]
  | missing queue fresh unprovided =>
    refine ⟨List.nodup_singleton _, by simpa using fresh, ?_⟩
    rintro w' ⟨⟩
  | refused queue fresh provided unread =>
    refine ⟨List.nodup_singleton _, by simpa using fresh, ?_⟩
    rintro w' ⟨⟩
  | taken queue fresh provided read =>
    refine ⟨List.nodup_singleton _, by simpa using fresh, ?_⟩
    rintro w' ⟨⟩
    simp [Walk.names]

/-- Every name that a round looks up is in the queue. -/
theorem Round.looked_queued {result : Except LinkError Walk}
    (h : Round files ctx jit w looked result) {name : String} (hname : name ∈ looked) :
    name ∈ w.queue.map (·.name) := by
  cases h <;> simp_all

/-! ## Runs -/

/-- The rounds of a walk up to its end: how many there are, the names that they look up in
    turn, and what the walk yields. -/
inductive Runs (files : FileSystem) (ctx : LoadContext) (jit : Bool) :
    Walk → Nat → List String → Except LinkError (List (String × String)) → Prop where
  | done {w : Walk} (queue : w.queue = []) : Runs files ctx jit w 0 [] (.ok w.payloads)
  | stopped {w : Walk} {looked : List String} {e : LinkError}
      (round : Round files ctx jit w looked (.error e)) :
      Runs files ctx jit w 1 looked (.error e)
  | further {w w' : Walk} {rounds : Nat} {looked looked' : List String}
      {result : Except LinkError (List (String × String))}
      (round : Round files ctx jit w looked (.ok w'))
      (rest : Runs files ctx jit w' rounds looked' result) :
      Runs files ctx jit w (rounds + 1) (looked ++ looked') result

variable {result : Except LinkError (List (String × String))}

/-- A walk has one run at most. -/
theorem Runs.unique {rounds' : Nat} {looked' : List String}
    {result' : Except LinkError (List (String × String))}
    (h : Runs files ctx jit w rounds looked result)
    (h' : Runs files ctx jit w rounds' looked' result') :
    rounds' = rounds ∧ looked' = looked ∧ result' = result := by
  induction h generalizing rounds' looked' result' with
  | done queue =>
    cases h' with
    | done _ => exact ⟨rfl, rfl, rfl⟩
    | stopped round => exact absurd queue round.queue_ne_nil
    | further round _ => exact absurd queue round.queue_ne_nil
  | stopped round =>
    cases h' with
    | done queue => exact absurd queue round.queue_ne_nil
    | stopped round' =>
      obtain ⟨rfl, hresult⟩ := round.unique round'
      cases hresult
      exact ⟨rfl, rfl, rfl⟩
    | further round' _ => exact nomatch (round.unique round').2
  | further round rest ih =>
    cases h' with
    | done queue => exact absurd queue round.queue_ne_nil
    | stopped round' => exact nomatch (round.unique round').2
    | further round' rest' =>
      obtain ⟨rfl, hresult⟩ := round.unique round'
      cases hresult
      obtain ⟨rfl, rfl, rfl⟩ := ih rest'
      exact ⟨rfl, rfl, rfl⟩

/-- No run looks up a name twice, or one that is known at its start. -/
theorem Runs.looked_nodup (h : Runs files ctx jit w rounds looked result) :
    looked.Nodup ∧ ∀ name ∈ looked, name ∉ w.names := by
  induction h with
  | done _ => exact ⟨List.nodup_nil, by simp⟩
  | stopped round =>
    obtain ⟨hnodup, hfresh, -⟩ := round.looked_fresh
    exact ⟨hnodup, hfresh⟩
  | further round rest ih =>
    obtain ⟨hnodup, hfresh, hnames⟩ := round.looked_fresh
    obtain ⟨hnodup', hfresh'⟩ := ih
    have hgrown := hnames _ rfl
    -- what the first round looks up is known to those that come after it
    refine ⟨hnodup.append hnodup' ?_, ?_⟩
    · intro name hname hname'
      apply hfresh' name hname'
      rw [hgrown]
      exact List.mem_append_right _ hname
    · intro name hname hseen
      rcases List.mem_append.1 hname with hname | hname
      · exact hfresh name hname hseen
      · apply hfresh' name hname
        rw [hgrown]
        exact List.mem_append_left _ hseen

/-! ## The end of a run -/

/-- A walk that knows only what is needed has a run.  It takes no more rounds than the walk
    weighs, looks up needed names only, and yields what the walk yields in so many steps. -/
theorem Walk.Follows.runs (steps : Nat) (h : w.Follows files ctx root)
    (hweight : w.weight files ctx root ≤ steps) :
    ∃ rounds looked, Runs files ctx root.jit w rounds looked (walk files ctx root.jit steps w) ∧
      rounds ≤ w.weight files ctx root ∧ ∀ name ∈ looked, Needed files ctx root name := by
  induction steps generalizing w with
  | zero =>
    have hqueue : w.queue = [] := Walk.queue_eq_nil (Nat.eq_zero_of_le_zero hweight)
    exact ⟨0, [], .done hqueue, Nat.zero_le _, by simp⟩
  | succ steps ih =>
    unfold walk
    cases hqueue : w.queue with
    | nil => exact ⟨0, [], .done hqueue, Nat.zero_le _, by simp⟩
    | cons need rest =>
      obtain ⟨looked, hround⟩ := round_visit files ctx root.jit hqueue
      have hneeded : ∀ name ∈ looked, Needed files ctx root name := by
        intro name hname
        exact h.needed name (.inr (hround.looked_queued hname))
      have hvisited := visited files ctx root.jit need { w with queue := rest }
      simp only
      generalize Executable.visit files ctx root.jit need { w with queue := rest } = outcome
        at hround hvisited
      cases outcome with
      | error e =>
        refine ⟨1, looked, .stopped hround, ?_, hneeded⟩
        simp only [Walk.weight, hqueue, List.length_cons]
        omega
      | ok w' =>
        -- the visit takes weight away, so the steps that are left are enough for the others
        obtain ⟨hfollows, hlt⟩ := h.visit hqueue hvisited
        obtain ⟨rounds, looked', hruns, hrounds, hneeded'⟩ := ih hfollows (by omega)
        refine ⟨rounds + 1, looked ++ looked', .further hround hruns, by omega, ?_⟩
        intro name hname
        rcases List.mem_append.1 hname with hname | hname
        · exact hneeded name hname
        · exact hneeded' name hname

/-! ## Making an executable -/

/-- Making an executable, with a run of the walk in place of `closure`: how many rounds there
    are, which names are looked up, and what comes out. -/
inductive Makes (files : FileSystem) (ctx : LoadContext) (text : String) :
    Nat → List String → Except LinkError String → Prop where
  | unread {e : LinkError} (refused : Document.parse text rootOrigin = .error e) :
      Makes files ctx text 0 [] (.error e)
  | walked {root : Document} {rounds : Nat} {looked : List String}
      {outcome : Except LinkError (List (String × String))}
      (parsed : Document.parse text rootOrigin = .ok root)
      (runs : Runs files ctx root.jit { queue := needsOf root.name root } rounds looked outcome) :
      Makes files ctx text rounds looked
        (outcome.map fun payloads => (embed root payloads).render)

variable {text : String}

theorem Makes.unique {rounds' : Nat} {looked' : List String} {exe exe' : Except LinkError String}
    (h : Makes files ctx text rounds looked exe) (h' : Makes files ctx text rounds' looked' exe') :
    rounds' = rounds ∧ looked' = looked ∧ exe' = exe := by
  cases h with
  | unread refused =>
    cases h' with
    | unread refused' =>
      cases refused.symm.trans refused'
      exact ⟨rfl, rfl, rfl⟩
    | walked parsed' _ => cases refused.symm.trans parsed'
  | walked parsed runs =>
    cases h' with
    | unread refused' => cases parsed.symm.trans refused'
    | walked parsed' runs' =>
      cases parsed.symm.trans parsed'
      obtain ⟨rfl, rfl, rfl⟩ := runs.unique runs'
      exact ⟨rfl, rfl, rfl⟩

theorem link_eq_map (hparse : Document.parse text rootOrigin = .ok root) :
    link files ctx text =
      (closure files ctx root).map fun payloads => (embed root payloads).render := by
  unfold link
  rw [hparse]
  rfl

/-- Making an executable comes to an end for every text, context and file system, however the
    libraries refer to each other: without a limit to its rounds it can go one way only, and
    that way ends as `link` does.  No name is looked up twice.  For a root that can be read,
    all of them are needed, and the rounds are bounded by the texts at hand. -/
theorem link_terminates (files : FileSystem) (ctx : LoadContext) (text : String) :
    ∃ rounds looked, Makes files ctx text rounds looked (link files ctx text) ∧
      (∀ rounds' looked' exe, Makes files ctx text rounds' looked' exe →
        rounds' = rounds ∧ looked' = looked ∧ exe = link files ctx text) ∧
      looked.Nodup ∧
      ∀ root, Document.parse text rootOrigin = .ok root →
        rounds ≤ stepBound files ctx root ∧ ∀ name ∈ looked, Needed files ctx root name := by
  cases hparse : Document.parse text rootOrigin with
  | error e =>
    have hlink : link files ctx text = .error e := by
      unfold link
      rw [hparse]
      rfl
    have hmakes : Makes files ctx text 0 [] (link files ctx text) := by
      rw [hlink]
      exact .unread hparse
    refine ⟨0, [], hmakes, fun _ _ _ h => hmakes.unique h, List.nodup_nil, ?_⟩
    rintro root ⟨⟩
  | ok root =>
    have hweight := weight_start_le files ctx root
    have hstart : Walk.Follows files ctx root { queue := needsOf root.name root } := follows_start
    obtain ⟨rounds, looked, hruns, hrounds, hneeded⟩ :=
      hstart.runs (stepBound files ctx root) hweight
    have hmakes : Makes files ctx text rounds looked (link files ctx text) := by
      rw [link_eq_map hparse]
      exact .walked hparse hruns
    refine ⟨rounds, looked, hmakes, fun _ _ _ h => hmakes.unique h, hruns.looked_nodup.1, ?_⟩
    rintro root' ⟨⟩
    exact ⟨hrounds.trans hweight, hneeded⟩

end AssemblyLinker.Executable
