import AssemblyLinker.Proofs.Executable.Embedding

/-! # Making an executable of an executable

    The references of an executable are the needed names of its root, so the executable
    needs the same names as the root (`Gathers.needed_embed_iff`).  A walk that starts at the
    executable goes through them in another order, but for each of them it gathers the same
    text (`Gathers.lookup_embed`).  So there is nothing left to put behind the references, and
    every payload is written over by itself (`Gathers.embed_embed`).

    Since the text of an executable is read back, `link_idempotent` has this of texts.
-/

namespace AssemblyLinker.Executable

variable {files : FileSystem} {ctx : LoadContext} {root : Document}
  {payloads payloads' : List (String × String)} {name : String}

/-- An executable needs what its root needs. -/
theorem Gathers.needed_embed_iff (h : Gathers files ctx root payloads) :
    Needed files ctx (embed root payloads) name ↔ Needed files ctx root name := by
  constructor
  · intro hneeded
    induction hneeded with
    | direct referenced => exact h.mem_names_iff.1 referenced
    | indirect _ found referenced ih => exact .indirect ih found referenced
  · intro hneeded
    exact .direct (h.mem_names_iff.2 hneeded)

/-- What is gathered for an executable is what has been gathered for its root, up to the
    order. -/
theorem Gathers.lookup_embed (h : Gathers files ctx root payloads)
    (h' : Gathers files ctx (embed root payloads) payloads') (name : String) :
    payloads'.lookup name = payloads.lookup name := by
  apply Option.ext
  intro text
  rw [h'.lookup_eq_some_iff, h.lookup_eq_some_iff, h.needed_embed_iff]

/-- Nothing is gathered for an executable that it does not refer to already. -/
theorem Gathers.indirect_embed (h : Gathers files ctx root payloads)
    (h' : Gathers files ctx (embed root payloads) payloads') :
    indirect (embed root payloads) payloads' = [] := by
  apply List.eq_nil_iff_forall_not_mem.2
  intro p hp
  obtain ⟨hmem, hbehind⟩ := mem_indirect.1 hp
  have hneeded := h.needed_embed_iff.1 (h'.shipped p hmem).1
  exact hbehind (h.mem_names_iff.2 hneeded)

/-- Embedding what is gathered for an executable into it changes nothing. -/
theorem Gathers.embed_embed (h : Gathers files ctx root payloads)
    (h' : Gathers files ctx (embed root payloads) payloads') :
    embed (embed root payloads) payloads' = embed root payloads := by
  have hdirect : (embed root payloads).references.map (fun r =>
      { r with binary := (payloads'.lookup r.name).map encodePayload }) =
      (embed root payloads).references := by
    have hsame : ∀ r ∈ (embed root payloads).references,
        { r with binary := (payloads'.lookup r.name).map encodePayload } = r := by
      intro r hr
      rw [h.lookup_embed h', ← binary_of_mem_embed h.distinct hr]
    rw [List.map_congr_left hsame, List.map_id']
  have hreferences : (embed (embed root payloads) payloads').references =
      (embed root payloads).references := by
    show (embed root payloads).references.map _ ++
      (indirect (embed root payloads) payloads').map _ = _
    rw [hdirect, h.indirect_embed h', List.map_nil, List.append_nil]
  show { embed root payloads with references := (embed (embed root payloads) payloads').references }
    = embed root payloads
  rw [hreferences]

theorem closure_embed (h : closure files ctx root = .ok payloads) :
    ∃ payloads', closure files ctx (embed root payloads) = .ok payloads' := by
  have hgathers := Gathers.of_closure h
  apply closure_isOk_iff.2
  intro name hneeded
  exact closure_isOk_iff.1 ⟨payloads, h⟩ name (hgathers.needed_embed_iff.1 hneeded)

/-- The text of an executable stands for its document, if no number in the modules of the
    root comes back changed. -/
theorem parse_embed_of_steady {text origin : String}
    (hparse : Document.parse text origin = .ok root) (hsteady : ∀ j ∈ root.modules, j.Steady)
    (payloads : List (String × String)) (origin' : String) :
    Document.parse (embed root payloads).render origin' = .ok (embed root payloads) := by
  have hmodules := reread_modules_of_steady hparse hsteady
  rw [parse_embed hparse]
  show Except.ok { embed root payloads with modules := Json.rereadItems root.modules } = _
  rw [hmodules]
  rfl

/-- The executable of an executable is the executable itself, letter for letter: for a root
    whose modules hold whole numbers only, or at least none that comes back changed when it is
    read again. -/
theorem link_idempotent (files : FileSystem) (ctx : LoadContext) (text exe : String)
    (hsteady : ∀ root, Document.parse text rootOrigin = .ok root → ∀ j ∈ root.modules, j.Steady)
    (h : link files ctx text = .ok exe) : link files ctx exe = .ok exe := by
  obtain ⟨root, hparse⟩ : ∃ root, Document.parse text rootOrigin = .ok root := by
    cases hparse : Document.parse text rootOrigin with
    | ok root => exact ⟨root, rfl⟩
    | error e =>
      unfold link at h
      rw [hparse] at h
      cases h
  obtain ⟨payloads, hclosure, rfl⟩ := (link_eq_ok_iff hparse).1 h
  obtain ⟨payloads', hclosure'⟩ := closure_embed hclosure
  have hread := parse_embed_of_steady hparse (hsteady root hparse) payloads rootOrigin
  refine (link_eq_ok_iff hread).2 ⟨payloads', hclosure', ?_⟩
  rw [(Gathers.of_closure hclosure).embed_embed (Gathers.of_closure hclosure')]

/-- The executable of the root with two libraries is such a text: it has one library more
    among its references than the root. -/
theorem link_idempotent_chain : ∃ exe, link {} chainContext chainRoot.render = .ok exe ∧
    link {} chainContext exe = .ok exe := by
  have hneeded : ∃ payloads, closure {} chainContext chainRoot = .ok payloads := by
    apply closure_isOk_iff.2
    intro name hneeded
    rcases needed_chain rfl hneeded with rfl | rfl
    · exact ⟨_, _, rfl, parse_bareDocument "UI" ["Gfx"] "UI", rfl⟩
    · exact ⟨_, _, rfl, parse_bareDocument "Gfx" [] "Gfx", rfl⟩
  obtain ⟨payloads, hclosure⟩ := hneeded
  have hexe := (link_eq_ok_iff (parse_chainRoot rootOrigin)).2 ⟨payloads, hclosure, rfl⟩
  refine ⟨_, hexe, link_idempotent {} chainContext chainRoot.render _ ?_ hexe⟩
  intro root hparse
  cases hparse.symm.trans (parse_chainRoot rootOrigin)
  exact steady_chainRoot

end AssemblyLinker.Executable
