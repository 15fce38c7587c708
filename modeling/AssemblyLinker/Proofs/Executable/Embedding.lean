import AssemblyLinker.Proofs.Executable.Closure
import AssemblyLinker.Proofs.Loading.Bundle
import AssemblyLinker.Proofs.Loading.Recursion

/-! # What an executable embeds

    The references of an executable are those of its root, in order, and behind them the
    libraries that are only needed further down, each once.  Every reference carries the text
    of its library, so that harvesting the executable gives back what the walk has gathered.

    `link_embeds_closure` says this of the text that is made for a root, together with when
    there is one: exactly if every needed name has a library.
-/

namespace AssemblyLinker.Executable

variable {files : FileSystem} {ctx : LoadContext} {root : Document}
  {payloads : List (String × String)} {name : String}

/-! ## The references of an executable -/

/-- The libraries that the root does not refer to itself. -/
def indirect (root : Document) (payloads : List (String × String)) : List (String × String) :=
  payloads.filter fun (name, _) => ¬ root.references.any (·.name = name)

theorem names_embed (root : Document) (payloads : List (String × String)) :
    (embed root payloads).references.map (·.name) =
      root.references.map (·.name) ++ (indirect root payloads).map (·.1) := by
  simp [embed, indirect, Function.comp_def]

theorem mem_indirect {p : String × String} : p ∈ indirect root payloads ↔
    p ∈ payloads ∧ p.1 ∉ root.references.map (·.name) := by
  simp [indirect, List.mem_filter]

/-- Every reference of an executable has the payload of its name. -/
theorem binary_of_mem_embed (hdistinct : (payloads.map (·.1)).Nodup) {r : Reference}
    (hr : r ∈ (embed root payloads).references) :
    r.binary = (payloads.lookup r.name).map encodePayload := by
  rcases List.mem_append.1 hr with hr | hr
  · obtain ⟨r', -, rfl⟩ := List.mem_map.1 hr
    rfl
  · obtain ⟨p, hp, rfl⟩ := List.mem_map.1 hr
    have hmem : p ∈ payloads := (List.mem_filter.1 hp).1
    have hlookup : payloads.lookup p.1 = some p.2 := by
      obtain ⟨text, htext⟩ := Option.isSome_iff_exists.1
        (lookup_isSome_iff.2 (List.mem_map_of_mem hmem))
      have hsame : (p.1, text) = p :=
        List.inj_on_of_nodup_map hdistinct (mem_of_lookup htext) hmem rfl
      rw [htext, ← hsame]
    simp [hlookup]

/-- The names of an executable are the needed ones. -/
theorem Gathers.mem_names_iff (h : Gathers files ctx root payloads) :
    name ∈ (embed root payloads).references.map (·.name) ↔ Needed files ctx root name := by
  rw [names_embed]
  constructor
  · intro hname
    rcases List.mem_append.1 hname with hname | hname
    · exact .direct hname
    · obtain ⟨p, hp, rfl⟩ := List.mem_map.1 hname
      exact (h.shipped p (mem_indirect.1 hp).1).1
  · intro hneeded
    by_cases hdirect : name ∈ root.references.map (·.name)
    · exact List.mem_append_left _ hdirect
    · obtain ⟨p, hp, rfl⟩ := List.mem_map.1 (h.complete name hneeded)
      exact List.mem_append_right _ (List.mem_map_of_mem (mem_indirect.2 ⟨hp, hdirect⟩))

/-- Every reference of an executable ships the text that has been gathered for its name. -/
theorem Gathers.payload_eq (h : Gathers files ctx root payloads) {r : Reference}
    (hr : r ∈ (embed root payloads).references) (executable : String) :
    ∃ text, payloads.lookup r.name = some text ∧ payload executable r = .ok text := by
  have hneeded := h.mem_names_iff.1 (List.mem_map_of_mem hr)
  obtain ⟨text, htext⟩ := Option.isSome_iff_exists.1 (lookup_isSome_iff.2 (h.complete _ hneeded))
  obtain ⟨-, library, hships⟩ := h.shipped (r.name, text) (mem_of_lookup htext)
  have hbinary : r = ⟨r.name, some (encodePayload text)⟩ := by
    have hr' := binary_of_mem_embed h.distinct hr
    rw [htext] at hr'
    rw [← Option.map_some, ← hr']
  refine ⟨text, htext, ?_⟩
  rw [hbinary]
  exact payload_encodePayload hships.parsed executable r.name

theorem Gathers.shipped?_embed (h : Gathers files ctx root payloads) (name : String) :
    (embed root payloads).shipped? name = payloads.lookup name := by
  unfold Document.shipped? shippedAmong?
  cases hfind : (embed root payloads).references.reverse.find? (·.name = name) with
  | some r =>
    have hr := List.mem_reverse.1 (List.mem_of_find?_eq_some hfind)
    have hname : r.name = name := by simpa using List.find?_some hfind
    obtain ⟨text, hlookup, hpayload⟩ := h.payload_eq hr (embed root payloads).name
    simp [hpayload, ← hname, hlookup, Except.toOption]
  | none =>
    -- a name without a reference is not needed, so nothing has been gathered for it
    have habsent : name ∉ payloads.map (·.1) := by
      intro hname
      obtain ⟨p, hp, rfl⟩ := List.mem_map.1 hname
      obtain ⟨r, hr, hsame⟩ := List.mem_map.1 (h.mem_names_iff.2 (h.shipped p hp).1)
      have hnone := List.find?_eq_none.1 hfind r (List.mem_reverse.2 hr)
      simp [hsame] at hnone
    cases hlookup : payloads.lookup name with
    | none => rfl
    | some text =>
      refine absurd (lookup_isSome_iff.1 ?_) habsent
      rw [hlookup]
      rfl

/-! ## Harvesting an executable -/

/-- The names in the bundle stay distinct when a payload is put into it. -/
theorem names_bundle_nodup {ctx : LoadContext} (h : (ctx.bundled.map (·.1)).Nodup)
    (name text : String) : ((ctx.bundle name text).bundled.map (·.1)).Nodup := by
  unfold LoadContext.bundle
  simp only [List.map_append, List.map_cons, List.map_nil]
  have hkept : ((ctx.bundled.filter (·.1 ≠ name)).map (·.1)).Nodup :=
    (List.filter_sublist.map _).nodup h
  refine hkept.append (List.nodup_singleton _) (List.disjoint_singleton.2 ?_)
  intro hmem
  obtain ⟨p, hp, hname⟩ := List.mem_map.1 hmem
  have hne := (List.mem_filter.1 hp).2
  simp [hname] at hne

theorem forEach_harvestReference_nodup {executable : String} {rs : List Reference} {s t : Session}
    (h : Action.forEach (harvestReference executable) rs s = (.ok (), t))
    (hs : (s.context.bundled.map (·.1)).Nodup) : (t.context.bundled.map (·.1)).Nodup := by
  induction rs generalizing s with
  | nil =>
    cases h
    exact hs
  | cons r rs ih =>
    obtain ⟨_, u, hstep, hrest⟩ := Action.andThen_eq_ok h
    obtain ⟨text, -, rfl⟩ := harvestReference_eq_ok_iff.1 hstep
    exact ih hrest (names_bundle_nodup hs r.name text)

/-- Harvesting an executable puts what has been gathered into the bundle. -/
theorem Gathers.harvest_embed (h : Gathers files ctx root payloads) {s : Session}
    (hempty : s.context.bundled = []) : ∃ t, harvest (embed root payloads) s = (.ok (), t) ∧
      (t.context.bundled.map (·.1)).Nodup ∧ ∀ name, t.context.bundled? name = payloads.lookup name := by
  have hexecutable : (embed root payloads).executable = true := rfl
  have hall : ∀ r ∈ (embed root payloads).references,
      ∃ text, payload (embed root payloads).name r = .ok text := by
    intro r hr
    obtain ⟨text, -, hpayload⟩ := h.payload_eq hr (embed root payloads).name
    exact ⟨text, hpayload⟩
  obtain ⟨t, ht⟩ := forEach_harvestReference_isOk hall s
  have hharvest : harvest (embed root payloads) s = (.ok (), t) := by
    rw [harvest, if_pos hexecutable, ht]
  refine ⟨t, hharvest, forEach_harvestReference_nodup ht (by simp [hempty]), ?_⟩
  intro name
  obtain ⟨-, -, hbundled⟩ := harvest_bundles hexecutable hharvest
  have hnone : s.context.bundled? name = none := by simp [LoadContext.bundled?, hempty]
  rw [hbundled, hnone, h.shipped?_embed, Option.or_none]

/-! ## The text of an executable -/

/-- An executable that embeds exactly what its root needs: it is the root but for the flag and
    the references, which are those of the root and then the other needed names, and it ships
    the text of every needed name, and nothing else. -/
structure Embeds (files : FileSystem) (ctx : LoadContext) (root doc : Document) : Prop where
  executable : doc.executable = true
  kept : { doc with executable := root.executable, references := root.references } = root
  names : ∃ others, doc.references.map (·.name) = root.references.map (·.name) ++ others ∧
    others.Nodup ∧
    ∀ name, name ∈ others ↔ Needed files ctx root name ∧ name ∉ root.references.map (·.name)
  harvested : ∀ s : Session, s.context.bundled = [] → ∃ t, harvest doc s = (.ok (), t) ∧
    (t.context.bundled.map (·.1)).Nodup ∧
    ∀ name text, t.context.bundled? name = some text ↔
      Needed files ctx root name ∧ textOf? files ctx name = some text

theorem Gathers.embeds (h : Gathers files ctx root payloads) :
    Embeds files ctx root (embed root payloads) where
  executable := rfl
  kept := rfl
  names := by
    refine ⟨_, names_embed root payloads, ?_, ?_⟩
    · exact (List.filter_sublist.map _).nodup h.distinct
    · intro name
      constructor
      · intro hname
        obtain ⟨p, hp, rfl⟩ := List.mem_map.1 hname
        obtain ⟨hmem, hindirect⟩ := mem_indirect.1 hp
        exact ⟨(h.shipped p hmem).1, hindirect⟩
      · rintro ⟨hneeded, hindirect⟩
        obtain ⟨p, hp, rfl⟩ := List.mem_map.1 (h.complete name hneeded)
        exact List.mem_map_of_mem (mem_indirect.2 ⟨hp, hindirect⟩)
  harvested := by
    intro s hempty
    obtain ⟨t, hharvest, hdistinct, hbundled⟩ := h.harvest_embed hempty
    refine ⟨t, hharvest, hdistinct, ?_⟩
    intro name text
    rw [hbundled, h.lookup_eq_some_iff]

theorem link_eq_ok_iff {text exe : String} (hparse : Document.parse text rootOrigin = .ok root) :
    link files ctx text = .ok exe ↔
      ∃ payloads, closure files ctx root = .ok payloads ∧ (embed root payloads).render = exe := by
  unfold link
  rw [hparse]
  show (do let payloads ← closure files ctx root
           return (embed root payloads).render : Except LinkError String) = .ok exe ↔ _
  cases closure files ctx root with
  | error e =>
    constructor
    · intro h
      cases h
    · rintro ⟨payloads, h, -⟩
      cases h
  | ok payloads =>
    constructor
    · intro h
      exact ⟨payloads, rfl, Except.ok.inj h⟩
    · rintro ⟨payloads', h, hrender⟩
      cases h
      exact congrArg Except.ok hrender

/-- The document of an executable is read back, but for floating-point numbers in its
    modules. -/
theorem parse_embed {text origin : String} (hparse : Document.parse text origin = .ok root)
    (payloads : List (String × String)) (origin' : String) :
    Document.parse (embed root payloads).render origin' = .ok (embed root payloads).reread := by
  have hreadable : (embed root payloads).Readable := by
    intro j hj
    exact Document.parse_readable hparse j hj
  exact Document.parse_render hreadable origin'

theorem reread_modules_of_steady {text origin : String}
    (hparse : Document.parse text origin = .ok root) (hsteady : ∀ j ∈ root.modules, j.Steady) :
    Json.rereadItems root.modules = root.modules := by
  apply Json.rereadItems_eq_self
  intro j hj
  exact Json.reread_of_steady (Document.parse_readable hparse j hj) (hsteady j hj)

/-- For a root whose modules hold whole numbers only, or at least none that comes back changed
    when it is read again: there is an executable if and only
    if every needed name has a library in the mode of the root, and its text is that of a
    document that embeds exactly what is needed. -/
theorem link_embeds_closure (files : FileSystem) (ctx : LoadContext) (text : String)
    (root : Document) (hparse : Document.parse text rootOrigin = .ok root)
    (hsteady : ∀ j ∈ root.modules, j.Steady) :
    ((∃ exe, link files ctx text = .ok exe) ↔ ∀ name, Needed files ctx root name →
      ∃ found library, Ships files ctx root.jit name found library) ∧
    ∀ exe, link files ctx text = .ok exe →
      ∃ doc, (∀ origin, Document.parse exe origin = .ok doc) ∧ Embeds files ctx root doc := by
  constructor
  · rw [← closure_isOk_iff]
    constructor
    · rintro ⟨exe, hexe⟩
      obtain ⟨payloads, hclosure, -⟩ := (link_eq_ok_iff hparse).1 hexe
      exact ⟨payloads, hclosure⟩
    · rintro ⟨payloads, hclosure⟩
      exact ⟨_, (link_eq_ok_iff hparse).2 ⟨payloads, hclosure, rfl⟩⟩
  · intro exe hexe
    obtain ⟨payloads, hclosure, rfl⟩ := (link_eq_ok_iff hparse).1 hexe
    have hsame : (embed root payloads).reread = embed root payloads := by
      show { embed root payloads with modules := Json.rereadItems root.modules } = _
      rw [reread_modules_of_steady hparse hsteady]
      rfl
    refine ⟨embed root payloads, ?_, (Gathers.of_closure hclosure).embeds⟩
    intro origin
    rw [parse_embed hparse, hsame]

/-! ### A library that is needed further down -/

section Chain

/-- A bootstrap of two libraries, of which one refers to the other. -/
def chainContext : LoadContext :=
  { bootstrap := some [("UI", (bareDocument "UI" ["Gfx"]).render),
      ("Gfx", (bareDocument "Gfx" []).render)] }

/-- A root with a module, whose document is not looked into. -/
def chainRoot : Document := { bareDocument "Main" ["UI"] with modules := [.num (.whole 7)] }

theorem steady_chainRoot : ∀ j ∈ chainRoot.modules, j.Steady := by
  intro j hj
  rw [List.mem_singleton.1 hj]
  exact .whole 7

theorem parse_chainRoot (origin : String) :
    Document.parse chainRoot.render origin = .ok chainRoot := by
  have hreadable : chainRoot.Readable := by
    intro j hj
    rw [List.mem_singleton.1 hj]
    exact .num _ ⟨by norm_num, by norm_num⟩
  exact Document.parse_render_of_steady hreadable steady_chainRoot origin

theorem referencedNames_bareDocument (name : String) (references : List String) :
    referencedNames (bareDocument name references).render = references := by
  rw [referencedNames_of_parse (parse_bareDocument name references "")]
  simp [bareDocument, Function.comp_def]

theorem needed_chain (hroot : root.references.map (·.name) = ["UI"])
    (h : Needed {} chainContext root name) : name = "UI" ∨ name = "Gfx" := by
  induction h with
  | direct referenced =>
    rw [hroot] at referenced
    exact .inl (List.mem_singleton.1 referenced)
  | indirect _ found referenced ih =>
    rcases ih with rfl | rfl
    · have htext : textOf? {} chainContext "UI" = some (bareDocument "UI" ["Gfx"]).render := rfl
      rw [Option.some.inj (found.symm.trans htext), referencedNames_bareDocument] at referenced
      exact .inr (List.mem_singleton.1 referenced)
    · have htext : textOf? {} chainContext "Gfx" = some (bareDocument "Gfx" []).render := rfl
      rw [Option.some.inj (found.symm.trans htext), referencedNames_bareDocument] at referenced
      cases referenced

/-- The executable of the root embeds both libraries. -/
theorem link_embeds_chain :
    .num (.whole 7) ∈ chainRoot.modules ∧ ∃ exe, link {} chainContext chainRoot.render = .ok exe ∧
      ∃ doc, (∀ origin, Document.parse exe origin = .ok doc) ∧
        Embeds {} chainContext chainRoot doc := by
  obtain ⟨hiff, hembeds⟩ := link_embeds_closure {} chainContext _ _ (parse_chainRoot rootOrigin)
    steady_chainRoot
  obtain ⟨exe, hexe⟩ := hiff.2 fun name hneeded => by
    rcases needed_chain rfl hneeded with rfl | rfl
    · exact ⟨_, _, rfl, parse_bareDocument "UI" ["Gfx"] "UI", rfl⟩
    · exact ⟨_, _, rfl, parse_bareDocument "Gfx" [] "Gfx", rfl⟩
  exact ⟨List.mem_cons_self, exe, hexe, hembeds exe hexe⟩

end Chain

end AssemblyLinker.Executable
