import AssemblyLinker.Proofs.Loading.Symbols

/-! # Linked assemblies stay

    A load adds entries to the registry and assemblies to the store, and it changes none of
    those that were there before.  So an assembly that a load has yielded keeps its place, its
    key and all of its fields, whatever is loaded afterwards (`Session.RegisteredAt.mono`).

    A document that states the name and the uid of a registered assembly is answered with that
    assembly before anything is done for it (`Session.RegisteredAt.answers`).  The main
    statement, `linked_for_good`, puts both together for any series of loads.
-/

namespace AssemblyLinker

namespace Session

/-- An assembly has a place in the registry, and is what is found under its name and uid. -/
structure RegisteredAt (s : Session) (i : Nat) (h : Handle) (a : Assembly) : Prop where
  stored : s.store.get? h = some a
  entry : s.registry.entries[i]? = some ⟨a.name, a.uid, h⟩
  found : s.registry.find? a.name a.uid = some h

variable {s t : Session} {i : Nat} {h : Handle} {a : Assembly}

/-- Where each name and uid is registered once, an entry is what is found under its key. -/
theorem Sound.find?_of_entry (hs : s.Sound) {e : Entry} (he : e ∈ s.registry.entries) :
    s.registry.find? e.name e.uid = some e.handle := by
  cases hfind : s.registry.find? e.name e.uid with
  | none =>
    have hself := Registry.find?_eq_none.1 hfind e he
    simp [Entry.isFor] at hself
  | some d =>
    -- both entries have the one key
    have hmem := Registry.mem_of_find? hfind
    have hsame := List.inj_on_of_nodup_map hs.distinct hmem he rfl
    exact congrArg (fun e' : Entry => some e'.handle) hsame

theorem Sound.registeredAt (hs : s.Sound) (hh : h ∈ s.registry.handles) :
    ∃ i a, s.RegisteredAt i h a := by
  obtain ⟨e, he, rfl⟩ := mem_handles.1 hh
  obtain ⟨a, ha, hname, huid⟩ := hs.stored e he
  obtain ⟨i, hi⟩ := List.mem_iff_getElem?.1 he
  refine ⟨i, a, ha, ?_, ?_⟩
  · rw [hi, hname, huid]
  · rw [hname, huid]
    exact hs.find?_of_entry he

/-- A longer store and a longer registry have the assembly at the same place. -/
theorem RegisteredAt.mono (hs : s.RegisteredAt i h a) (ht : t.Sound)
    (hstore : s.store <+: t.store) (hentries : s.registry.entries <+: t.registry.entries) :
    t.RegisteredAt i h a := by
  have hentry : t.registry.entries[i]? = some ⟨a.name, a.uid, h⟩ := by
    obtain ⟨hlt, -⟩ := List.getElem?_eq_some_iff.1 hs.entry
    obtain ⟨added, hadded⟩ := hentries
    rw [← hadded, List.getElem?_append_left hlt]
    exact hs.entry
  exact ⟨Store.get?_of_prefix hstore hs.stored, hentry,
    ht.find?_of_entry (List.mem_of_getElem? hentry)⟩

/-- A document that states the name and the uid of a linked assembly is answered with it, and
    the session is as before. -/
theorem RegisteredAt.answers (hs : s.RegisteredAt i h a) (hlinked : a.state = .linked)
    {L : Linker} {text origin : String} {doc : Document} (hdepth : 0 < L.maxDepth)
    (hparse : Document.parse text origin = .ok doc) (hmode : doc.mode = L.mode)
    (hname : doc.name = a.name) (huid : doc.uid = a.uid) (hstated : doc.uid ≠ "") :
    L.load text origin s = (.ok h, s) := by
  obtain ⟨depth, hmax⟩ := Nat.exists_eq_succ_of_ne_zero (Nat.ne_of_gt hdepth)
  have hfor : L.uidFor doc s = a.uid := by
    rw [Linker.uidFor, if_neg hstated, huid]
  have hfound : s.registry.find? doc.name (L.uidFor doc s) = some h := by
    rw [hfor, hname]
    exact hs.found
  have hdone : s.isLinking h = false := by
    simp [isLinking, hs.stored, hlinked]
  -- no uid is drawn, as the document states one
  have hsame : s.identify doc = s := by
    rw [identify, if_neg hstated]
  unfold Linker.load
  rw [hmax, Linker.loadWithin, hparse]
  show L.accept (L.loadWithin depth) doc s = _
  rw [Linker.accept_of_known _ hmode hfound hdone, hsame]

end Session

/-- An assembly that a load has yielded, after any loads before it, stays for good.  After any
    further loads, by any linkers, in any contexts and with any outcomes:

    * it has the place in the registry that it had, it is still found under its name and uid,
      and it is the same assembly in all of its fields, linked;
    * a text whose document states its name and uid and is of the mode that is asked for is
      answered with it, whatever else the document says.  The session is as before then: the
      registry, the bundle, the uids drawn and the calls of the passes are the same. -/
theorem linked_for_good (earlier later : List LoadRequest) (r : LoadRequest) (h : Handle)
    (hok : (r.run (Session.after earlier)).1 = .ok h) :
    let s := Session.after (earlier ++ [r])
    let t := Session.after (earlier ++ r :: later)
    ∃ i a, s.RegisteredAt i h a ∧ t.RegisteredAt i h a ∧ a.state = .linked ∧
      ∀ (q : LoadRequest) (doc : Document), 0 < q.linker.maxDepth →
        Document.parse q.text q.origin = .ok doc → doc.mode = q.linker.mode →
        doc.name = a.name → doc.uid = a.uid → doc.uid ≠ "" →
        q.run t = (.ok h, { t with context := q.context }) := by
  intro s t
  have hs : s.Sound := (Session.after_settled _).1
  have ht : t.Sound := (Session.after_settled _).1
  -- what has been yielded is registered and linked
  have hprovides : s.Provides h := by
    have hanswers := (LoadRequest.run_registers (r := r) (Session.after_settled earlier).1).2
    have hresult : r.run (Session.after earlier) = (.ok h, s) :=
      Prod.ext hok (Session.after_append earlier r).symm
    unfold Linker.Answers at hanswers
    rw [hresult] at hanswers
    exact hanswers.1
  obtain ⟨i, a, hplace⟩ := hs.registeredAt hprovides.registered
  have hlinked : a.state = .linked := by
    obtain ⟨b, hb, hlinked⟩ := hprovides.linked
    rw [hplace.stored] at hb
    cases hb
    exact hlinked
  have hkept : s.store <+: t.store ∧ s.registry.entries <+: t.registry.entries := by
    have hgrown := Session.after_registered (earlier ++ [r]) later
    simpa [s, t] using hgrown
  have hlater : t.RegisteredAt i h a := hplace.mono ht hkept.1 hkept.2
  refine ⟨i, a, hplace, hlater, hlinked, ?_⟩
  intro q doc hdepth hparse hmode hname huid hstated
  have hcontext : Session.RegisteredAt { t with context := q.context } i h a :=
    ⟨hlater.stored, hlater.entry, hlater.found⟩
  exact hcontext.answers hlinked hdepth hparse hmode hname huid hstated

/-! ### A library that is loaded again as something else -/

/-- An executable that goes by the name and uid of a library, and refers to what is nowhere. -/
def fastImpostor : Document :=
  { name := "Fast", version := "2", uid := "Fast", loomConfig := "", jit := false,
    executable := true, references := [{ name := "Nowhere" }], modules := [.null] }

/-- The library is the answer, and nothing of the executable is looked at. -/
theorem fast_linked_for_good :
    ((ownRequest (fastLibrary false)).run (Session.after [])).1 = .ok 0 ∧
      (ownRequest fastImpostor).run
          (Session.after [ownRequest (fastLibrary false), ownRequest mainProgram]) =
        (.ok 0, { Session.after [ownRequest (fastLibrary false), ownRequest mainProgram] with
          context := {} }) := by
  have hok : ((ownRequest (fastLibrary false)).run (Session.after [])).1 = .ok 0 := by
    rw [show Session.after [] = {} from rfl, run_ownRequest rfl]
    rfl
  obtain ⟨i, a, hplace, -, -, hlater⟩ := linked_for_good [] [ownRequest mainProgram]
    (ownRequest (fastLibrary false)) 0 hok
  have hfast : a.name = "Fast" ∧ a.uid = "Fast" := by
    have hstored := hplace.stored
    rw [List.nil_append, after_fastLibrary] at hstored
    obtain rfl := Option.some.inj hstored
    exact ⟨rfl, rfl⟩
  have hparse : Document.parse (ownRequest fastImpostor).text (ownRequest fastImpostor).origin =
      .ok fastImpostor := by
    have hreadable : fastImpostor.Readable := by
      intro j hj
      rw [List.mem_singleton.1 hj]
      exact .null _
    exact Document.parse_render hreadable ""
  exact ⟨hok, hlater (ownRequest fastImpostor) fastImpostor (by decide) hparse rfl
    hfast.1.symm hfast.2.symm (by decide)⟩

end AssemblyLinker
