import AssemblyLinker.Proofs.Loading.Journal

/-! # Loads that fail

    A load that fails does so at a chain of references, from the text that it was asked for
    down to what is at fault.  The assemblies created for the documents on this chain cannot be
    linked (`Linker.FailsAt`), and all others that it has created are.

    * A load that succeeds registers all that it creates.  If it fails, what it has given up is
      what it has created and not registered (`Linker.tellsDropped`).
    * These are the assemblies at which it fails (`Linker.failsAt_iff_dropped`).

    The main statement, `load_registers_only_linked`, is about any series of loads on a
    registry that is empty at first: after each of them every registered assembly is linked
    and has all of its dependencies, what was registered before is unchanged, and a load
    that fails leaves nothing of the chain of references on which it failed.
-/

namespace AssemblyLinker

/-! ## Assemblies that are not registered -/

namespace Session

/-- An assembly has been created since an earlier session, and it is not registered. -/
def Dropped (s t : Session) (i : Handle) : Prop :=
  s.nextHandle ≤ i ∧ i < t.nextHandle ∧ i ∉ t.registry.handles

/-- The events since an earlier session have given up the assemblies that are not registered. -/
def TellsDropped (s t : Session) : Prop :=
  ∃ events, t.history = events ++ s.history ∧ ∀ i, .abandoned i ∈ events ↔ s.Dropped t i

/-- Since an earlier session no assembly has been given up: all that have come are registered. -/
structure RegistersAll (s t : Session) : Prop where
  tells : s.TellsDropped t
  registered : ∀ i, ¬ s.Dropped t i

variable {s t u : Session} {e : Event} {i : Handle}

theorem not_dropped_self (s : Session) (i : Handle) : ¬ s.Dropped s i := fun h =>
  Nat.not_lt.2 h.1 h.2.1

/-- Only how many assemblies there are and what is registered counts. -/
theorem dropped_congr (hnext : u.nextHandle = t.nextHandle) (hregistry : u.registry = t.registry) :
    s.Dropped u i ↔ s.Dropped t i := by
  unfold Dropped
  rw [hnext, hregistry]

theorem registersAll_self (s : Session) : s.RegistersAll s where
  tells := ⟨[], rfl, fun i => iff_of_false List.not_mem_nil (s.not_dropped_self i)⟩
  registered := s.not_dropped_self

/-- Most events create nothing, and give nothing up. -/
theorem TellsDropped.record (h : s.TellsDropped t) (he : ∀ i, .abandoned i ≠ e)
    (hnext : (t.record e).nextHandle = t.nextHandle)
    (hregistry : (t.record e).registry = t.registry) : s.TellsDropped (t.record e) := by
  obtain ⟨events, hhistory, htells⟩ := h
  refine ⟨e :: events, congrArg (e :: ·) hhistory, fun i => ?_⟩
  rw [List.mem_cons, or_iff_right (he i), htells, dropped_congr hnext hregistry]

theorem RegistersAll.record (h : s.RegistersAll t) (he : ∀ i, .abandoned i ≠ e)
    (hnext : (t.record e).nextHandle = t.nextHandle)
    (hregistry : (t.record e).registry = t.registry) : s.RegistersAll (t.record e) where
  tells := h.tells.record he hnext hregistry
  registered i := fun hdropped => h.registered i ((dropped_congr hnext hregistry).1 hdropped)

theorem TellsDropped.leave (h : s.TellsDropped t) (doc : Document) :
    s.TellsDropped (t.leave doc) := by
  unfold Session.leave
  split
  · exact h.record (fun _ => Event.noConfusion) rfl rfl
  · exact h

theorem RegistersAll.leave (h : s.RegistersAll t) (doc : Document) :
    s.RegistersAll (t.leave doc) := by
  unfold Session.leave
  split
  · exact h.record (fun _ => Event.noConfusion) rfl rfl
  · exact h

theorem RegistersAll.identify (h : s.RegistersAll t) (doc : Document) :
    s.RegistersAll (t.identify doc) := by
  unfold Session.identify
  split
  · exact h.record (fun _ => Event.noConfusion) rfl rfl
  · exact h

/-- What an assembly gets while it is being linked is no matter of the registry. -/
theorem RegistersAll.changed (h : s.RegistersAll t) (he : ∀ i, .abandoned i ≠ e) {g : Handle}
    {f : Assembly → Assembly} (hchanged : t.Changed g f (t.record e)) :
    s.RegistersAll (t.record e) :=
  h.record he hchanged.nextHandle hchanged.registry

theorem RegistersAll.refer (h : s.RegistersAll t) (g : Handle) (name : String)
    (source : TextSource) (text : String) : s.RegistersAll (t.refer g name source text) :=
  (h.changed (fun _ => Event.noConfusion) (t.referenceAdded_changed g name)).record
    (fun _ => Event.noConfusion) rfl rfl

end Session

namespace Linker

variable {L : Linker} {s t u : Session} {doc : Document} {i : Handle}

/-- A document that has been opened is registered. -/
theorem Opens.registersAll (h : L.Opens doc s t) : s.RegistersAll t := by
  have hall : ∀ i, ¬ s.Dropped t i := by
    rintro i ⟨hle, hlt, hnot⟩
    unfold Session.nextHandle at hlt
    rw [h.store, List.length_append] at hlt
    obtain rfl : i = s.nextHandle := Nat.le_antisymm (Nat.lt_succ_iff.1 hlt) hle
    apply hnot
    simp [Registry.handles, h.entries]
  refine ⟨?_, hall⟩
  obtain ⟨events, hhistory, htells⟩ := (s.registersAll_self.identify doc).tells
  refine ⟨.created (newAssembly doc (L.uidFor doc s)) :: events, ?_, fun i => ?_⟩
  · rw [h.session]
    exact congrArg (_ :: ·) hhistory
  · rw [List.mem_cons, or_iff_right Event.noConfusion, htells]
    refine iff_of_false (fun hdropped => s.not_dropped_self i ?_) (hall i)
    exact (Session.dropped_congr (congrArg List.length (s.identify_store doc))
      (s.identify_registry doc)).1 hdropped

/-- Behind a load that has been made on the way, what is not registered was not registered before
    it, or it has been created by it. -/
theorem Advances.dropped_iff (h : L.Advances t u) (hst : s.nextHandle ≤ t.nextHandle) :
    s.Dropped u i ↔ s.Dropped t i ∨ t.Dropped u i := by
  obtain ⟨added, hentries, hadded⟩ := h.entries
  have hnext : t.nextHandle ≤ u.nextHandle := h.store.length_le
  have hhandles : i ∈ u.registry.handles ↔
      i ∈ t.registry.handles ∨ ∃ e ∈ added, e.handle = i := by
    simp [Registry.handles, hentries]
  unfold Session.Dropped
  constructor
  · rintro ⟨hle, hlt, hnot⟩
    rcases Nat.lt_or_ge i t.nextHandle with hi | hi
    · exact .inl ⟨hle, hi, fun hmem => hnot (hhandles.2 (.inl hmem))⟩
    · exact .inr ⟨hi, hlt, hnot⟩
  · rintro (⟨hle, hlt, hnot⟩ | ⟨hle, hlt, hnot⟩)
    · refine ⟨hle, Nat.lt_of_lt_of_le hlt hnext, fun hmem => ?_⟩
      rcases hhandles.1 hmem with hmem | ⟨e, he, rfl⟩
      · exact hnot hmem
      · exact Nat.not_lt.2 (hadded e he).1 hlt
    · exact ⟨Nat.le_trans hst hle, hlt, hnot⟩

theorem Advances.tellsDropped (h : L.Advances t u) (hle : s.nextHandle ≤ t.nextHandle)
    (hst : s.TellsDropped t) (htu : t.TellsDropped u) : s.TellsDropped u := by
  obtain ⟨events, hhistory, htells⟩ := hst
  obtain ⟨events', hhistory', htells'⟩ := htu
  refine ⟨events' ++ events, ?_, fun i => ?_⟩
  · rw [hhistory', hhistory, List.append_assoc]
  · rw [List.mem_append, htells, htells', h.dropped_iff hle, or_comm]

theorem Frame.nextHandle_lt (h : L.Frame s doc t) : s.nextHandle < t.nextHandle := by
  obtain ⟨a, ha, -⟩ := h.own
  exact Store.lt_length_of_get? ha

/-- An assembly that is given up joins those that are not registered. -/
theorem Frame.dropped_iff (h : L.Frame s doc t) (hs : s.Sound) :
    s.Dropped ((t.leave doc).record (.abandoned s.nextHandle)) i ↔
      i = s.nextHandle ∨ s.Dropped t i := by
  have hnext : ((t.leave doc).record (.abandoned s.nextHandle)).nextHandle = t.nextHandle := by
    unfold Session.nextHandle
    rw [Session.abandoned_store, Session.leave_store]
  have hhandles := h.handles_abandoned hs h.registry_abandoned i
  unfold Session.Dropped
  rw [hnext, hhandles]
  constructor
  · rintro ⟨hle, hlt, hnot⟩
    by_cases hi : i = s.nextHandle
    · exact .inl hi
    · exact .inr ⟨hle, hlt, fun hmem => hnot ⟨hmem, hi⟩⟩
  · rintro (rfl | ⟨hle, hlt, hnot⟩)
    · exact ⟨Nat.le_refl _, h.nextHandle_lt, fun hmem => hmem.2 rfl⟩
    · exact ⟨hle, hlt, fun hmem => hnot hmem.1⟩

theorem Frame.tellsDropped (h : L.Frame s doc t) (hs : s.Sound) (ht : s.TellsDropped t) :
    s.TellsDropped ((t.leave doc).record (.abandoned s.nextHandle)) := by
  obtain ⟨events, hhistory, htells⟩ := ht.leave doc
  refine ⟨.abandoned s.nextHandle :: events, congrArg (_ :: ·) hhistory, fun i => ?_⟩
  have hleft : s.Dropped (t.leave doc) i ↔ s.Dropped t i :=
    Session.dropped_congr (congrArg List.length (t.leave_store doc)) (t.leave_registry doc)
  rw [List.mem_cons, htells, hleft, h.dropped_iff hs, Event.abandoned.injEq]

/-- A load that succeeds registers all that it creates, and so it is while the references of an
    assembly are being linked.  A load that fails has given up what is not registered. -/
theorem tellsDropped : L.Contract
    (fun text s r => L.RegistersLinked text s r ∧
      (s.Sound → s.TellsDropped r.2 ∧ ∀ h, r.1 = .ok h → s.RegistersAll r.2))
    (fun text s doc done t => L.Underway text s doc done t ∧ (s.Sound → s.RegistersAll t))
    (fun _ s doc t => (s.Sound → L.Frame s doc t) ∧ (s.Sound → s.TellsDropped t)) :=
  registersLinked.extend {
    tooDeep := fun _ s _ => ⟨s.registersAll_self.tells, fun h hh => by cases hh⟩
    failed := fun _ s _ _ => ⟨s.registersAll_self.tells, fun h hh => by cases hh⟩
    circular := fun _ s doc _ =>
      ⟨(s.registersAll_self.identify doc).tells, fun h hh => by cases hh⟩
    known := fun _ _ s doc _ _ _ _ _ _ =>
      ⟨(s.registersAll_self.identify doc).tells, fun _ _ => s.registersAll_self.identify doc⟩
    opens := fun _ _ _ _ _ _ opens _ => opens.registersAll
    bundles := fun _ _ _ _ _ _ h _ _ _ hs =>
      (h.2 hs).record (fun _ => Event.noConfusion) rfl rfl
    joins := by
      intro _ s doc done t r d h _ _ hs
      have hreferred := (h.2 hs).changed (fun _ => Event.noConfusion)
        (t.referenceAdded_changed s.nextHandle r.name)
      exact hreferred.changed (fun _ => Event.noConfusion) (Session.dependencyAdded_changed _ _ _)
    loads := by
      intro _ s doc done t r source found d u h _ _ loaded hs
      have hframe := (h.1 hs).1.1.refer r.name source found
      have hreferred := (h.2 hs).refer s.nextHandle r.name source found
      obtain ⟨hadvances, -⟩ := loaded.1 hframe.sound
      have hnested := (loaded.2 hframe.sound).2 d rfl
      have hle := Nat.le_of_lt hframe.nextHandle_lt
      have hall : s.RegistersAll u := by
        refine ⟨hadvances.tellsDropped hle hreferred.tells hnested.tells, fun i hi => ?_⟩
        rcases (hadvances.dropped_iff hle).1 hi with hi | hi
        · exact hreferred.registered i hi
        · exact hnested.registered i hi
      exact hall.changed (fun _ => Event.noConfusion) (u.dependencyAdded_changed s.nextHandle d)
    declares := by
      intro _ s doc t j h hs
      obtain ⟨a, ha, -⟩ := (h.1 hs).1.1.own
      obtain ⟨modules, hdeclare⟩ := Session.declare_records ha j
      rw [hdeclare]
      exact (h.2 hs).changed (fun _ => Event.noConfusion) (t.declareCalled_changed _ modules)
    defines := by
      intro _ s doc t j h hs
      obtain ⟨a, ha, -⟩ := (h.1 hs).1.1.own
      obtain ⟨modules, hdefine⟩ := Session.define_records ha j
      rw [hdefine]
      exact (h.2 hs).changed (fun _ => Event.noConfusion) (t.defineCalled_changed _ modules)
    breaks := fun _ _ _ _ _ h hs => (h.2 hs).tells
    breaksAtReference := fun _ s _ _ t name h hs =>
      ((h.2 hs).changed (fun _ => Event.noConfusion)
        (t.referenceAdded_changed s.nextHandle name)).tells
    breaksInLoad := by
      intro _ s doc done t r source found stop u h _ _ loaded hs
      have hframe := (h.1 hs).1.1.refer r.name source found
      have hreferred := (h.2 hs).refer s.nextHandle r.name source found
      exact (loaded.1 hframe.sound).1.tellsDropped (Nat.le_of_lt hframe.nextHandle_lt)
        hreferred.tells (loaded.2 hframe.sound).1
    completes := by
      intro _ s doc t _ _ _ _ h _ hs
      have hall := ((h.2 hs).leave doc).changed (fun _ => Event.noConfusion)
        ((t.leave doc).completed_changed s.nextHandle)
      exact ⟨hall.tells, fun _ _ => hall⟩
    abandons := fun _ _ _ _ _ h hs =>
      ⟨(h.1 hs).tellsDropped hs (h.2 hs), fun h hh => by cases hh⟩ }

/-! ## Where a load fails -/

/-- The assemblies at which a load of a text fails: the one that has been created for the text
    itself, if its linking stops, and those at which the load of a reference fails, where all
    references before this one have been linked. -/
inductive FailsAt (L : Linker) : Nat → String → String → Session → Handle → Prop where
  | own {depth : Nat} {text origin : String} {s o t : Session} {doc : Document} {stop : Stop}
      (parsed : Document.parse text origin = .ok doc) (opens : L.Opens doc s o)
      (stops : L.link (L.loadWithin depth) doc s.nextHandle o = (.error stop, t)) :
      FailsAt L (depth + 1) text origin s s.nextHandle
  | inner {depth count : Nat} {text origin found : String} {s o u : Session} {doc : Document}
      {r : Reference} {source : TextSource} {i : Handle}
      (parsed : Document.parse text origin = .ok doc) (opens : L.Opens doc s o)
      (linked : L.linkFirst (L.loadWithin depth) doc s.nextHandle count o = (.ok (), u))
      (reference : doc.references[count]? = some r)
      (free : u.registry.findByName? r.name = none)
      (located : L.locateText u.context doc.name r.name = .ok (source, found))
      (fails : FailsAt L depth found r.name (u.refer s.nextHandle r.name source found) i) :
      FailsAt L (depth + 1) text origin s i

/-- A load that fails at an assembly fails, and does not leave it registered. -/
theorem FailsAt.dropped {depth : Nat} {text origin : String} (h : L.FailsAt depth text origin s i)
    (hs : s.Sound) :
    ∃ stop t, L.loadWithin depth text origin s = (.error stop, t) ∧ s.Dropped t i := by
  induction h with
  | @own depth text origin s o t doc stop parsed opens stops =>
    refine ⟨stop, (t.leave doc).record (.abandoned s.nextHandle), ?_, ?_⟩
    · rw [loadWithin, parsed]
      exact L.accept_of_stopped opens stops
    · exact ((L.registersLinked.of_link_error parsed opens stops hs).dropped_iff hs).2 (.inl rfl)
  | @inner depth count text origin found s o u doc r source i parsed opens linked reference free
      located fails ih =>
    have hframe := (L.registersLinked.of_linkFirst parsed opens linked hs).1.1
    have hreferred := hframe.refer r.name source found
    obtain ⟨stop, t, hload, hdropped⟩ := ih hreferred.sound
    have hadvances := (L.registersLinked.of_load hload hreferred.sound).1
    -- what stops the load of the reference stops that of the text
    have hlink := L.link_of_linkFirst linked reference
      (L.linkReference_of_stuck _ s.nextHandle r free located hload)
    refine ⟨stop, (t.leave doc).record (.abandoned s.nextHandle), ?_, ?_⟩
    · rw [loadWithin, parsed]
      exact L.accept_of_stopped opens hlink
    · rw [(L.registersLinked.of_link_error parsed opens hlink hs).dropped_iff hs,
        hadvances.dropped_iff (Nat.le_of_lt hreferred.nextHandle_lt)]
      exact .inr (.inr hdropped)

/-- Where the linking of a document stops, the load fails at what has been created behind its own
    assembly and is not registered, given that loads of references do so. -/
theorem Stopped.failsAt {depth : Nat} {text origin : String} {o : Session} {stop : Stop}
    (hs : s.Sound) (hparse : Document.parse text origin = .ok doc) (hopens : L.Opens doc s o)
    (hload : ∀ {found name : String} {u : Session}, u.Sound →
      L.loadWithin depth found name u = (.error stop, t) → u.Dropped t i →
      L.FailsAt depth found name u i)
    (h : L.Stopped (L.loadWithin depth) doc s.nextHandle o stop t) (hi : s.Dropped t i) :
    L.FailsAt (depth + 1) text origin s i := by
  cases h with
  | atPayload harvested =>
    have hopened := L.tellsDropped.opens text origin s doc o hparse hopens
    have hall := (L.tellsDropped.harvest (fun u hu => hu.2 hs) hopened).of_error harvested
    exact absurd hi (hall.registered i)
  | @atReference count u _ r _ linked reference resolved =>
    have hlinked := L.tellsDropped.of_linkFirst hparse hopens linked
    have hall := hlinked.2 hs
    have hadded := hall.changed (fun _ => Event.noConfusion)
      (u.referenceAdded_changed s.nextHandle r.name)
    have hways := L.resolved (L.loadWithin depth) doc.name s.nextHandle r u
    rw [resolved] at hways
    cases hways with
    | circular d found linking => exact absurd hi (hadded.registered i)
    | absent e free located => exact absurd hi (hadded.registered i)
    | stopped source found _ _ free located loaded =>
      -- all was registered before this load, so that it has come with it
      have hreferred := (hlinked.1 hs).1.1.refer r.name source found
      have hadvances := (L.registersLinked.of_load loaded hreferred.sound).1
      have hbefore := (hall.refer s.nextHandle r.name source found).registered i
      have hways := (hadvances.dropped_iff (Nat.le_of_lt hreferred.nextHandle_lt)).1 hi
      exact .inner hparse hopens linked reference free located
        (hload hreferred.sound loaded (hways.resolve_left hbefore))
  | atModule linked built =>
    have hlinked := L.tellsDropped.of_linkFirst hparse hopens linked
    rw [List.take_length] at hlinked
    have hall := (L.tellsDropped.modules (fun u hu => hu.2 hs) hlinked).of_error built
    exact absurd hi (hall.registered i)

/-- A load that fails does so at all assemblies that it has created and not left registered. -/
theorem failsAt_of_dropped (depth : Nat) : ∀ {text origin : String} {s t : Session} {stop : Stop},
    s.Sound → L.loadWithin depth text origin s = (.error stop, t) → s.Dropped t i →
    L.FailsAt depth text origin s i := by
  induction depth with
  | zero =>
    intro text origin s t stop _ hload hi
    cases hload
    exact absurd hi (s.not_dropped_self i)
  | succ depth ih =>
    intro text origin s t stop hs hload hi
    unfold loadWithin at hload
    cases hparse : Document.parse text origin with
    | error e =>
      rw [hparse] at hload
      cases hload
      exact absurd hi (s.not_dropped_self i)
    | ok doc =>
      rw [hparse] at hload
      have haccepted := L.accepted (L.loadWithin depth) doc s
      rw [show L.accept (L.loadWithin depth) doc s = (.error stop, t) from hload] at haccepted
      generalize hresult : (Except.error stop, t) = result at haccepted
      cases haccepted with
      | wrongMode mode =>
        cases hresult
        exact absurd hi (s.not_dropped_self i)
      | circular mode linking =>
        cases hresult
        exact absurd hi ((s.registersAll_self.identify doc).registered i)
      | known d mode found linked => cases hresult
      | opened o opens =>
        rcases hlink : L.link (L.loadWithin depth) doc s.nextHandle o with ⟨stop' | _, v⟩
        · rw [hlink] at hresult
          cases hresult
          -- it is the assembly of the text, or one that has come with a reference
          have hframe := L.registersLinked.of_link_error hparse opens hlink hs
          rcases (hframe.dropped_iff hs).1 hi with rfl | hi
          · exact .own hparse opens hlink
          · exact (L.stopped hlink).failsAt hs hparse opens ih hi
        · rw [hlink] at hresult
          cases hresult

/-- The assemblies at which a load fails are those that it has created and given up. -/
theorem failsAt_iff_dropped {depth : Nat} {text origin : String} {stop : Stop} (hs : s.Sound)
    (hload : L.loadWithin depth text origin s = (.error stop, t)) :
    L.FailsAt depth text origin s i ↔ s.Dropped t i := by
  constructor
  · intro h
    obtain ⟨stop', t', hload', hi⟩ := h.dropped hs
    rw [hload] at hload'
    cases hload'
    exact hi
  · exact failsAt_of_dropped depth hs hload

end Linker

/-! ## Series of loads -/

/-- The assemblies at which a load fails that may be asked for. -/
def LoadRequest.FailsAt (r : LoadRequest) (s : Session) (i : Handle) : Prop :=
  r.linker.FailsAt r.linker.maxDepth r.text r.origin (r.start s) i

/-- What a load that fails has given up is what it has created and not registered, and these are
    the assemblies at which it fails. -/
theorem LoadRequest.failsAt_iff {r : LoadRequest} {s t : Session} {stop : Stop} (hs : s.Sound)
    (hrun : r.run s = (.error stop, t)) (i : Handle) :
    (r.FailsAt s i ↔ s.Dropped t i) ∧
      (.abandoned i ∈ (r.start s).eventsSince t ↔ r.FailsAt s i) := by
  have hstart := LoadRequest.sound_start (r := r) hs
  have hfails : r.FailsAt s i ↔ s.Dropped t i := r.linker.failsAt_iff_dropped hstart hrun
  obtain ⟨events, hhistory, htells⟩ : (r.start s).TellsDropped t :=
    ((r.linker.tellsDropped.of_load hrun).2 hstart).1
  refine ⟨hfails, ?_⟩
  rw [Session.eventsSince_of_history hhistory, List.mem_reverse, htells, hfails]
  exact Iff.rfl

/-- A load after any series of loads leaves no assembly registered that is not linked.

    * What is registered goes by its own name and uid, which is not empty if no stream has
      empty uids; it is linked and has a dependency for each of its references, which is
      registered and linked too.
    * The entries from before the load, and the assemblies from before it, are the same as
      before, and the entries that are new are of the mode that is asked for.
    * A handle that is the answer is registered, as the first new one if it is new.
    * If there is no answer, nothing at which the load fails is registered: neither the assembly
      created for the text itself, nor any of those created for the references on the way to
      what is at fault.  These are all that it has given up, and all that it has created and not
      registered; what it has registered is linked. -/
theorem load_registers_only_linked (earlier : List LoadRequest) (r : LoadRequest) :
    let s := Session.after earlier
    let t := (r.run s).2
    (∀ e ∈ t.registry.entries, ∃ a, t.store.get? e.handle = some a ∧ a.name = e.name ∧
      a.uid = e.uid ∧ t.Complete a ∧
      ((∀ q ∈ earlier ++ [r], ∀ n, q.linker.uids n ≠ "") → a.uid ≠ "")) ∧
    (s.store <+: t.store ∧ ∃ added, t.registry.entries = s.registry.entries ++ added ∧
      ∀ e ∈ added, ∃ a, t.store.get? e.handle = some a ∧ a.mode = r.linker.mode) ∧
    (∀ h, (r.run s).1 = .ok h → h ∈ t.registry.handles ∧
      (h ∉ s.registry.handles → t.registry.handles[s.registry.size]? = some h)) ∧
    (∀ stop, (r.run s).1 = .error stop → s.nextHandle ∉ t.registry.handles ∧
      (∀ i, r.FailsAt s i ↔
        s.nextHandle ≤ i ∧ i < t.nextHandle ∧ i ∉ t.registry.handles) ∧
      (∀ i, .abandoned i ∈ (r.start s).eventsSince t ↔ r.FailsAt s i) ∧
      ∀ i a, s.nextHandle ≤ i → t.store.get? i = some a →
        (i ∈ t.registry.handles ↔ a.state = .linked)) := by
  intro s t
  obtain ⟨hsound, hsettled⟩ := Session.after_settled earlier
  obtain ⟨hadvances, hanswers⟩ := LoadRequest.run_registers (r := r) hsound
  refine ⟨fun e he => ?_, ⟨hadvances.store, ?_⟩, fun h hok => ?_, fun stop herror => ?_⟩
  · obtain ⟨a, ha, hcomplete, huid⟩ := hsettled.run hsound e he
    obtain ⟨b, hb, hname, hbuid⟩ := hadvances.sound.stored e he
    obtain rfl : b = a := Option.some.inj (hb.symm.trans ha)
    exact ⟨b, ha, hname, hbuid, hcomplete, huid⟩
  · obtain ⟨added, hentries, hadded⟩ := hadvances.entries
    refine ⟨added, hentries, fun e he => ?_⟩
    obtain ⟨-, a, ha, -, hmode, -⟩ := hadded e he
    exact ⟨a, ha, hmode⟩
  · obtain ⟨hprovides, hplace⟩ : t.Provides h ∧ _ := by
      unfold Linker.Answers at hanswers
      rwa [show r.run s = (.ok h, t) from Prod.ext hok rfl] at hanswers
    refine ⟨hprovides.registered, fun hnew => ?_⟩
    rw [Registry.handles, List.getElem?_map]
    exact (hplace.resolve_left hnew).2
  · have hroot : ∀ a, t.store.get? s.nextHandle = some a → a.state = .linking := by
      unfold Linker.Answers at hanswers
      rwa [show r.run s = (.error stop, t) from Prod.ext herror rfl] at hanswers
    have hfails := LoadRequest.failsAt_iff hsound (Prod.ext herror rfl : r.run s = (.error stop, t))
    refine ⟨fun hmem => ?_, fun i => (hfails i).1, fun i => (hfails i).2,
      fun i a hi ha => (hadvances.settled i a hi ha).symm⟩
    obtain ⟨e, he, hhandle⟩ := Session.mem_handles.1 hmem
    obtain ⟨a, ha, -⟩ := hadvances.sound.stored e he
    rw [hhandle] at ha
    have hlinked := (hadvances.settled _ a (Nat.le_refl _) ha).2 hmem
    rw [hroot a ha] at hlinked
    cases hlinked

end AssemblyLinker
