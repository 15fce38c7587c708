import AssemblyLinker.Proofs.Loading.Collaborators
import AssemblyLinker.Proofs.Loading.Bundle

/-! # Loads leave their context as it was

    The payloads of an executable are put into the bundle of the context, which the loads of
    its references share with it.  Here is shown, for any registry and codec, that nothing of
    this outlasts the load.

    * A load of a reference leaves the context as it was, or without its bundle; this is so at
      whatever point it stops (`Collaborators.load_clears`).
    * So a load that begins with an empty bundle gives its context back as it was.
    * Every text that such a load locates is known to the bootstrap, is in a library file, or
      is a payload that this very load has bundled (`Desk.Supplied`).

    The main statement, `load_restores_context`, puts them together.
-/

namespace AssemblyLinker

/-! ## What the parts of a load keep -/

namespace Job

variable {σ α β : Type} {R : Desk σ → Desk σ → Prop}

/-- A part of a load, whatever it comes to, relates the desk after it to the one before. -/
def Leads (job : Job σ α) (R : Desk σ → Desk σ → Prop) : Prop := ∀ d, R d (job d).2

/-- A relation that all parts of a load keep but those that write the bundle. -/
structure Harmless (L : Linker) (R : Desk σ → Desk σ → Prop) : Prop where
  refl : ∀ d, R d d
  trans : ∀ {d d' d''}, R d d' → R d' d'' → R d d''
  world : ∀ d w, R d { d with world := w }
  locates : ∀ {d : Desk σ} {assembly name text : String} {source : TextSource} (h : Handle),
    L.locateText d.context assembly name = .ok (source, text) →
      R d { d with events := .textLocated h name source text :: d.events }

namespace Harmless

variable {L : Linker} (hR : Harmless L R)
include hR

theorem pure (a : α) : (Pure.pure a : Job σ α).Leads R := hR.refl

theorem throw (stop : Stop) : (throwThe Stop stop : Job σ α).Leads R := hR.refl

theorem look (view : σ → α) : (look view).Leads R := hR.refl

theorem ask (call : σ → α × σ) : (ask call).Leads R := fun d => hR.world d _

theorem request (call : σ → Except LinkError α × σ) : (request call).Leads R :=
  fun d => hR.world d _

theorem tell (call : σ → σ) : (tell call).Leads R := fun d => hR.world d _

theorem locate (assembly : String) (h : Handle) (name : String) :
    (locate L assembly h name : Job σ String).Leads R := by
  intro d
  unfold Job.locate
  cases hlocate : L.locateText d.context assembly name with
  | error e => exact hR.refl d
  | ok found => exact hR.locates h hlocate

theorem bind {job : Job σ α} {next : α → Job σ β} (h : job.Leads R)
    (h' : ∀ a, (next a).Leads R) : (job >>= next).Leads R := by
  intro d
  have hfirst := h d
  rcases hjob : job d with ⟨stop | a, d'⟩
  · rw [hjob] at hfirst
    rw [bind_of_error hjob]
    exact hfirst
  · rw [hjob] at hfirst
    rw [bind_of_ok hjob]
    exact hR.trans hfirst (h' a d')

theorem forEach {job : α → Job σ Unit} {xs : List α} (h : ∀ x, (job x).Leads R) :
    (forM xs job : Job σ Unit).Leads R := by
  induction xs with
  | nil => exact hR.refl
  | cons x xs ih =>
    rw [List.forM_cons]
    exact hR.bind (h x) fun _ => ih

end Harmless

end Job

namespace Collaborators

open Job

variable {σ : Type} {C : Collaborators σ} {L : Linker} {R : Desk σ → Desk σ → Prop}
  (hR : Harmless L R) {load : Load σ} {doc : Document}
include hR

theorem reference_leads (hload : ∀ text origin, (load text origin).Leads R) (assembly : String)
    (h : Handle) (r : Reference) : (C.linkReference L load assembly h r).Leads R := by
  unfold linkReference resolveReference
  refine hR.bind (hR.tell _) fun _ => hR.bind (hR.ask _) fun found => ?_
  cases found with
  | some d =>
    refine hR.bind (hR.look _) fun linking => ?_
    cases linking with
    | true => exact hR.throw _
    | false => exact hR.tell _
  | none =>
    exact hR.bind (hR.locate _ _ _) fun text => hR.bind (hload text _) fun _ => hR.tell _

/-- Linking keeps what harvesting keeps. -/
theorem link_leads (hharvest : (Job.harvest doc : Job σ Unit).Leads R)
    (hload : ∀ text origin, (load text origin).Leads R) (h : Handle) :
    (C.link L load doc h).Leads R := by
  unfold link buildModules
  refine hR.bind hharvest fun _ => ?_
  refine hR.bind (hR.forEach fun r => reference_leads hR hload doc.name h r) fun _ => ?_
  exact hR.bind (hR.forEach fun _ => hR.request _) fun _ => hR.forEach fun _ => hR.request _

/-- So does the creation of an assembly, if clearing the bundle at its end is kept. -/
theorem create_leads (hharvest : (Job.harvest doc : Job σ Unit).Leads R)
    (hleave : (leave doc : Job σ Unit).Leads R)
    (hload : ∀ text origin, (load text origin).Leads R) (uid : String) :
    (C.create L load doc uid).Leads R := by
  unfold create finish
  refine hR.bind (hR.ask _) fun h => ?_
  have hattempt : (Job.attempt (C.link L load doc h)).Leads R := link_leads hR hharvest hload h
  refine hR.bind hattempt fun result => hR.bind hleave fun _ => ?_
  cases result with
  | ok _ => exact hR.bind (hR.tell _) fun _ => hR.pure _
  | error stop => exact hR.bind (hR.tell _) fun _ => hR.throw stop

/-- A document is accepted without a change of what creating its assembly keeps. -/
theorem accept_leads (hcreate : ∀ uid, (C.create L load doc uid).Leads R) :
    (C.accept L load doc).Leads R := by
  have huid : (C.uidOf doc).Leads R := by
    unfold uidOf
    split
    · exact hR.ask _
    · exact hR.pure _
  unfold accept acceptAs
  split
  · exact hR.throw _
  · refine hR.bind huid fun uid => hR.bind (hR.ask _) fun found => ?_
    cases found with
    | some h =>
      refine hR.bind (hR.look _) fun linking => ?_
      cases linking with
      | true => exact hR.throw _
      | false => exact hR.pure _
    | none =>
      refine hR.bind (hR.ask _) fun namesake => hR.bind (hR.look _) fun linking => ?_
      cases linking with
      | true => exact hR.throw _
      | false => exact hcreate uid

end Collaborators

/-! ## Where texts come from -/

namespace Desk

variable {σ : Type} {L : Linker} {d d' : Desk σ}

/-- A text that has been located comes from where it is said to come from: a payload has been
    bundled since. -/
def Supplies (L : Linker) (d : Desk σ) (name text : String) : TextSource → Prop
  | .bootstrap => d.context.bootstrapDocument? name = some text
  | .bundle => .payloadBundled name text ∈ d.events
  | .library path => d.context.findLibrary L.files name = .ok (some (path, text))

/-- Every payload in the bundle has been put there since, and every text that has been located
    since comes from where it is said to come from. -/
structure Supplied (L : Linker) (d : Desk σ) : Prop where
  bundled : ∀ p ∈ d.context.bundled, .payloadBundled p.1 p.2 ∈ d.events
  located : ∀ h name source text, .textLocated h name source text ∈ d.events →
    d.Supplies L name text source

/-- A text is located where it is. -/
theorem Supplied.supplies (hd : d.Supplied L) {assembly name text : String} {source : TextSource}
    (h : L.locateText d.context assembly name = .ok (source, text)) :
    d.Supplies L name text source := by
  unfold Linker.locateText at h
  split at h
  next hbootstrap =>
    cases h
    exact hbootstrap
  · split at h
    next hbundled =>
      cases h
      exact hd.bundled (name, text) (mem_of_lookup hbundled)
    · split at h
      next hlibrary =>
        cases h
        exact hlibrary
      · cases h
      · cases h

/-- The sources other than the bundle are those from before, and nothing is located but where
    it is. -/
structure Follows (L : Linker) (d d' : Desk σ) : Prop where
  sources : d'.context.clearBundle = d.context.clearBundle
  supplied : d.Supplied L → d'.Supplied L

/-- What the sources give is the same while only the bundle differs. -/
theorem Supplies.mono {name text : String} {source : TextSource}
    (h : d.Supplies L name text source) (hsources : d'.context.clearBundle = d.context.clearBundle)
    (hevents : d.events ⊆ d'.events) : d'.Supplies L name text source := by
  have hbootstrap : d'.context.bootstrap = d.context.bootstrap := by
    have hsame := congrArg LoadContext.bootstrap hsources
    exact hsame
  have hpath : d'.context.searchPath = d.context.searchPath := by
    have hsame := congrArg LoadContext.searchPath hsources
    exact hsame
  cases source with
  | bootstrap =>
    show d'.context.bootstrap.bind _ = some text
    rw [hbootstrap]
    exact h
  | bundle => exact hevents h
  | library path =>
    show LoadContext.findLibraryIn L.files name d'.context.searchPath = .ok (some (path, text))
    rw [hpath]
    exact h

theorem follows_harmless (L : Linker) : Job.Harmless L (Follows L : Desk σ → Desk σ → Prop) where
  refl _ := ⟨rfl, id⟩
  trans h h' := ⟨h'.sources.trans h.sources, fun hd => h'.supplied (h.supplied hd)⟩
  world _ _ := ⟨rfl, fun hd => ⟨hd.bundled, hd.located⟩⟩
  locates := by
    intro d assembly name text source h hlocate
    refine ⟨rfl, fun hd => ⟨fun p hp => List.mem_cons_of_mem _ (hd.bundled p hp), ?_⟩⟩
    intro h' name' source' text' hmem
    have hgrows : d.events ⊆ .textLocated h name source text :: d.events :=
      List.subset_cons_self _ _
    rcases List.mem_cons.1 hmem with heq | hmem
    · cases heq
      exact (hd.supplies hlocate).mono rfl hgrows
    · exact (hd.located h' name' source' text' hmem).mono rfl hgrows

/-- A context with other payloads, after an event that tells of no text. -/
theorem Follows.of_bundled {bundled : List (String × String)} {e : Event}
    (he : ∀ h name source text, e ≠ .textLocated h name source text)
    (hbundled : ∀ p ∈ bundled, p ∈ d.context.bundled ∨ e = .payloadBundled p.1 p.2) :
    d.Follows L { d with context := { d.context with bundled }, events := e :: d.events } := by
  refine ⟨rfl, fun hd => ⟨fun p hp => ?_, fun h name source text hmem => ?_⟩⟩
  · rcases hbundled p hp with hold | rfl
    · exact List.mem_cons_of_mem _ (hd.bundled p hold)
    · exact List.mem_cons_self
  · rcases List.mem_cons.1 hmem with heq | hmem
    · exact absurd heq.symm (he h name source text)
    · exact (hd.located h name source text hmem).mono rfl (List.subset_cons_self _ _)

theorem harvest_follows (L : Linker) (doc : Document) :
    (Job.harvest doc : Job σ Unit).Leads (Follows L) := by
  have hreference : ∀ r, (Job.harvestReference doc.name r : Job σ Unit).Leads (Follows L) := by
    intro r
    unfold Job.harvestReference
    cases payload doc.name r with
    | error e => exact (follows_harmless L).throw _
    | ok text =>
      intro d
      refine .of_bundled (by simp) fun p hp => ?_
      -- an older payload of the name gives way, the others stay
      rcases List.mem_append.1 hp with hold | hnew
      · exact .inl (List.mem_of_mem_filter hold)
      · rw [List.mem_singleton.1 hnew]
        exact .inr rfl
  unfold Job.harvest
  split
  · exact (follows_harmless L).forEach hreference
  · exact (follows_harmless L).pure _

theorem leave_follows (L : Linker) (doc : Document) :
    (Job.leave doc : Job σ Unit).Leads (Follows L) := by
  unfold Job.leave
  split
  · intro d
    refine .of_bundled (by simp) fun p hp => ?_
    cases hp
  · exact (follows_harmless L).pure _

/-! ## What becomes of the bundle -/

/-- The context is as it was, or without its bundle. -/
def Clears (d d' : Desk σ) : Prop :=
  d'.context = d.context ∨ d'.context = d.context.clearBundle

theorem clears_harmless (L : Linker) : Job.Harmless L (Clears : Desk σ → Desk σ → Prop) where
  refl _ := .inl rfl
  trans := by
    intro d d' d'' h h'
    unfold Clears at *
    rcases h with h | h
    · rwa [h] at h'
    · rw [h] at h'
      rcases h' with h' | h'
      · exact .inr h'
      · exact .inr h'
  world _ _ := .inl rfl
  locates _ _ := .inl rfl

end Desk

namespace Collaborators

open Desk Job

variable {σ : Type} (C : Collaborators σ) (L : Linker)

theorem finish_context (doc : Document) (h : Handle) (result : Outcome Unit) (d : Desk σ) :
    (C.finish doc h result d).2.context =
      if doc.executable then d.context.clearBundle else d.context := by
  unfold finish leave
  cases doc.executable <;> cases result <;> rfl

/-- An executable has its payloads in the bundle while it is linked, and the bundle is cleared
    when this is over; a library leaves to its references what becomes of the bundle. -/
theorem create_clears {load : Load σ} {doc : Document}
    (hfollows : ∀ text origin, (load text origin).Leads (Follows L))
    (hclears : ∀ text origin, (load text origin).Leads Clears) (uid : String) :
    (C.create L load doc uid).Leads Clears := by
  by_cases hexecutable : doc.executable = true
  · intro d
    unfold create
    rcases hregister : Job.ask (C.register (Linker.newAssembly doc uid)) d with ⟨_ | h, d₁⟩
    · cases hregister
    have hcontext : d₁.context = d.context := by
      cases hregister
      rfl
    rw [bind_of_ok hregister]
    have hlink : d₁.Follows L (C.link L load doc h d₁).2 :=
      link_leads (follows_harmless L) (harvest_follows L doc) hfollows h d₁
    rw [bind_of_ok (attempt_apply _ _)]
    -- what is left of the context is what was there without the bundle
    right
    rw [C.finish_context, if_pos hexecutable, hlink.sources, hcontext]
  · have hharvest : (Job.harvest doc : Job σ Unit).Leads Clears := by
      unfold Job.harvest
      rw [if_neg hexecutable]
      exact (clears_harmless L).pure _
    have hleave : (leave doc : Job σ Unit).Leads Clears := by
      unfold leave
      rw [if_neg hexecutable]
      exact (clears_harmless L).pure _
    exact create_leads (clears_harmless L) hharvest hleave hclears uid

theorem loadWithin_leads (depth : Nat) : ∀ text origin,
    (C.loadWithin L depth text origin).Leads (Follows L) ∧
      (C.loadWithin L depth text origin).Leads Clears := by
  induction depth with
  | zero => exact fun _ _ => ⟨(follows_harmless L).refl, (clears_harmless L).refl⟩
  | succ depth ih =>
    intro text origin
    unfold loadWithin
    cases Document.parse text origin with
    | error e => exact ⟨(follows_harmless L).refl, (clears_harmless L).refl⟩
    | ok doc =>
      have hfollows := fun text origin => (ih text origin).1
      constructor
      · exact accept_leads (follows_harmless L) fun uid =>
          create_leads (follows_harmless L) (harvest_follows L doc) (leave_follows L doc) hfollows uid
      · exact accept_leads (clears_harmless L) fun uid =>
          C.create_clears L hfollows (fun text origin => (ih text origin).2) uid

/-- A load leaves its context as it was, or without its bundle. -/
theorem load_clears (text origin : String) : (C.load L text origin).Leads Clears :=
  (C.loadWithin_leads L L.maxDepth text origin).2

theorem load_follows (text origin : String) : (C.load L text origin).Leads (Follows L) :=
  (C.loadWithin_leads L L.maxDepth text origin).1

end Collaborators

/-- Whatever the registry, the codec and the uids are, and whatever a load of whatever text comes
    to, it gives a context without payloads back as it was.  So a later load with that context,
    by any linker and with any other collaborators, locates a text only if the bootstrap knows
    it, a library file holds it, or this later load has bundled it itself.

    The load of sessions is this load with its own registry and codec. -/
theorem load_restores_context {σ : Type} (C : Collaborators σ) (L : Linker) (text origin : String)
    (d : Desk σ) (hempty : d.context.bundled = []) :
    let after := (C.load L text origin d).2
    after.context = d.context ∧
    (∀ (τ : Type) (C' : Collaborators τ) (L' : Linker) (text' origin' : String) (world : τ),
      let later := (C'.load L' text' origin' { context := after.context, world }).2
      ∀ h name source found, .textLocated h name source found ∈ later.events →
        match source with
        | .bootstrap => d.context.bootstrapDocument? name = some found
        | .bundle => .payloadBundled name found ∈ later.events
        | .library path => d.context.findLibrary L'.files name = .ok (some (path, found))) ∧
    ∀ s : Session, L.own.load L text origin s.desk =
      ((L.load text origin s).1, (L.load text origin s).2.desk) := by
  intro after
  -- clearing an empty bundle changes nothing
  have hcleared : d.context.clearBundle = d.context := by
    unfold LoadContext.clearBundle
    rw [← hempty]
  have hkept : after.context = d.context := by
    rcases C.load_clears L text origin d with h | h
    · exact h
    · exact h.trans hcleared
  refine ⟨hkept, ?_, L.load_shows text origin⟩
  intro τ C' L' text' origin' world later h name source found hlocated
  have hfollows := C'.load_follows L' text' origin' { context := after.context, world }
  have hstart : Desk.Supplied L' { context := after.context, world } := by
    refine ⟨fun p hp => ?_, fun _ _ _ _ hmem => ?_⟩
    · rw [hkept, hempty] at hp
      cases hp
    · cases hmem
  have hsupplied := (hfollows.supplied hstart).located h name source found hlocated
  -- the sources are still those that the context has had
  have hsources : d.context.clearBundle = later.context.clearBundle := by
    rw [hfollows.sources, hkept]
  have hsame : Desk.Supplies L' { context := d.context, world, events := later.events } name found
      source := hsupplied.mono hsources (List.Subset.refl _)
  cases source <;> exact hsame

/-- An executable ships a library and stops on the way to it.  Its payloads are forgotten: a later
    load with the context has the library only if it bundles it anew. -/
theorem shipped_library_forgotten :
    let L : Linker := {}
    let after := (L.own.load L (Linker.shippingRoot true).render "" ({} : Session).desk).2
    (L.load (Linker.shippingRoot true).render "" {}).1 =
        .error (.failed (.unresolvedReference "Main" "Library")) ∧
      after.context = {} ∧
      ∀ text origin h source found,
        let later := (L.own.load L text origin { context := after.context, world := {} }).2
        .textLocated h "Library" source found ∈ later.events →
          .payloadBundled "Library" found ∈ later.events := by
  -- the loads are written out here, so that they are compared as they stand and not run
  dsimp only
  obtain ⟨hkept, hlater, -⟩ := load_restores_context ({} : Linker).own {}
    (Linker.shippingRoot true).render "" ({} : Session).desk rfl
  refine ⟨Linker.load_shippingRoot "", hkept, ?_⟩
  intro text origin h source found hlocated
  have hsource := hlater Session ({} : Linker).own {} text origin {} h "Library" source found
    hlocated
  -- there is neither a bootstrap nor a search path
  cases source with
  | bootstrap => cases hsource
  | bundle => exact hsource
  | library path => cases hsource

end AssemblyLinker
