import AssemblyLinker.Proofs.Loading.Registration
import AssemblyLinker.Proofs.Loading.Reloading

/-! # The events of a load

    A load changes its session by events alone.  Here is said, once for all events, what holds
    of the session in which a load records one (`Session.Permits`): only an assembly that is
    being linked is changed, it is linked to linked assemblies only, and it is linked itself
    when every name in it resolves.

    * Whatever a load comes to, it comes there by such events (`Linker.leadsOn`), and its
      history lists them: replayed, they lead there again (`LoadRequest.run_eq_replay`).
    * So the sessions that a series of loads passes through are known (`Session.passed`),
      those in the middle of a load included, where a part of the events leads
      (`Session.mem_through_iff`).
    * A relation that every such event keeps holds between any two of them, the earlier one
      first (`Session.Lasting.passed`).
-/

namespace AssemblyLinker

/-! ## Assemblies in which every name resolves -/

/-- No two modules and no two types of an assembly go by one name, every type has its body, and
    every name in a body is that of a primitive type or is located in a store. -/
structure Store.SymbolComplete (store : Store) (a : Assembly) : Prop extends a.WellFormed where
  resolved : ∀ m ∈ a.modules, ∀ t ∈ m.types, ∀ body, t.body = some body →
    ∀ name ∈ body.typeNames, name ∈ primitiveTypes ∨ (store.locateType? a name).isSome = true

/-- Modules that have been built are such. -/
theorem Linker.Buildable.symbolComplete {s t : Session} {h : Handle} {js : List Json}
    {ds : List ModuleDocument} {a : Assembly} (hbuildable : Linker.Buildable s h js ds)
    (ht : s.Rebuilt h (ds.map ModuleDocument.built) t) (ha : t.store.get? h = some a)
    (hmodules : a.modules = ds.map ModuleDocument.built) : t.store.SymbolComplete a := by
  have hnames : ModuleInfo.fullNames (ds.map ModuleDocument.built) =
      ModuleDocument.fullNames ds := by
    have hstage := ModuleDocument.fullNames_stage ds []
    rwa [ModuleDocument.stage, List.map_nil, List.append_nil, List.append_nil] at hstage
  refine ⟨⟨?_, ?_, ?_⟩, ?_⟩
  · rw [hmodules, List.map_map]
    exact hbuildable.distinct.modules
  · rw [hmodules, hnames]
    exact hbuildable.distinct.types
  · rw [hmodules]
    intro m hm type htype
    obtain ⟨d, -, rfl⟩ := List.mem_map.1 hm
    obtain ⟨document, -, rfl⟩ := List.mem_map.1 htype
    rfl
  · rw [hmodules]
    intro m hm type htype body hbody name hname
    obtain ⟨d, hd, rfl⟩ := List.mem_map.1 hm
    obtain ⟨document, hdocument, rfl⟩ := List.mem_map.1 htype
    obtain rfl : document.body = body := Option.some.inj hbody
    obtain ⟨b, hb, hresolves⟩ := hbuildable.resolved d hd document hdocument name hname
    -- the store in which the names resolve is the one that has come of the passes
    have hstore : (s.update h ({ · with modules := ds.map ModuleDocument.built })).store =
        t.store := ht.store.symm
    rw [hstore] at hb hresolves
    rw [ha] at hb
    obtain rfl := Option.some.inj hb
    simpa [ModuleDocument.resolves] using hresolves

/-! ## What a load may record -/

namespace Session

/-- What holds of a session in which a load records an event. -/
def Permits (s : Session) : Event → Prop
  | .created a => a.state = .linking ∧ a.references = [] ∧ a.dependencies = []
  | .referenceAdded h _ => s.isLinking h = true
  | .dependencyAdded h d => s.isLinking h = true ∧ s.Linked d
  | .declareCalled h _ => s.isLinking h = true
  | .defineCalled h _ => s.isLinking h = true
  | .completed h =>
    ∃ a, s.store.get? h = some a ∧ a.state = .linking ∧ s.store.SymbolComplete a
  | .uidDrawn => True
  | .payloadBundled .. => True
  | .bundleCleared => True
  | .textLocated .. => True
  | .abandoned _ => True

theorem replay_append (s : Session) (events events' : List Event) :
    s.replay (events ++ events') = (s.replay events).replay events' :=
  List.foldl_append

/-- What is replayed is remembered, the latest event first. -/
theorem history_replay (events : List Event) : ∀ s : Session,
    (s.replay events).history = events.reverse ++ s.history := by
  induction events with
  | nil => exact fun s => rfl
  | cons e events ih =>
    intro s
    show ((s.record e).replay events).history = _
    rw [ih, List.reverse_cons, List.append_assoc]
    rfl

/-- A session leads to another by events, each of them permitted where it comes. -/
inductive Leads : Session → List Event → Session → Prop where
  | nil (s : Session) : Leads s [] s
  | cons {s t : Session} {e : Event} {events : List Event} :
      s.Permits e → Leads (s.record e) events t → Leads s (e :: events) t

namespace Leads

variable {s t u : Session} {e : Event} {events events' : List Event}

theorem append (hst : s.Leads events t) (htu : t.Leads events' u) :
    s.Leads (events ++ events') u := by
  induction hst with
  | nil s => exact htu
  | cons he _ ih => exact .cons he (ih htu)

theorem concat (hst : s.Leads events t) (he : t.Permits e) :
    s.Leads (events ++ [e]) (t.record e) :=
  hst.append (.cons he (.nil _))

/-- Replaying the events leads to the same session. -/
theorem eq_replay (h : s.Leads events t) : t = s.replay events := by
  induction h with
  | nil s => rfl
  | cons _ _ ih => exact ih

/-- The history lists the events, the latest first. -/
theorem history_eq (h : s.Leads events t) : t.history = events.reverse ++ s.history := by
  rw [h.eq_replay, history_replay]

end Leads

/-- A session leads to another by some events. -/
def LeadsTo (s t : Session) : Prop := ∃ events, s.Leads events t

namespace LeadsTo

variable {s t u : Session} {e : Event}

theorem refl (s : Session) : s.LeadsTo s := ⟨[], .nil s⟩

theorem trans (hst : s.LeadsTo t) (htu : t.LeadsTo u) : s.LeadsTo u := by
  obtain ⟨events, hst⟩ := hst
  obtain ⟨events', htu⟩ := htu
  exact ⟨_, hst.append htu⟩

theorem record (hst : s.LeadsTo t) (he : t.Permits e) : s.LeadsTo (t.record e) := by
  obtain ⟨events, hst⟩ := hst
  exact ⟨_, hst.concat he⟩

theorem identify (hst : s.LeadsTo t) (doc : Document) : s.LeadsTo (t.identify doc) := by
  unfold Session.identify
  split
  · exact hst.record trivial
  · exact hst

theorem leave (hst : s.LeadsTo t) (doc : Document) : s.LeadsTo (t.leave doc) := by
  unfold Session.leave
  split
  · exact hst.record trivial
  · exact hst

end LeadsTo

end Session

namespace Linker

variable {L : Linker} {s t u : Session} {doc : Document}

theorem Frame.isLinking (h : L.Frame s doc t) : t.isLinking s.nextHandle = true := by
  obtain ⟨a, ha, hlinking, -⟩ := h.own
  simp [Session.isLinking, ha, hlinking]

/-- The assembly that is being linked may refer to another one, and find its text. -/
theorem Frame.leadsTo_refer (h : L.Frame s doc t) (hut : u.LeadsTo t) (name : String)
    (source : TextSource) (text : String) : u.LeadsTo (t.refer s.nextHandle name source text) :=
  (hut.record (e := .referenceAdded s.nextHandle name) h.isLinking).record trivial

/-- What is registered and linked may become a dependency of the assembly that is being linked. -/
theorem Frame.leadsTo_dependency (h : L.Frame s doc t) (hut : u.LeadsTo t) {d : Handle}
    (hd : t.Provides d) : u.LeadsTo (t.record (.dependencyAdded s.nextHandle d)) :=
  hut.record ⟨h.isLinking, hd.linked⟩

/-- A load, and each of its steps, leads on by events that are permitted. -/
theorem leadsOn : L.Contract
    (fun text s r => L.RegistersLinked text s r ∧ (s.Sound → s.LeadsTo r.2))
    (fun text s doc done t => L.Underway text s doc done t ∧ (s.Sound → s.LeadsTo t))
    (fun _ s doc t => (s.Sound → L.Frame s doc t) ∧ (s.Sound → s.LeadsTo t)) :=
  registersLinked.extend {
    tooDeep := fun _ s _ => .refl s
    failed := fun _ s _ _ => .refl s
    circular := fun _ s doc _ => .identify (.refl s) doc
    known := fun _ _ s doc _ _ _ _ _ _ => .identify (.refl s) doc
    opens := by
      intro _ _ s doc t _ opens _
      rw [opens.session]
      exact (Session.LeadsTo.identify (.refl s) doc).record ⟨rfl, rfl, rfl⟩
    bundles := fun _ _ _ _ _ _ h _ _ _ hs => (h.2 hs).record trivial
    joins := by
      intro _ s doc _ t r d h found linked hs
      have hframe : L.Frame s doc (t.record (.referenceAdded s.nextHandle r.name)) :=
        (h.1 hs).1.1.addReference rfl rfl
      have hreferred := (h.2 hs).record (e := .referenceAdded s.nextHandle r.name)
        (h.1 hs).1.1.isLinking
      exact hframe.leadsTo_dependency hreferred
        (hframe.sound.provides (Registry.mem_handles_of_findByName? found) linked)
    loads := by
      intro _ s doc _ t r source found d u h _ _ loaded hs
      have hframe := (h.1 hs).1.1.refer r.name source found
      have hreferred := (h.1 hs).1.1.leadsTo_refer (h.2 hs) r.name source found
      -- the nested load leads on from there, with the frame as it is
      obtain ⟨hadvances, hprovides, -⟩ := loaded.1 hframe.sound
      exact (hframe.nested hadvances).leadsTo_dependency
        (hreferred.trans (loaded.2 hframe.sound)) hprovides
    declares := by
      intro _ s doc t j h hs
      obtain ⟨a, ha, -⟩ := (h.1 hs).1.1.own
      obtain ⟨modules, hdeclare⟩ := Session.declare_records ha j
      rw [hdeclare]
      exact (h.2 hs).record (h.1 hs).1.1.isLinking
    defines := by
      intro _ s doc t j h hs
      obtain ⟨a, ha, -⟩ := (h.1 hs).1.1.own
      obtain ⟨modules, hdefine⟩ := Session.define_records ha j
      rw [hdefine]
      exact (h.2 hs).record (h.1 hs).1.1.isLinking
    breaks := fun _ _ _ _ _ h => h.2
    breaksAtReference := fun _ _ _ _ _ _ h hs => (h.2 hs).record (h.1 hs).1.1.isLinking
    breaksInLoad := by
      intro _ s doc _ t r source found _ u h _ _ loaded hs
      have hframe := (h.1 hs).1.1.refer r.name source found
      exact ((h.1 hs).1.1.leadsTo_refer (h.2 hs) r.name source found).trans (loaded.2 hframe.sound)
    completes := by
      intro _ s doc t depth o p u h stages hs
      -- its modules have been built, and nothing else has come since
      obtain ⟨ds, ms, -, -, hown, hbuildable, hrebuilt, -⟩ := stages.linked
      have hbuilt := hrebuilt.get? hown
      have hleft : (t.leave doc).store = t.store := Session.leave_store t doc
      refine ((h.2 hs).leave doc).record ⟨_, hleft ▸ hbuilt, rfl, ?_⟩
      rw [hleft]
      exact hbuildable.symbolComplete hrebuilt hbuilt rfl
    abandons := fun _ _ doc _ _ h hs => ((h.2 hs).leave doc).record trivial }

end Linker

/-! ## The sessions that are passed through -/

namespace Session

/-- The sessions that a session passes through as events come in order, itself the first and
    the one after all events the last. -/
def through (s : Session) : List Event → List Session
  | [] => [s]
  | e :: rest => s :: (s.record e).through rest

/-- What is passed through is what the events up to some place come to. -/
theorem mem_through_iff {u : Session} {events : List Event} : ∀ {s : Session},
    u ∈ s.through events ↔ ∃ done rest, events = done ++ rest ∧ u = s.replay done := by
  induction events with
  | nil =>
    intro s
    rw [through, List.mem_singleton]
    constructor
    · exact fun hu => ⟨[], [], rfl, hu⟩
    · rintro ⟨done, rest, hevents, rfl⟩
      rw [(List.append_eq_nil_iff.1 hevents.symm).1]
      rfl
  | cons e events ih =>
    intro s
    rw [through, List.mem_cons, ih]
    constructor
    · rintro (rfl | ⟨done, rest, rfl, hu⟩)
      · exact ⟨[], e :: events, rfl, rfl⟩
      · exact ⟨e :: done, rest, rfl, hu⟩
    · rintro ⟨done, rest, hevents, hu⟩
      -- no event has come yet, or the first one is this
      rcases done with _ | ⟨first, done⟩
      · exact .inl hu
      · obtain ⟨rfl, hrest⟩ := List.cons.inj hevents
        exact .inr ⟨done, rest, hrest, hu⟩

/-- The events in a history since an earlier session, the earliest first. -/
def eventsSince (s t : Session) : List Event :=
  (t.history.take (t.history.length - s.history.length)).reverse

theorem eventsSince_of_history {s t : Session} {events : List Event}
    (h : t.history = events ++ s.history) : s.eventsSince t = events.reverse := by
  unfold eventsSince
  rw [h, List.length_append, Nat.add_sub_cancel, List.take_left' rfl]

theorem eventsSince_of_leads {s t : Session} {events : List Event} (h : s.Leads events t) :
    s.eventsSince t = events := by
  rw [eventsSince_of_history h.history_eq, List.reverse_reverse]

end Session

/-- The session in which a load begins. -/
def LoadRequest.start (r : LoadRequest) (s : Session) : Session := { s with context := r.context }

/-- The sessions that a load passes through, from the one in which it begins to the one in which
    it ends, as its history tells. -/
def LoadRequest.passed (r : LoadRequest) (s : Session) : List Session :=
  (r.start s).through ((r.start s).eventsSince (r.run s).2)

/-- The sessions that loads in a row pass through, that before the first one included. -/
def Session.passedFrom : Session → List LoadRequest → List Session
  | s, [] => [s]
  | s, r :: rest => s :: r.passed s ++ (r.run s).2.passedFrom rest

/-- The sessions that a series of loads passes through. -/
def Session.passed (requests : List LoadRequest) : List Session :=
  ({} : Session).passedFrom requests

namespace LoadRequest

variable {r : LoadRequest} {s : Session}

theorem sound_start (hs : s.Sound) : (r.start s).Sound := ⟨hs.distinct, hs.stored⟩

/-- A load leads on from the session in which it begins. -/
theorem run_leads (hs : s.Sound) : (r.start s).Leads ((r.start s).eventsSince (r.run s).2)
    (r.run s).2 := by
  have hload := (r.linker.leadsOn.holds r.linker.maxDepth r.text r.origin (r.start s)).2
  obtain ⟨events, hleads⟩ := hload (sound_start hs)
  show (r.start s).Leads ((r.start s).eventsSince (r.linker.load r.text r.origin (r.start s)).2) _
  rw [Linker.load, Session.eventsSince_of_leads hleads]
  exact hleads

/-- What a load has recorded, replayed in the session in which it began, gives the one in which
    it ended. -/
theorem run_eq_replay (hs : s.Sound) :
    (r.run s).2 = (r.start s).replay ((r.start s).eventsSince (r.run s).2) :=
  (run_leads hs).eq_replay

end LoadRequest

namespace Session

variable {s t u : Session} {events : List Event}

theorem self_mem_passedFrom (s : Session) (requests : List LoadRequest) :
    s ∈ s.passedFrom requests := by
  cases requests with
  | nil => exact List.mem_singleton.2 rfl
  | cons r requests => exact List.mem_cons_self

/-- The sessions between the loads, and that after the last one, are among them. -/
theorem foldl_mem_passedFrom (earlier later : List LoadRequest) : ∀ s : Session,
    earlier.foldl (fun s r => (r.run s).2) s ∈ s.passedFrom (earlier ++ later) := by
  induction earlier with
  | nil => exact fun s => self_mem_passedFrom s later
  | cons r earlier ih => exact fun s => List.mem_append_right _ (ih (r.run s).2)

theorem after_mem_passed (earlier later : List LoadRequest) :
    after earlier ∈ passed (earlier ++ later) :=
  foldl_mem_passedFrom earlier later {}

/-- A relation that every permitted event keeps, and every change of the context between loads. -/
structure Lasting (R : Session → Session → Prop) : Prop where
  refl : ∀ s, R s s
  trans : ∀ {s t u}, R s t → R t u → R s u
  context : ∀ s context, R s { s with context }
  event : ∀ {s e}, s.Permits e → R s (s.record e)

/-- What every permitted event keeps is kept for good. -/
theorem lasting_of_invariant {Inv : Session → Prop}
    (context : ∀ s context, Inv s → Inv { s with context })
    (event : ∀ {s e}, s.Permits e → Inv s → Inv (s.record e)) :
    Lasting fun s t => Inv s → Inv t where
  refl _ hs := hs
  trans hst htu hs := htu (hst hs)
  context := context
  event := event

namespace Lasting

variable {R : Session → Session → Prop} (hR : Lasting R)
include hR

theorem leads (h : s.Leads events t) : R s t := by
  induction h with
  | nil s => exact hR.refl s
  | cons he _ ih => exact hR.trans (hR.event he) ih

theorem leadsTo (h : s.LeadsTo t) : R s t := by
  obtain ⟨events, hleads⟩ := h
  exact hR.leads hleads

/-- It holds between all sessions on the way of some events. -/
theorem through (h : s.Leads events t) : (∀ u ∈ s.through events, R s u ∧ R u t) ∧
    (s.through events).Pairwise R := by
  induction h with
  | nil s =>
    refine ⟨fun u hu => ?_, List.pairwise_singleton R s⟩
    rw [List.mem_singleton.1 hu]
    exact ⟨hR.refl s, hR.refl s⟩
  | @cons s t e events he hrest ih =>
    have hfirst : ∀ u ∈ (s.record e).through events, R s u := fun u hu =>
      hR.trans (hR.event he) (ih.1 u hu).1
    refine ⟨fun u hu => ?_, List.pairwise_cons.2 ⟨hfirst, ih.2⟩⟩
    rcases List.mem_cons.1 hu with rfl | hu
    · exact ⟨hR.refl u, hR.leads (.cons he hrest)⟩
    · exact ⟨hfirst u hu, (ih.1 u hu).2⟩

/-- It holds between all sessions that loads in a row pass through. -/
theorem passedFrom (requests : List LoadRequest) : ∀ {s : Session}, s.Sound →
    (∀ u ∈ s.passedFrom requests, R s u) ∧ (s.passedFrom requests).Pairwise R := by
  induction requests with
  | nil =>
    intro s _
    refine ⟨fun u hu => ?_, List.pairwise_singleton R s⟩
    rw [List.mem_singleton.1 hu]
    exact hR.refl s
  | cons r requests ih =>
    intro s hs
    obtain ⟨hload, hinside⟩ := hR.through (LoadRequest.run_leads (r := r) hs)
    obtain ⟨hlater, hpairs⟩ := ih (LoadRequest.run_registers (r := r) hs).1.sound
    have hstart : R s (r.start s) := hR.context s r.context
    -- before the load, in it, and after it
    have hfirst : ∀ u ∈ r.passed s ++ (r.run s).2.passedFrom requests, R s u := by
      intro u hu
      rcases List.mem_append.1 hu with hu | hu
      · exact hR.trans hstart (hload u hu).1
      · have hrun : R s (r.run s).2 :=
          hR.trans hstart (hR.leads (LoadRequest.run_leads hs))
        exact hR.trans hrun (hlater u hu)
    refine ⟨fun u hu => ?_, List.pairwise_cons.2 ⟨hfirst, List.pairwise_append.2
      ⟨hinside, hpairs, fun u hu v hv => hR.trans (hload u hu).2 (hlater v hv)⟩⟩⟩
    rcases List.mem_cons.1 hu with rfl | hu
    · exact hR.refl u
    · exact hfirst u hu

/-- It holds between any two sessions that a series of loads passes through, the earlier one
    first. -/
theorem passed (requests : List LoadRequest) : (Session.passed requests).Pairwise R :=
  (hR.passedFrom requests (after_settled []).1).2

/-- What holds at first and is kept holds of all sessions that are passed through. -/
theorem from_empty {requests : List LoadRequest} (hu : u ∈ Session.passed requests) : R {} u :=
  (hR.passedFrom requests (after_settled []).1).1 u hu

end Lasting

end Session

end AssemblyLinker
