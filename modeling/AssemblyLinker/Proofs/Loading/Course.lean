import AssemblyLinker.Proofs.Loading.Symbols

/-! # The course of a load

    A load that succeeds is a tree of loads: a text is answered with what is registered, or its
    document is opened, the references are linked in order, some of them by a load of their own,
    and the modules are built at last.  `Course` says which assemblies come out of this, in what
    order, and which events the load records on the way.  Each part of a course begins in the
    session that the events so far come to, and what is registered and linked there decides
    whether anything is made.

    What is said about assemblies and events is an induction on the course:

    * the assemblies are those of their documents, each with the next uid where the document
      states none (`Course.realizes`, `Course.uid_eq`);
    * events of a kind are counted assembly by assembly (`Course.countP_eq`), so new handles and
      uids count up (`Course.length_eq`, `Course.uidsDrawn_eq`), and there is one call of each
      pass for each module;
    * only the modules of new assemblies are built (`Course.builds_eq_false`);
    * those of one assembly are built in one go, after all of its references
      (`Course.buildsOnce`), so each assembly that it depends on has been linked by then
      (`Session.Leads.linked_before`).
-/

namespace AssemblyLinker

open Linker

/-! ## What a load makes -/

/-- An assembly is what its document says.  Modules and their documents go in pairs. -/
structure Assembly.Realizes (a : Assembly) (doc : Document) : Prop where
  name : a.name = doc.name
  version : a.version = doc.version
  loomConfig : a.loomConfig = doc.loomConfig
  executable : a.executable = doc.executable
  debugBuild : a.debugBuild = false ↔ doc.debugBuild = some false
  mode : a.mode = doc.mode
  references : a.references = doc.references.map (·.name)
  dependencies : a.dependencies.length = a.references.length
  modules : List.Forall₂ (fun j m => ∃ d, ModuleDocument.read j = .ok d ∧ m = d.built)
    doc.modules a.modules
  linked : a.state = .linked

theorem Linker.realizes_linkedAssembly {doc : Document} {uid : String} {ds : List Handle}
    {ms : List ModuleDocument} (hds : ds.length = doc.references.length)
    (hread : doc.modules.map ModuleDocument.read = ms.map .ok) :
    (linkedAssembly doc uid ds ms).Realizes doc where
  name := rfl
  version := rfl
  loomConfig := rfl
  executable := rfl
  debugBuild := by
    show (doc.debugBuild != some false) = false ↔ _
    rw [bne_eq_false_iff_eq]
  mode := rfl
  references := rfl
  dependencies := by simpa [linkedAssembly, Assembly.addLinks, newAssembly] using hds
  modules := by
    show List.Forall₂ _ doc.modules (ms.map ModuleDocument.built)
    generalize doc.modules = js at hread
    induction ms generalizing js with
    | nil =>
      obtain rfl := List.map_eq_nil_iff.1 hread
      exact .nil
    | cons d ms ih =>
      obtain ⟨j, js, rfl, hj, hjs⟩ := List.map_eq_cons_iff.1 hread
      exact .cons ⟨d, hj, rfl⟩ (ih js hjs)
  linked := rfl

namespace Document

/-- How many uids are drawn for a document. -/
def draws (doc : Document) : Nat := if doc.uid = "" then 1 else 0

/-- The uid of a document that is opened when some uids of a stream have been drawn. -/
def uidFrom (doc : Document) (uids : UidStream) (drawn : Nat) : String :=
  if doc.uid = "" then uids drawn else doc.uid

end Document

/-- An assembly that a load makes, and the document that it is made from. -/
structure Made where
  document : Document
  assembly : Assembly

namespace Made

/-- How many uids are drawn for the documents. -/
def draws (made : List Made) : Nat := (made.map (·.document.draws)).sum

/-- The entries of the assemblies under handles that count up. -/
def entries (first : Handle) (made : List Made) : List Entry :=
  made.mapIdx fun i m => ⟨m.assembly.name, m.assembly.uid, first + i⟩

/-- What stands at a place of two lists in a row is in the first one, or in the second one at the
    place that is left. -/
theorem of_getElem?_append {i : Nat} {m : Made} {made made' : List Made}
    (hm : (made ++ made')[i]? = some m) : (i < made.length ∧ made[i]? = some m) ∨
      ∃ j, i = made.length + j ∧ made'[j]? = some m := by
  by_cases hi : i < made.length
  · rw [List.getElem?_append_left hi] at hm
    exact .inl ⟨hi, hm⟩
  · have hle := Nat.le_of_not_lt hi
    rw [List.getElem?_append_right hle] at hm
    exact .inr ⟨i - made.length, (Nat.add_sub_cancel' hle).symm, hm⟩

variable (first : Handle) (m : Made) (made made' : List Made)

@[simp] theorem draws_cons : draws (m :: made) = m.document.draws + draws made := rfl

@[simp] theorem draws_append : draws (made ++ made') = draws made + draws made' := by
  simp [draws]

theorem entries_cons : entries first (m :: made) =
    ⟨m.assembly.name, m.assembly.uid, first⟩ :: entries (first + 1) made := by
  simp [entries, List.mapIdx_cons, Nat.add_assoc, Nat.add_comm 1]

theorem entries_append : entries first (made ++ made') =
    entries first made ++ entries (first + made.length) made' := by
  simp [entries, List.mapIdx_append, Nat.add_assoc, Nat.add_comm made.length]

end Made

/-! ## The events of a load -/

namespace Event

/-- The events with which a document is opened. -/
def opening (doc : Document) (uid : String) : List Event :=
  (if doc.uid = "" then [.uidDrawn] else []) ++ [.created (newAssembly doc uid)]

/-- The events with which the payloads of a document go into the bundle. -/
def harvest (doc : Document) : List Event :=
  if doc.executable then
    doc.references.filterMap fun r => (payload doc.name r).toOption.map (.payloadBundled r.name)
  else []

/-- The events with which a reference is linked to a registered assembly. -/
def joining (owner : Handle) (name : String) (d : Handle) : List Event :=
  [.referenceAdded owner name, .dependencyAdded owner d]

/-- The events with which the text of a reference is found. -/
def referring (owner : Handle) (name : String) (source : TextSource) (text : String) :
    List Event :=
  [.referenceAdded owner name, .textLocated owner name source text]

/-- The calls of the two passes on the modules of an assembly. -/
def passes (h : Handle) (declared defined : List (List ModuleInfo)) : List Event :=
  declared.map (.declareCalled h) ++ defined.map (.defineCalled h)

/-- The events with which the linking of a document ends. -/
def closing (doc : Document) (h : Handle) : List Event :=
  (if doc.executable then [.bundleCleared] else []) ++ [.completed h]

/-- Is an event a call of one of the two passes on a module of the assembly of a handle? -/
def builds (h : Handle) : Event → Bool
  | .declareCalled i _ => i = h
  | .defineCalled i _ => i = h
  | _ => false

/-- Does an event create an assembly? -/
def creates : Event → Bool
  | .created _ => true
  | _ => false

/-- Does an event draw a uid? -/
def drawsUid : Event → Bool
  | .uidDrawn => true
  | _ => false

/-- Is an event one of those with which documents are opened? -/
def isOpening (e : Event) : Bool := e.creates || e.drawsUid

/-- Is an event a call of one of the two passes? -/
def isPass : Event → Bool
  | .declareCalled .. => true
  | .defineCalled .. => true
  | _ => false

/-- None of the events is a call of one of the two passes. -/
def Quiet (events : List Event) : Prop := ∀ e ∈ events, e.isPass = false

/-- None of the events opens a document, and none is a call of one of the two passes. -/
def Plain (events : List Event) : Prop := ∀ e ∈ events, e.isOpening = false ∧ e.isPass = false

section Quiet

variable {doc : Document} {events events' : List Event}

theorem Quiet.append (h : Quiet events) (h' : Quiet events') : Quiet (events ++ events') := by
  intro e he
  rcases List.mem_append.1 he with he | he
  · exact h e he
  · exact h' e he

theorem Plain.append (h : Plain events) (h' : Plain events') : Plain (events ++ events') := by
  intro e he
  rcases List.mem_append.1 he with he | he
  · exact h e he
  · exact h' e he

theorem Plain.quiet (h : Plain events) : Quiet events := fun e he => (h e he).2

theorem plain_singleton {e : Event} (hopening : e.isOpening = false) (hpass : e.isPass = false) :
    Plain [e] := by
  intro e' he'
  rw [List.mem_singleton.1 he']
  exact ⟨hopening, hpass⟩

theorem plain_harvest (doc : Document) : Plain (harvest doc) := by
  unfold harvest
  split
  · intro e he
    obtain ⟨r, -, hr⟩ := List.mem_filterMap.1 he
    obtain ⟨text, -, rfl⟩ := Option.map_eq_some_iff.1 hr
    exact ⟨rfl, rfl⟩
  · exact fun e he => absurd he List.not_mem_nil

theorem plain_joining (owner : Handle) (name : String) (d : Handle) :
    Plain (joining owner name d) := by
  rw [joining, ← List.singleton_append]
  exact (plain_singleton rfl rfl).append (plain_singleton rfl rfl)

theorem plain_referring (owner : Handle) (name : String) (source : TextSource) (text : String) :
    Plain (referring owner name source text) := by
  rw [referring, ← List.singleton_append]
  exact (plain_singleton rfl rfl).append (plain_singleton rfl rfl)

theorem plain_closing (doc : Document) (h : Handle) : Plain (closing doc h) := by
  refine .append ?_ (plain_singleton rfl rfl)
  split
  · exact plain_singleton rfl rfl
  · exact fun e he => absurd he List.not_mem_nil

theorem quiet_opening (doc : Document) (uid : String) : Quiet (opening doc uid) := by
  intro e he
  rcases List.mem_append.1 he with he | he
  · split at he
    · rw [List.mem_singleton.1 he]
      rfl
    · cases he
  · rw [List.mem_singleton.1 he]
    rfl

theorem Quiet.builds_eq_false (hquiet : Quiet events) (h : Nat) :
    ∀ e ∈ events, e.builds h = false := by
  intro e he
  have hpass := hquiet e he
  cases e with
  | declareCalled | defineCalled => cases hpass
  | _ => rfl

/-- Nothing is counted among such events that is neither an opening nor a call. -/
theorem Plain.countP_eq_zero (hplain : Plain events) {p : Event → Bool}
    (hp : ∀ e : Event, e.isOpening = false → e.isPass = false → p e = false) :
    events.countP p = 0 := by
  apply List.countP_eq_zero.2
  intro e he
  rw [hp e (hplain e he).1 (hplain e he).2]
  exact Bool.false_ne_true

end Quiet

/-- Both passes are about the one assembly. -/
theorem builds_of_mem_passes {h i : Nat} {e : Event} {declared defined : List (List ModuleInfo)}
    (he : e ∈ passes h declared defined) (hne : i ≠ h) : e.builds i = false := by
  rcases List.mem_append.1 he with he | he
  · obtain ⟨modules, -, rfl⟩ := List.mem_map.1 he
    exact decide_eq_false hne.symm
  · obtain ⟨modules, -, rfl⟩ := List.mem_map.1 he
    exact decide_eq_false hne.symm

/-- Of the events of some kind each assembly has its own number: they are among those with which
    its document is opened, and the calls on its modules. -/
structure CountedBy (p : Event → Bool) (count : Made → Nat) : Prop where
  plain : ∀ e : Event, e.isOpening = false → e.isPass = false → p e = false
  own : ∀ (m : Made) (h : Handle) (declared defined : List (List ModuleInfo)),
    declared.length = m.assembly.modules.length → defined.length = m.assembly.modules.length →
    (opening m.document m.assembly.uid).countP p + (passes h declared defined).countP p = count m

theorem creates_countedBy : CountedBy creates fun _ => 1 where
  plain e hopening _ := (Bool.or_eq_false_iff.1 hopening).1
  own m h declared defined _ _ := by
    unfold opening
    split <;> simp [passes, List.countP_map, Function.comp_def, creates]

theorem drawsUid_countedBy : CountedBy drawsUid (·.document.draws) where
  plain e hopening _ := (Bool.or_eq_false_iff.1 hopening).2
  own m h declared defined _ _ := by
    unfold opening Document.draws
    split <;> simp [passes, List.countP_map, List.countP_cons, Function.comp_def, drawsUid]

theorem isDeclareCall_countedBy :
    CountedBy Session.isDeclareCall (·.assembly.modules.length) where
  plain e _ hpass := by
    cases e with
    | declareCalled => cases hpass
    | _ => rfl
  own m h declared defined hdeclared _ := by
    unfold opening
    split <;> simp [passes, List.countP_map, Function.comp_def, Session.isDeclareCall, hdeclared]

theorem isDefineCall_countedBy : CountedBy Session.isDefineCall (·.assembly.modules.length) where
  plain e _ hpass := by
    cases e with
    | defineCalled => cases hpass
    | _ => rfl
  own m h declared defined _ hdefined := by
    unfold opening
    split <;> simp [passes, List.countP_map, Function.comp_def, Session.isDefineCall, hdefined]

/-- Among some events the modules of an assembly are built in one go, behind the first of the
    events: as many as there are modules are declared, then as many are defined, and no other
    event is about them. -/
def BuildsOnce (h : Handle) (count : Nat) (before events : List Event) : Prop :=
  ∃ declared defined after, events = before ++ passes h declared defined ++ after ∧
    declared.length = count ∧ defined.length = count ∧ ∀ e ∈ before ++ after, e.builds h = false

namespace BuildsOnce

variable {h : Handle} {count : Nat} {before events earlier later : List Event}

theorem behind (hbuilds : BuildsOnce h count before events)
    (hearlier : ∀ e ∈ earlier, e.builds h = false) :
    BuildsOnce h count (earlier ++ before) (earlier ++ events) := by
  obtain ⟨declared, defined, after, rfl, hdeclared, hdefined, hnone⟩ := hbuilds
  refine ⟨declared, defined, after, by simp, hdeclared, hdefined, fun e he => ?_⟩
  rw [List.append_assoc] at he
  rcases List.mem_append.1 he with he | he
  · exact hearlier e he
  · exact hnone e he

theorem ahead (hbuilds : BuildsOnce h count before events)
    (hlater : ∀ e ∈ later, e.builds h = false) :
    BuildsOnce h count before (events ++ later) := by
  obtain ⟨declared, defined, after, rfl, hdeclared, hdefined, hnone⟩ := hbuilds
  refine ⟨declared, defined, after ++ later, by simp, hdeclared, hdefined, fun e he => ?_⟩
  rw [← List.append_assoc] at he
  rcases List.mem_append.1 he with he | he
  · exact hnone e he
  · exact hlater e he

end BuildsOnce

end Event

/-! ## Replaying events -/

namespace Session

/-- New assemblies are created by the one kind of event. -/
theorem length_record (s : Session) (e : Event) :
    (s.record e).store.length = s.store.length + if e.creates then 1 else 0 := by
  cases e with
  | created a => exact List.length_append
  | referenceAdded | dependencyAdded | declareCalled | defineCalled | completed =>
    exact Store.length_update ..
  | abandoned h => exact congrArg List.length (s.abandoned_store h)
  | uidDrawn | payloadBundled | bundleCleared | textLocated => rfl

theorem uidsDrawn_record (s : Session) (e : Event) :
    (s.record e).uidsDrawn = s.uidsDrawn + if e.drawsUid then 1 else 0 := by
  cases e with
  | abandoned h =>
    simp only [record, apply]
    split <;> rfl
  | _ => rfl

theorem length_replay (events : List Event) : ∀ s : Session,
    (s.replay events).store.length = s.store.length + events.countP Event.creates := by
  induction events with
  | nil => exact fun s => rfl
  | cons e events ih =>
    intro s
    show ((s.record e).replay events).store.length = _
    rw [ih, length_record, List.countP_cons, Nat.add_assoc, Nat.add_comm (ite _ _ _)]

theorem uidsDrawn_replay (events : List Event) : ∀ s : Session,
    (s.replay events).uidsDrawn = s.uidsDrawn + events.countP Event.drawsUid := by
  induction events with
  | nil => exact fun s => rfl
  | cons e events ih =>
    intro s
    show ((s.record e).replay events).uidsDrawn = _
    rw [ih, uidsDrawn_record, List.countP_cons, Nat.add_assoc, Nat.add_comm (ite _ _ _)]

theorem uidsDrawn_identify (s : Session) (doc : Document) :
    (s.identify doc).uidsDrawn = s.uidsDrawn + doc.draws := by
  unfold identify Document.draws
  split <;> rfl

/-- Events that open no document leave both counts as they are. -/
theorem counts_replay_plain {events : List Event} (hplain : Event.Plain events) (s : Session) :
    (s.replay events).store.length = s.store.length ∧
      (s.replay events).uidsDrawn = s.uidsDrawn := by
  rw [length_replay, uidsDrawn_replay,
    hplain.countP_eq_zero Event.creates_countedBy.plain,
    hplain.countP_eq_zero Event.drawsUid_countedBy.plain]
  exact ⟨rfl, rfl⟩

end Session

namespace Linker

variable {L : Linker} {doc : Document} {s o : Session}

/-- A document is opened by these events. -/
theorem Opens.eq_replay (hopens : L.Opens doc s o) :
    o = s.replay (Event.opening doc (L.uidFor doc s)) := by
  rw [hopens.session, Session.identify, Event.opening]
  split <;> rfl

/-- Behind the payloads of a document that has been opened there is one assembly more. -/
theorem Opens.counts_harvested (hopens : L.Opens doc s o) :
    (o.replay (Event.harvest doc)).store.length = s.store.length + 1 ∧
      (o.replay (Event.harvest doc)).uidsDrawn = s.uidsDrawn + doc.draws := by
  obtain ⟨hnext, hdrawn⟩ := o.counts_replay_plain (Event.plain_harvest doc)
  rw [hnext, hdrawn, hopens.session, Session.length_record, Session.uidsDrawn_record,
    Session.uidsDrawn_identify, Session.identify_store]
  exact ⟨rfl, rfl⟩

end Linker

/-! ## Courses -/

/-- A stretch of a load that has succeeded. -/
inductive Stretch where
  /-- A text has been loaded, and the handle is the answer. -/
  | load (text : String) (h : Handle)
  /-- References of an assembly have been linked, by name to the handles. -/
  | references (owner : Handle) (names : List String) (ds : List Handle)

/-- The course of a stretch of a load that begins in a session: the assemblies that it makes, in
    the order in which their documents are opened, and the events that it records.  Each part of
    it begins in the session that the events before it come to. -/
inductive Course (L : Linker) : Stretch → Session → List Made → List Event → Prop where
  /-- A text that states a uid, where a linked assembly is registered under the name and the uid:
      this is the answer, and nothing is made. -/
  | known {text : String} {h : Handle} {s : Session} {doc : Document} :
      Document.parse text "" = .ok doc → doc.mode = L.mode → doc.uid ≠ "" →
      s.registry.find? doc.name doc.uid = some h → s.Linked h →
      Course L (.load text h) s [] []
  /-- A text where nothing is registered under the name and the uid: its document is opened and
      linked, and its assembly is the answer. -/
  | opened {text : String} {s o : Session} {doc : Document} {ms : List ModuleDocument}
      {ds : List Handle} {made : List Made} {events : List Event}
      {declared defined : List (List ModuleInfo)} :
      Document.parse text "" = .ok doc → L.Opens doc s o →
      doc.modules.map ModuleDocument.read = ms.map .ok →
      Course L (.references s.nextHandle (doc.references.map (·.name)) ds)
        (o.replay (Event.harvest doc)) made events →
      declared.length = doc.modules.length → defined.length = doc.modules.length →
      Course L (.load text s.nextHandle) s
        (⟨doc, linkedAssembly doc (L.uidFor doc s) ds ms⟩ :: made)
        (Event.opening doc (L.uidFor doc s) ++ Event.harvest doc ++ events ++
          Event.passes s.nextHandle declared defined ++ Event.closing doc s.nextHandle)
  | done {owner : Handle} {s : Session} : Course L (.references owner [] []) s [] []
  /-- A reference where an assembly is registered under its name, the first one of which is
      linked: this becomes the dependency. -/
  | joined {owner d : Handle} {s : Session} {name : String} {names : List String}
      {ds : List Handle} {made : List Made} {events : List Event} :
      s.registry.findByName? name = some d → s.Linked d →
      Course L (.references owner names ds) (s.replay (Event.joining owner name d)) made events →
      Course L (.references owner (name :: names) (d :: ds)) s made
        (Event.joining owner name d ++ events)
  /-- A reference where nothing is registered under its name: its text is found and loaded, and the
      answer becomes the dependency.  Whose reference it is does not matter to what is found. -/
  | loaded {owner d : Handle} {s : Session} {assembly name text : String} {source : TextSource}
      {names : List String} {ds : List Handle} {made made' : List Made}
      {events events' : List Event} :
      s.registry.findByName? name = none →
      L.locateText s.context assembly name = .ok (source, text) →
      Course L (.load text d) (s.replay (Event.referring owner name source text)) made events →
      Course L (.references owner names ds)
        (s.replay (Event.referring owner name source text ++ events ++ [.dependencyAdded owner d]))
        made' events' →
      Course L (.references owner (name :: names) (d :: ds)) s (made ++ made')
        (Event.referring owner name source text ++ events ++ [.dependencyAdded owner d] ++ events')

namespace Course

variable {L : Linker} {stretch : Stretch} {s : Session} {owner d : Handle} {names : List String}
  {ds : List Handle} {made : List Made} {events : List Event}

/-! ### Assemblies -/

/-- Each reference has been linked to one assembly, and that has been recorded. -/
theorem links (hcourse : Course L stretch s made events)
    (hstretch : stretch = .references owner names ds) :
    ds.length = names.length ∧ ∀ d ∈ ds, .dependencyAdded owner d ∈ events := by
  induction hcourse generalizing names ds with
  | known | opened => cases hstretch
  | done =>
    cases hstretch
    exact ⟨rfl, fun d hd => absurd hd List.not_mem_nil⟩
  | joined _ _ _ ih =>
    cases hstretch
    obtain ⟨hlength, hadded⟩ := ih rfl
    refine ⟨congrArg Nat.succ hlength, fun d hd => ?_⟩
    rcases List.mem_cons.1 hd with rfl | hd
    · exact List.mem_append_left _ (List.mem_cons_of_mem _ List.mem_cons_self)
    · exact List.mem_append_right _ (hadded d hd)
  | loaded _ _ _ _ _ ih =>
    cases hstretch
    obtain ⟨hlength, hadded⟩ := ih rfl
    refine ⟨congrArg Nat.succ hlength, fun d hd => ?_⟩
    rcases List.mem_cons.1 hd with rfl | hd
    · exact List.mem_append_left _ (List.mem_append_right _ List.mem_cons_self)
    · exact List.mem_append_right _ (hadded d hd)

/-- Every assembly is that of its document. -/
theorem realizes (hcourse : Course L stretch s made events) :
    ∀ m ∈ made, m.assembly.Realizes m.document := by
  induction hcourse with
  | known | done => exact fun m hm => absurd hm List.not_mem_nil
  | opened _ _ hread hrefs _ _ ih =>
    intro m hm
    rcases List.mem_cons.1 hm with rfl | hm
    · refine realizes_linkedAssembly ?_ hread
      rw [(hrefs.links rfl).1, List.length_map]
    · exact ih m hm
  | joined _ _ _ ih => exact ih
  | loaded _ _ _ _ ih ih' =>
    intro m hm
    rcases List.mem_append.1 hm with hm | hm
    · exact ih m hm
    · exact ih' m hm

/-! ### Counts -/

/-- Events of a kind are counted assembly by assembly. -/
theorem countP_eq {p : Event → Bool} {count : Made → Nat} (hp : Event.CountedBy p count)
    (hcourse : Course L stretch s made events) : events.countP p = (made.map count).sum := by
  induction hcourse with
  | known | done => rfl
  | @opened _ s _ doc ms ds _ _ declared defined _ _ hread _ hdeclared hdefined ih =>
    have hmodules : doc.modules.length = (ms.map ModuleDocument.built).length := by
      simpa using congrArg List.length hread
    have hown := hp.own ⟨doc, linkedAssembly doc (L.uidFor doc s) ds ms⟩ s.nextHandle declared
      defined (hdeclared.trans hmodules) (hdefined.trans hmodules)
    rw [List.map_cons, List.sum_cons, ← hown]
    simp only [List.countP_append, ih, (Event.plain_harvest doc).countP_eq_zero hp.plain,
      (Event.plain_closing doc s.nextHandle).countP_eq_zero hp.plain]
    show (Event.opening doc (L.uidFor doc s)).countP p + 0 + _ + _ + 0 =
      (Event.opening doc (L.uidFor doc s)).countP p + _ + _
    omega
  | joined _ _ _ ih =>
    rw [List.countP_append, (Event.plain_joining _ _ _).countP_eq_zero hp.plain, Nat.zero_add, ih]
  | @loaded owner d _ _ _ _ _ _ _ _ _ _ _ _ _ _ _ ih ih' =>
    have hadded := Event.plain_singleton (e := .dependencyAdded owner d) rfl rfl
    simp only [List.countP_append, ih, ih', hadded.countP_eq_zero hp.plain,
      (Event.plain_referring _ _ _ _).countP_eq_zero hp.plain, Nat.zero_add, Nat.add_zero,
      List.map_append, List.sum_append]

/-- The handles of new assemblies count up. -/
theorem length_eq (hcourse : Course L stretch s made events) :
    (s.replay events).store.length = s.store.length + made.length := by
  rw [Session.length_replay, hcourse.countP_eq Event.creates_countedBy]
  simp

/-- Uids are drawn for the documents that state none. -/
theorem uidsDrawn_eq (hcourse : Course L stretch s made events) :
    (s.replay events).uidsDrawn = s.uidsDrawn + Made.draws made := by
  rw [Session.uidsDrawn_replay, hcourse.countP_eq Event.drawsUid_countedBy, Made.draws]

/-- Behind a reference to what is registered no handle and no uid is used up. -/
theorem counts_joined (s : Session) (owner : Handle) (name : String) (d : Handle) :
    (s.replay (Event.joining owner name d)).store.length = s.store.length ∧
      (s.replay (Event.joining owner name d)).uidsDrawn = s.uidsDrawn :=
  s.counts_replay_plain (Event.plain_joining owner name d)

/-- Behind a reference whose text has been loaded those are used up that the load has used. -/
theorem counts_loaded {name text found : String} {h : Handle} {source : TextSource}
    (hload : Course L (.load text h) (s.replay (Event.referring owner name source found)) made
      events) :
    (s.replay (Event.referring owner name source found ++ events ++
        [.dependencyAdded owner d])).store.length = s.store.length + made.length ∧
      (s.replay (Event.referring owner name source found ++ events ++
        [.dependencyAdded owner d])).uidsDrawn = s.uidsDrawn + Made.draws made := by
  obtain ⟨hnext, hdrawn⟩ := s.counts_replay_plain (Event.plain_referring owner name source found)
  have hadded := Event.plain_singleton (e := .dependencyAdded owner d) rfl rfl
  rw [Session.replay_append, Session.replay_append, (Session.counts_replay_plain hadded _).1,
    (Session.counts_replay_plain hadded _).2, hload.length_eq, hload.uidsDrawn_eq, hnext, hdrawn]
  exact ⟨rfl, rfl⟩

/-- Every assembly has the uid that its document states, or the next one. -/
theorem uid_eq (hcourse : Course L stretch s made events) :
    ∀ (i : Nat) (m : Made), made[i]? = some m →
      m.assembly.uid = m.document.uidFrom L.uids (s.uidsDrawn + Made.draws (made.take i)) := by
  induction hcourse with
  | known | done => exact fun i m hm => absurd hm (by simp)
  | opened _ hopens _ _ _ _ ih =>
    intro i m hm
    cases i with
    | zero =>
      obtain rfl := Option.some.inj hm
      rfl
    | succ i =>
      rw [ih i m hm, hopens.counts_harvested.2, List.take_succ_cons, Made.draws_cons, Nat.add_assoc]
  | joined _ _ _ ih =>
    intro i m hm
    rw [ih i m hm, (counts_joined _ _ _ _).2]
  | loaded _ _ hload _ ih ih' =>
    intro i m hm
    rcases Made.of_getElem?_append hm with ⟨hi, hmade⟩ | ⟨j, rfl, hmade⟩
    · rw [ih i m hmade, List.take_append_of_le_length (Nat.le_of_lt hi),
        (Session.counts_replay_plain (Event.plain_referring _ _ _ _) _).2]
    · rw [ih' j m hmade, List.take_length_add_append, Made.draws_append, hload.counts_loaded.2,
        Nat.add_assoc]

/-! ### Passes -/

/-- Only modules of assemblies that are made on the way are built. -/
theorem builds_eq_false (hcourse : Course L stretch s made events) {h : Nat}
    (hh : h < s.store.length ∨ s.store.length + made.length ≤ h) :
    ∀ e ∈ events, e.builds h = false := by
  induction hcourse with
  | known | done => exact fun e he => absurd he List.not_mem_nil
  | @opened _ s _ doc _ _ made events _ _ _ hopens _ _ _ _ ih =>
    rw [List.length_cons] at hh
    rw [hopens.counts_harvested.1] at ih
    have hne : h ≠ s.store.length := by omega
    intro e he
    -- of these events only the passes build something, and they build the assembly itself
    simp only [List.mem_append] at he
    rcases he with (((he | he) | he) | he) | he
    · exact (Event.quiet_opening doc _).builds_eq_false h e he
    · exact (Event.plain_harvest doc).quiet.builds_eq_false h e he
    · exact ih (by omega) e he
    · exact Event.builds_of_mem_passes he hne
    · exact (Event.plain_closing doc s.nextHandle).quiet.builds_eq_false h e he
  | joined _ _ _ ih =>
    rw [(counts_joined _ _ _ _).1] at ih
    intro e he
    rcases List.mem_append.1 he with he | he
    · exact (Event.plain_joining _ _ _).quiet.builds_eq_false h e he
    · exact ih hh e he
  | loaded _ _ hload _ ih ih' =>
    rw [List.length_append] at hh
    rw [(Session.counts_replay_plain (Event.plain_referring _ _ _ _) _).1] at ih
    rw [hload.counts_loaded.1] at ih'
    intro e he
    simp only [List.mem_append] at he
    rcases he with ((he | he) | he) | he
    · exact (Event.plain_referring _ _ _ _).quiet.builds_eq_false h e he
    · exact ih (by omega) e he
    · exact (Event.plain_singleton rfl rfl).quiet.builds_eq_false h e he
    · exact ih' (by omega) e he

/-- The modules of each assembly are built in one go, after all of its references. -/
theorem buildsOnce (hcourse : Course L stretch s made events) :
    ∀ (i : Nat) (m : Made), made[i]? = some m → ∃ before,
      Event.BuildsOnce (s.store.length + i) m.assembly.modules.length before events ∧
      ∀ d ∈ m.assembly.dependencies, .dependencyAdded (s.store.length + i) d ∈ before := by
  induction hcourse with
  | known | done => exact fun i m hm => absurd hm (by simp)
  | @opened _ s o doc ms ds _ events declared defined _ hopens hread hrefs hdeclared hdefined ih =>
    have hfront := (Event.quiet_opening doc (L.uidFor doc s)).append (Event.plain_harvest doc).quiet
    have hclosing := (Event.plain_closing doc s.nextHandle).quiet
    have hnext := hopens.counts_harvested.1
    intro i m hm
    cases i with
    | zero =>
      obtain rfl := Option.some.inj hm
      have hmodules : doc.modules.length = (ms.map ModuleDocument.built).length := by
        simpa using congrArg List.length hread
      refine ⟨_, ⟨declared, defined, _, rfl, hdeclared.trans hmodules, hdefined.trans hmodules,
        fun e he => ?_⟩, fun d hd => List.mem_append_right _ ((hrefs.links rfl).2 d hd)⟩
      -- while its references are linked, only later assemblies are built
      simp only [List.mem_append] at he
      rcases he with (he | he) | he
      · exact hfront.builds_eq_false _ e (List.mem_append.2 he)
      · have hlt : s.store.length < (o.replay (Event.harvest doc)).store.length := by omega
        exact hrefs.builds_eq_false (.inl hlt) e he
      · exact hclosing.builds_eq_false _ e he
    | succ i =>
      obtain ⟨before, hbuilds, hdependencies⟩ := ih i m hm
      have hhandle : s.store.length + 1 + i = s.store.length + (i + 1) := by omega
      rw [hnext, hhandle] at hbuilds hdependencies
      refine ⟨_, ((hbuilds.behind (hfront.builds_eq_false _)).ahead fun e he => ?_).ahead
        (hclosing.builds_eq_false _), fun d hd => List.mem_append_right _ (hdependencies d hd)⟩
      have hne : s.store.length + (i + 1) ≠ s.store.length := by omega
      exact Event.builds_of_mem_passes he hne
  | @joined owner d _ name _ _ _ _ _ _ _ ih =>
    intro i m hm
    obtain ⟨before, hbuilds, hdependencies⟩ := ih i m hm
    rw [(counts_joined _ _ _ _).1] at hbuilds hdependencies
    exact ⟨_, hbuilds.behind ((Event.plain_joining owner name d).quiet.builds_eq_false _),
      fun d hd => List.mem_append_right _ (hdependencies d hd)⟩
  | @loaded owner d s _ name text source _ _ made made' events events' _ _ hload hrefs ih ih' =>
    have hreferring := Event.plain_referring owner name source text
    have hadded := Event.plain_singleton (e := .dependencyAdded owner d) rfl rfl
    have hnext := (s.counts_replay_plain hreferring).1
    have hnext' := hload.counts_loaded (d := d) |>.1
    intro i m hm
    rcases Made.of_getElem?_append hm with ⟨hi, hmade⟩ | ⟨j, rfl, hmade⟩
    · obtain ⟨before, hbuilds, hdependencies⟩ := ih i m hmade
      rw [hnext] at hbuilds hdependencies
      refine ⟨_, ((hbuilds.behind (hreferring.quiet.builds_eq_false _)).ahead
        (hadded.quiet.builds_eq_false _)).ahead (hrefs.builds_eq_false (.inl (by omega))),
        fun d hd => List.mem_append_right _ (hdependencies d hd)⟩
    · obtain ⟨before, hbuilds, hdependencies⟩ := ih' j m hmade
      rw [hnext', Nat.add_assoc] at hbuilds hdependencies
      refine ⟨_, hbuilds.behind fun e he => ?_,
        fun d hd => List.mem_append_right _ (hdependencies d hd)⟩
      rcases List.mem_append.1 he with he | he
      · rcases List.mem_append.1 he with he | he
        · exact hreferring.quiet.builds_eq_false _ e he
        · exact hload.builds_eq_false (.inr (by omega)) e he
      · exact hadded.quiet.builds_eq_false _ e he

end Course

/-! ## What is linked by the time -/

namespace Session

variable {s t u : Session} {e : Event} {events events' : List Event} {h d : Handle}

/-- What is linked after an event has been linked before, or the event completes it. -/
theorem Permits.linked_before (he : s.Permits e) (hd : (s.record e).Linked d) :
    s.Linked d ∨ e = .completed d := by
  obtain ⟨a, ha, hlinked⟩ := hd
  cases he.alters with
  | nothing _ hstore => exact .inl ⟨a, hstore ▸ ha, hlinked⟩
  | creates b hlinking _ =>
    rcases Store.get?_concat ha with hold | rfl
    · exact .inl ⟨a, hold, hlinked⟩
    · rw [hlinking] at hlinked
      cases hlinked
  | changes _ g f hlinking hchanged hstate _ =>
    exact .inl ⟨a, hchanged.linked_before hlinking hstate ha hlinked, hlinked⟩
  | links g i hlinking _ =>
    exact .inl ⟨a, (s.dependencyAdded_changed g i).linked_before hlinking (fun _ => rfl) ha hlinked,
      hlinked⟩
  | completes g b _ _ _ =>
    by_cases hg : d = g
    · exact .inr (by rw [hg])
    · rw [(s.completed_changed g).get?_ne hg] at ha
      exact .inl ⟨a, ha, hlinked⟩

/-- A dependency was linked at first, or it has been completed before it was added. -/
theorem Leads.linked_before (hleads : s.Leads (events ++ events') t)
    (hd : .dependencyAdded h d ∈ events) : s.Linked d ∨ .completed d ∈ events := by
  induction events generalizing s with
  | nil => cases hd
  | cons e events ih =>
    rw [List.cons_append] at hleads
    cases hleads with
    | cons he hrest =>
      rcases List.mem_cons.1 hd with rfl | hd
      · exact .inl he.2
      rcases ih hrest hd with hlinked | hcompleted
      · rcases he.linked_before hlinked with hold | rfl
        · exact .inl hold
        · exact .inr List.mem_cons_self
      · exact .inr (List.mem_cons_of_mem e hcompleted)

end Session

end AssemblyLinker
