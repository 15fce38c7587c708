import AssemblyLinker.Proofs.Loading.Steps

/-! # Loads with any registry and codec

    A load hands over a good part of its work: a registry knows the assemblies, a codec
    declares and defines their modules, and new uids are drawn somewhere.  Whatever these do,
    they do not get to see the context of the load, which is read and written by the load
    alone.

    Here is the load for any such collaborators.  They share a world of their own, of any type,
    which each of them may change at each call; nothing is assumed of what they answer.  The
    load records in its desk what concerns the context: payloads that are bundled, texts that
    are located, and the clearing of the bundle.

    With the registry and the codec of sessions this is the load of sessions
    (`Linker.load_shows`).
-/

namespace AssemblyLinker

/-- What a load leaves to others, who share a world.  Each call may change the world, and what
    it answers is up to them. -/
structure Collaborators (σ : Type) where
  /-- The assembly registered under a name and uid. -/
  find? : (name uid : String) → σ → Option Handle × σ
  /-- The first assembly registered under a name. -/
  findByName? : (name : String) → σ → Option Handle × σ
  isLinking : Handle → σ → Bool
  /-- The uid of a document that states none. -/
  drawUid : σ → String × σ
  /-- Creates an assembly and registers it. -/
  register : Assembly → σ → Handle × σ
  addReference : Handle → (name : String) → σ → σ
  addDependency : Handle → (dependency : Handle) → σ → σ
  declare : Handle → Json → σ → Except LinkError Unit × σ
  define : Handle → Json → σ → Except LinkError Unit × σ
  /-- An assembly has been linked. -/
  complete : Handle → σ → σ
  /-- An assembly could not be linked and leaves the registry. -/
  abandon : Handle → σ → σ

/-- What a load works on: its context, the world of its collaborators, and the events so far
    that concern the context, the latest first. -/
structure Desk (σ : Type) where
  context : LoadContext
  world : σ
  events : List Event := []

/-- A part of a load: what it yields, and the desk after it. -/
abbrev Job (σ α : Type) := ExceptT Stop (StateM (Desk σ)) α

namespace Job

variable {σ α : Type}

/-- Asks a collaborator. -/
def ask (call : σ → α × σ) : Job σ α := fun d =>
  (.ok (call d.world).1, { d with world := (call d.world).2 })

/-- Asks a collaborator for what may fail. -/
def request (call : σ → Except LinkError α × σ) : Job σ α := fun d =>
  ((call d.world).1.mapError .failed, { d with world := (call d.world).2 })

/-- Reads off the world. -/
def look (view : σ → α) : Job σ α := fun d => (.ok (view d.world), d)

/-- Tells a collaborator. -/
def tell (call : σ → σ) : Job σ Unit := fun d => (.ok (), { d with world := call d.world })

def fail (e : LinkError) : Job σ α := throw (.failed e)

/-- The result of a part, whether it stops or not. -/
def attempt (job : Job σ α) : Job σ (Outcome α) := fun d => (.ok (job d).1, (job d).2)

/-- Puts a payload into the bundle. -/
def bundle (name text : String) : Job σ Unit := fun d =>
  (.ok (), { d with context := d.context.bundle name text,
                    events := .payloadBundled name text :: d.events })

/-- Clears the bundle. -/
def clearBundle : Job σ Unit := fun d =>
  (.ok (), { d with context := d.context.clearBundle, events := .bundleCleared :: d.events })

/-- Locates the text of a reference. -/
def locate (L : Linker) (assembly : String) (h : Handle) (name : String) : Job σ String :=
  fun d =>
    match L.locateText d.context assembly name with
    | .error e => (.error (.failed e), d)
    | .ok (source, text) => (.ok text, { d with events := .textLocated h name source text :: d.events })

/-- Puts the payload of a reference into the bundle. -/
def harvestReference (executable : String) (r : Reference) : Job σ Unit :=
  match payload executable r with
  | .ok text => bundle r.name text
  | .error e => fail e

/-- Puts the payloads of an executable into the bundle; a library has none. -/
def harvest (doc : Document) : Job σ Unit :=
  if doc.executable then forM doc.references (harvestReference doc.name) else pure ()

/-- Clears the bundle when an executable is done. -/
def leave (doc : Document) : Job σ Unit := if doc.executable then clearBundle else pure ()

end Job

namespace Collaborators

variable {σ : Type} (C : Collaborators σ) (L : Linker)

/-- A load of a text that is named by its origin. -/
abbrev Load (σ : Type) := (text origin : String) → Job σ Handle

/-- Links the assembly of a handle to the assembly that a reference stands for. -/
def resolveReference (load : Load σ) (assembly : String) (h : Handle) (name : String) :
    Job σ Unit := do
  match ← Job.ask (C.findByName? name) with
  | some d =>
    if ← Job.look (C.isLinking d) then Job.fail (.circularReference assembly name)
    else Job.tell (C.addDependency h d)
  | none =>
    let text ← Job.locate L assembly h name
    let d ← load text name
    Job.tell (C.addDependency h d)

/-- Adds a reference to the assembly of a handle and resolves it. -/
def linkReference (load : Load σ) (assembly : String) (h : Handle) (r : Reference) :
    Job σ Unit := do
  Job.tell (C.addReference h r.name)
  C.resolveReference L load assembly h r.name

/-- Declares all modules of a document, then defines all. -/
def buildModules (h : Handle) (modules : List Json) : Job σ Unit := do
  forM modules fun j => Job.request (C.declare h j)
  forM modules fun j => Job.request (C.define h j)

/-- Links the assembly of a handle as its document says. -/
def link (load : Load σ) (doc : Document) (h : Handle) : Job σ Unit := do
  Job.harvest doc
  forM doc.references (C.linkReference L load doc.name h)
  C.buildModules h doc.modules

/-- What is left to do when linking is over. -/
def finish (doc : Document) (h : Handle) (result : Outcome Unit) : Job σ Handle := do
  Job.leave doc
  match result with
  | .ok () =>
    Job.tell (C.complete h)
    pure h
  | .error stop =>
    Job.tell (C.abandon h)
    throw stop

/-- Creates, registers and links the assembly of a document. -/
def create (load : Load σ) (doc : Document) (uid : String) : Job σ Handle := do
  let h ← Job.ask (C.register (Linker.newAssembly doc uid))
  let result ← Job.attempt (C.link L load doc h)
  C.finish doc h result

/-- The assembly registered under the name and uid of a document, or a new one. -/
def acceptAs (load : Load σ) (doc : Document) (uid : String) : Job σ Handle := do
  match ← Job.ask (C.find? doc.name uid) with
  | some h =>
    if ← Job.look (C.isLinking h) then Job.fail (.circularReference doc.name doc.name)
    else pure h
  | none =>
    let namesake ← Job.ask (C.findByName? doc.name)
    if ← Job.look fun w => namesake.any (C.isLinking · w) then
      Job.fail (.circularReference doc.name doc.name)
    else C.create L load doc uid

/-- The uid of a document, or a new one. -/
def uidOf (doc : Document) : Job σ String :=
  if doc.uid = "" then Job.ask C.drawUid else pure doc.uid

/-- The assembly of a document. -/
def accept (load : Load σ) (doc : Document) : Job σ Handle :=
  if doc.mode ≠ L.mode then Job.fail (.bytecodeMode doc.name doc.mode L.mode)
  else do
    let uid ← C.uidOf doc
    C.acceptAs L load doc uid

/-- The load of a text in which loads nest at most as deep as given. -/
def loadWithin : Nat → Load σ
  | 0, _, _ => throw .tooDeep
  | depth + 1, text, origin =>
    match Document.parse text origin with
    | .ok doc => C.accept L (loadWithin depth) doc
    | .error e => Job.fail e

/-- Loads a text and all that it refers to. -/
def load (text origin : String) : Job σ Handle := C.loadWithin L L.maxDepth text origin

end Collaborators

/-! ## What a part comes to -/

namespace Job

variable {σ α β : Type} {job : Job σ α} {d d' : Desk σ}

theorem bind_of_ok {a : α} (h : job d = (.ok a, d')) (next : α → Job σ β) :
    (job >>= next) d = next a d' := by
  show ExceptT.bindCont next (job d).1 (job d).2 = next a d'
  rw [h]
  rfl

theorem bind_of_error {stop : Stop} (h : job d = (.error stop, d')) (next : α → Job σ β) :
    (job >>= next) d = (.error stop, d') := by
  show ExceptT.bindCont next (job d).1 (job d).2 = _
  rw [h]
  rfl

theorem attempt_apply (job : Job σ α) (d : Desk σ) :
    attempt job d = (.ok (job d).1, (job d).2) := rfl

end Job

/-! ## The registry and the codec of sessions -/

/-- Does an event concern the context of a load? -/
def Event.concernsContext : Event → Bool
  | .payloadBundled .. => true
  | .bundleCleared => true
  | .textLocated .. => true
  | _ => false

namespace Session

/-- A session without its context and without memory of its events. -/
def aside (s : Session) : Session := { s with context := {}, history := [] }

/-- The desk of a load that begins or goes on in a session. -/
def desk (s : Session) : Desk Session :=
  { context := s.context, world := s.aside, events := s.history.filter (·.concernsContext) }

variable (s : Session)

/-- What does not concern the context is a matter of the world. -/
theorem desk_record {e : Event} (he : e.concernsContext = false) :
    (s.record e).desk = { s.desk with world := (s.aside.record e).aside } := by
  cases e with
  | payloadBundled | bundleCleared | textLocated => cases he
  | abandoned h =>
    unfold desk aside record apply
    simp only [List.filter_cons, Event.concernsContext]
    split <;> rfl
  | _ => rfl

theorem desk_declare (h : Handle) (j : Json) :
    (s.aside.declare h j).1 = (s.declare h j).1 ∧
      (s.declare h j).2.desk = { s.desk with world := (s.aside.declare h j).2.aside } := by
  unfold declare
  have hstore : s.aside.store = s.store := rfl
  rw [hstore]
  cases s.store.get? h with
  | none => exact ⟨rfl, rfl⟩
  | some a =>
    simp only
    split
    · exact ⟨rfl, desk_record s rfl⟩
    · exact ⟨rfl, desk_record s rfl⟩

theorem desk_define (h : Handle) (j : Json) :
    (s.aside.define h j).1 = (s.define h j).1 ∧
      (s.define h j).2.desk = { s.desk with world := (s.aside.define h j).2.aside } := by
  unfold define
  have hstore : s.aside.store = s.store := rfl
  rw [hstore]
  cases s.store.get? h with
  | none => exact ⟨rfl, rfl⟩
  | some a => exact ⟨rfl, desk_record s rfl⟩

end Session

namespace Linker

variable (L : Linker)

/-- The registry, the codec and the uids that sessions come with. -/
def own : Collaborators Session where
  find? name uid s := (s.registry.find? name uid, s)
  findByName? name s := (s.registry.findByName? name, s)
  isLinking h s := s.isLinking h
  drawUid s := (L.uids s.uidsDrawn, (s.record .uidDrawn).aside)
  register a s := (s.store.length, (s.record (.created a)).aside)
  addReference h name s := (s.record (.referenceAdded h name)).aside
  addDependency h d s := (s.record (.dependencyAdded h d)).aside
  declare h j s := ((s.declare h j).1, (s.declare h j).2.aside)
  define h j s := ((s.define h j).1, (s.define h j).2.aside)
  complete h s := (s.record (.completed h)).aside
  abandon h s := (s.record (.abandoned h)).aside

end Linker

/-- A part of a load of sessions does with its desk what it does with the session. -/
def Action.Shows {α : Type} (act : Action α) (job : Job Session α) : Prop :=
  ∀ s : Session, job s.desk = ((act s).1, (act s).2.desk)

namespace Action.Shows

variable {α β : Type}

theorem pure (a : α) : (Action.pure a).Shows (Pure.pure a) := fun _ => rfl

theorem fail (e : LinkError) : (Action.fail e : Action α).Shows (Job.fail e) := fun _ => rfl

theorem tell {e : Event} (he : e.concernsContext = false) :
    (Action.record e).Shows (Job.tell fun s => (s.record e).aside) := by
  intro s
  show (Except.ok (), { s.desk with world := (s.aside.record e).aside }) = _
  rw [← Session.desk_record s he]
  rfl

theorem andThen {first : Action α} {job : Job Session α} {second : α → Action β}
    {next : α → Job Session β} (h : first.Shows job) (h' : ∀ a, (second a).Shows (next a)) :
    (first.andThen second).Shows (job >>= next) := by
  intro s
  have hjob := h s
  rcases hfirst : first s with ⟨stop | a, t⟩
  · rw [hfirst] at hjob
    rw [Job.bind_of_error hjob, Action.andThen_of_error hfirst]
  · rw [hfirst] at hjob
    rw [Job.bind_of_ok hjob, Action.andThen_of_ok hfirst]
    exact h' a t

theorem forEach {act : α → Action Unit} {job : α → Job Session Unit} {xs : List α}
    (h : ∀ x, (act x).Shows (job x)) : (Action.forEach act xs).Shows (forM xs job) := by
  induction xs with
  | nil => exact .pure ()
  | cons x xs ih =>
    rw [List.forM_cons]
    exact (h x).andThen fun () => ih

end Action.Shows

namespace Linker

variable (L : Linker)

theorem harvest_shows (doc : Document) : (harvest doc).Shows (Job.harvest doc) := by
  have hreference : ∀ r, (harvestReference doc.name r).Shows (Job.harvestReference doc.name r) := by
    intro r
    unfold harvestReference Job.harvestReference
    cases payload doc.name r with
    | error e => exact .fail e
    | ok text => exact fun s => rfl
  unfold harvest Job.harvest
  split
  · exact .forEach hreference
  · exact .pure ()

theorem buildModules_shows (h : Handle) (modules : List Json) :
    (buildModules h modules).Shows (L.own.buildModules h modules) := by
  have hdeclare : ∀ j : Json, (Action.ofStep (·.declare h j)).Shows
      (Job.request (L.own.declare h j)) := by
    intro j s
    obtain ⟨hresult, hdesk⟩ := s.desk_declare h j
    show ((s.aside.declare h j).1.mapError _, _) = _
    rw [hresult]
    exact Prod.ext rfl hdesk.symm
  have hdefine : ∀ j : Json, (Action.ofStep (·.define h j)).Shows
      (Job.request (L.own.define h j)) := by
    intro j s
    obtain ⟨hresult, hdesk⟩ := s.desk_define h j
    show ((s.aside.define h j).1.mapError _, _) = _
    rw [hresult]
    exact Prod.ext rfl hdesk.symm
  exact (Action.Shows.forEach hdeclare).andThen fun () => .forEach hdefine

section Frames

variable {load : Load} {load' : Collaborators.Load Session}
  (hload : ∀ text origin, (load text origin).Shows (load' text origin))
include hload

theorem resolveReference_shows (assembly : String) (h : Handle) (name : String) :
    (L.resolveReference load assembly h name).Shows
      (L.own.resolveReference L load' assembly h name) := by
  intro s
  unfold resolveReference Collaborators.resolveReference
  -- the session answers as the collaborators do, and a question leaves it as it is
  have hask : Job.ask (L.own.findByName? name) s.desk =
      (.ok (s.registry.findByName? name), s.desk) := rfl
  rw [Job.bind_of_ok hask]
  cases s.registry.findByName? name with
  | some d =>
    have hlook : Job.look (L.own.isLinking d) s.desk = (.ok (s.isLinking d), s.desk) := rfl
    simp only
    rw [Job.bind_of_ok hlook]
    cases s.isLinking d with
    | true => rfl
    | false => exact Action.Shows.tell rfl s
  | none =>
    simp only
    cases hlocate : L.locateText s.context assembly name with
    | error e =>
      have hjob : Job.locate L assembly h name s.desk = (.error (.failed e), s.desk) := by
        unfold Job.locate
        rw [show s.desk.context = s.context from rfl, hlocate]
      rw [Job.bind_of_error hjob]
      rfl
    | ok found =>
      obtain ⟨source, text⟩ := found
      have hjob : Job.locate L assembly h name s.desk =
          (.ok text, (s.record (.textLocated h name source text)).desk) := by
        unfold Job.locate
        rw [show s.desk.context = s.context from rfl, hlocate]
        rfl
      rw [Job.bind_of_ok hjob]
      exact (hload text name).andThen (fun d => .tell rfl) _

theorem link_shows (doc : Document) (h : Handle) :
    (L.link load doc h).Shows (L.own.link L load' doc h) := by
  have hreference : ∀ r, (L.linkReference load doc.name h r).Shows
      (L.own.linkReference L load' doc.name h r) := fun r =>
    (Action.Shows.tell rfl).andThen fun () => L.resolveReference_shows hload doc.name h r.name
  exact (harvest_shows doc).andThen fun () =>
    (Action.Shows.forEach hreference).andThen fun () => L.buildModules_shows h doc.modules

omit hload in
theorem finish_shows (doc : Document) (h : Handle) (result : Outcome Unit) :
    Action.Shows (fun s => finish doc h (result, s)) (L.own.finish doc h result) := by
  intro s
  unfold finish Collaborators.finish
  -- the bundle of an executable is cleared first
  have hleave : Job.leave doc s.desk = (.ok (), (s.leave doc).desk) := by
    unfold Job.leave Session.leave
    split <;> rfl
  rw [Job.bind_of_ok hleave]
  cases result with
  | ok _ =>
    have htell := Action.Shows.tell (e := .completed h) rfl (s.leave doc)
    exact Job.bind_of_ok htell _
  | error stop =>
    have htell := Action.Shows.tell (e := .abandoned h) rfl (s.leave doc)
    exact Job.bind_of_ok htell _

theorem create_shows (doc : Document) (uid : String) :
    (L.create load doc uid).Shows (L.own.create L load' doc uid) := by
  intro s
  unfold Collaborators.create
  have hregister : Job.ask (L.own.register (newAssembly doc uid)) s.desk =
      (.ok s.store.length, (s.record (.created (newAssembly doc uid))).desk) := rfl
  rw [Job.bind_of_ok hregister]
  rcases hlink : L.link load doc s.store.length (s.record (.created (newAssembly doc uid))) with
    ⟨result, t⟩
  have hattempt : Job.attempt (L.own.link L load' doc s.store.length)
      (s.record (.created (newAssembly doc uid))).desk = (.ok result, t.desk) := by
    rw [Job.attempt_apply, L.link_shows hload doc s.store.length, hlink]
  have hcreate : L.create load doc uid s = finish doc s.store.length (result, t) := by
    rw [← hlink]
    rfl
  rw [Job.bind_of_ok hattempt, hcreate]
  exact L.finish_shows doc s.store.length result t

theorem acceptAs_shows (doc : Document) (uid : String) :
    (L.acceptAs load doc uid).Shows (L.own.acceptAs L load' doc uid) := by
  intro s
  unfold acceptAs Collaborators.acceptAs
  have hfind : Job.ask (L.own.find? doc.name uid) s.desk =
      (.ok (s.registry.find? doc.name uid), s.desk) := rfl
  rw [Job.bind_of_ok hfind]
  cases s.registry.find? doc.name uid with
  | some h =>
    have hlook : Job.look (L.own.isLinking h) s.desk = (.ok (s.isLinking h), s.desk) := rfl
    simp only
    rw [Job.bind_of_ok hlook]
    cases s.isLinking h <;> rfl
  | none =>
    have hname : Job.ask (L.own.findByName? doc.name) s.desk =
        (.ok (s.registry.findByName? doc.name), s.desk) := rfl
    have hlook : Job.look (fun w => (s.registry.findByName? doc.name).any (L.own.isLinking · w))
        s.desk = (.ok ((s.registry.findByName? doc.name).any s.isLinking), s.desk) := rfl
    simp only
    rw [Job.bind_of_ok hname, Job.bind_of_ok hlook]
    cases (s.registry.findByName? doc.name).any s.isLinking with
    | true => rfl
    | false => exact L.create_shows hload doc uid s

theorem accept_shows (doc : Document) :
    (L.accept load doc).Shows (L.own.accept L load' doc) := by
  have huid : (L.uidOf doc).Shows (L.own.uidOf doc) := by
    intro s
    unfold uidOf Collaborators.uidOf
    split <;> rfl
  unfold accept Collaborators.accept
  split
  · exact .fail _
  · exact huid.andThen fun uid => L.acceptAs_shows hload doc uid

end Frames

theorem loadWithin_shows (depth : Nat) : ∀ text origin,
    (L.loadWithin depth text origin).Shows (L.own.loadWithin L depth text origin) := by
  induction depth with
  | zero => exact fun _ _ _ => rfl
  | succ depth ih =>
    intro text origin
    unfold loadWithin Collaborators.loadWithin
    cases Document.parse text origin with
    | error e => exact .fail e
    | ok doc => exact L.accept_shows ih doc

/-- With the registry and the codec of sessions, a load is the load of sessions. -/
theorem load_shows (text origin : String) :
    (L.load text origin).Shows (L.own.load L text origin) :=
  L.loadWithin_shows L.maxDepth text origin

end Linker

end AssemblyLinker
