import AssemblyLinker.Loader

/-! # The steps of a load

    A load is a recursion through the references of documents, and everything proved about
    loads is an invariant of that recursion.  This module says once what each step can do:

    * **Parts**: what a chain or a repetition of parts of a load comes to
      (`Action.Ensures`).
    * **Inversion**: the ways in which a document is accepted (`Linker.Accepted`), a
      reference is resolved (`Linker.Resolved`), and the linking of a document stops
      (`Linker.Stopped`).
    * **Contracts**: a property of whole loads, a property of sessions while one assembly is
      being linked, and what each single step has to preserve of them.  Whatever is a
      contract holds of every load, however deep (`Contract.holds`), and a contract may be
      extended by properties that need it (`Contract.extend`).
-/

namespace AssemblyLinker

/-! ## Parts of a load -/

namespace Action

variable {α β : Type}

/-- A part of a load that yields a value ends in `post`, and one that stops in `stuck`. -/
def Ensures (act : Action α) (s : Session) (post : α → Session → Prop)
    (stuck : Session → Prop) : Prop :=
  match act s with
  | (.ok a, t) => post a t
  | (.error _, t) => stuck t

theorem andThen_of_ok {first : Action α} {second : α → Action β} {s t : Session} {a : α}
    (h : first s = (.ok a, t)) : first.andThen second s = second a t := by
  simp only [andThen, h]

theorem andThen_of_error {first : Action α} {second : α → Action β} {s t : Session}
    {stop : Stop} (h : first s = (.error stop, t)) :
    first.andThen second s = (.error stop, t) := by
  simp only [andThen, h]

theorem andThen_eq_ok {first : Action α} {second : α → Action β} {s t : Session} {b : β}
    (h : first.andThen second s = (.ok b, t)) :
    ∃ a u, first s = (.ok a, u) ∧ second a u = (.ok b, t) := by
  rcases hfirst : first s with ⟨stop | a, u⟩
  · rw [andThen_of_error hfirst] at h
    cases h
  · rw [andThen_of_ok hfirst] at h
    exact ⟨a, u, rfl, h⟩

theorem forEach_append (act : α → Action Unit) (xs ys : List α) (s : Session) :
    forEach act (xs ++ ys) s = ((forEach act xs).andThen fun () => forEach act ys) s := by
  induction xs generalizing s with
  | nil => rfl
  | cons x xs ih =>
    simp only [List.cons_append, forEach, andThen]
    rcases act x s with ⟨_ | _, t⟩
    · rfl
    · exact ih t

theorem forEach_map (act : β → Action Unit) (f : α → β) (xs : List α) :
    forEach act (xs.map f) = forEach (fun x => act (f x)) xs := by
  induction xs with
  | nil => rfl
  | cons x xs ih => rw [List.map_cons, forEach, forEach, ih]

/-- A repetition stops at one item, with all items before it done. -/
theorem forEach_stops {act : α → Action Unit} {xs : List α} {s t : Session} {stop : Stop}
    (h : forEach act xs s = (.error stop, t)) :
    ∃ done x rest u, xs = done ++ x :: rest ∧ forEach act done s = (.ok (), u) ∧
      act x u = (.error stop, t) := by
  induction xs generalizing s with
  | nil => cases h
  | cons x xs ih =>
    rcases hx : act x s with ⟨e | _, u⟩
    · rw [forEach, andThen_of_error hx] at h
      cases h
      exact ⟨[], x, xs, s, rfl, rfl, hx⟩
    · rw [forEach, andThen_of_ok hx] at h
      obtain ⟨done, y, rest, v, rfl, hdone, hy⟩ := ih h
      refine ⟨x :: done, y, rest, v, rfl, ?_, hy⟩
      rw [forEach, andThen_of_ok hx]
      exact hdone

namespace Ensures

variable {s : Session} {stuck : Session → Prop}

theorem of_ok {act : Action α} {post : α → Session → Prop} {t : Session} {a : α}
    (h : act.Ensures s post stuck) (hact : act s = (.ok a, t)) : post a t := by
  unfold Ensures at h
  rwa [hact] at h

theorem of_error {act : Action α} {post : α → Session → Prop} {t : Session} {stop : Stop}
    (h : act.Ensures s post stuck) (hact : act s = (.error stop, t)) : stuck t := by
  unfold Ensures at h
  rwa [hact] at h

theorem mono {act : Action α} {post post' : α → Session → Prop} {stuck' : Session → Prop}
    (h : act.Ensures s post stuck) (hpost : ∀ a t, post a t → post' a t)
    (hstuck : ∀ t, stuck t → stuck' t) : act.Ensures s post' stuck' := by
  unfold Ensures at h ⊢
  split at h
  · exact hpost _ _ h
  · exact hstuck _ h

theorem andThen {first : Action α} {second : α → Action β} {post : α → Session → Prop}
    {post' : β → Session → Prop} (h : first.Ensures s post stuck)
    (h' : ∀ a t, post a t → (second a).Ensures t post' stuck) :
    (first.andThen second).Ensures s post' stuck := by
  unfold Ensures
  rcases hfirst : first s with ⟨e | a, t⟩
  · rw [andThen_of_error hfirst]
    exact h.of_error hfirst
  · rw [andThen_of_ok hfirst]
    exact h' a t (h.of_ok hfirst)

/-- Two parts in a row, where the first one may stop for a reason of its own. -/
theorem andThen_mono {first : Action α} {second : α → Action β} {post : α → Session → Prop}
    {post' : β → Session → Prop} {stuck' : Session → Prop} (h : first.Ensures s post stuck)
    (hstuck : ∀ t, stuck t → stuck' t)
    (h' : ∀ a t, post a t → (second a).Ensures t post' stuck') :
    (first.andThen second).Ensures s post' stuck' :=
  (h.mono (fun _ _ hpost => hpost) hstuck).andThen h'

/-- The rule of repetitions: the invariant knows the items that are done. -/
theorem forEach {act : α → Action Unit} (Inv : List α → Session → Prop) {xs : List α}
    (step : ∀ done x t, x ∈ xs → Inv done t →
      (act x).Ensures t (fun _ => Inv (done ++ [x])) stuck) (done : List α)
    (h : Inv done s) :
    (Action.forEach act xs).Ensures s (fun _ => Inv (done ++ xs)) stuck := by
  induction xs generalizing s done with
  | nil => simpa [Ensures, Action.forEach, Action.pure] using h
  | cons x xs ih =>
    refine (step done x s List.mem_cons_self h).andThen fun _ t ht => ?_
    have hrest := ih (fun done y t hy => step done y t (List.mem_cons_of_mem x hy)) _ ht
    rwa [List.append_assoc, List.singleton_append] at hrest

end Ensures

end Action

/-! ## What a step can do -/

namespace Session

/-- The handle of the assembly that is created next. -/
def nextHandle (s : Session) : Handle := s.store.length

/-- The session in which the uid of a document is known. -/
def identify (s : Session) (doc : Document) : Session :=
  if doc.uid = "" then s.record .uidDrawn else s

@[simp] theorem identify_store (s : Session) (doc : Document) :
    (s.identify doc).store = s.store := by
  unfold identify; split <;> rfl

@[simp] theorem identify_registry (s : Session) (doc : Document) :
    (s.identify doc).registry = s.registry := by
  unfold identify; split <;> rfl

@[simp] theorem identify_context (s : Session) (doc : Document) :
    (s.identify doc).context = s.context := by
  unfold identify; split <;> rfl

theorem uidsDrawn_le_identify (s : Session) (doc : Document) :
    s.uidsDrawn ≤ (s.identify doc).uidsDrawn := by
  unfold identify
  split
  · exact Nat.le_succ _
  · exact Nat.le_refl _

@[simp] theorem identify_isLinking (s : Session) (doc : Document) (h : Handle) :
    (s.identify doc).isLinking h = s.isLinking h := by
  simp [isLinking]

/-- The session in which the linking of a document is over. -/
def leave (s : Session) (doc : Document) : Session :=
  if doc.executable then s.record .bundleCleared else s

@[simp] theorem leave_store (s : Session) (doc : Document) : (s.leave doc).store = s.store := by
  unfold leave; split <;> rfl

@[simp] theorem leave_registry (s : Session) (doc : Document) :
    (s.leave doc).registry = s.registry := by
  unfold leave; split <;> rfl

@[simp] theorem leave_uidsDrawn (s : Session) (doc : Document) :
    (s.leave doc).uidsDrawn = s.uidsDrawn := by
  unfold leave; split <;> rfl

theorem leave_of_library {doc : Document} (hlibrary : doc.executable = false) (s : Session) :
    s.leave doc = s := by
  rw [leave, hlibrary, if_neg Bool.false_ne_true]

theorem record_abandoned {s : Session} {h : Handle} {a : Assembly}
    (ha : s.store.get? h = some a) :
    s.record (.abandoned h) =
      { s with registry := s.registry.unregister a.name a.uid,
               history := .abandoned h :: s.history } := by
  simp [record, apply, ha]

@[simp] theorem abandoned_store (s : Session) (h : Handle) :
    (s.record (.abandoned h)).store = s.store := by
  simp only [record, apply]
  split <;> rfl

@[simp] theorem abandoned_context (s : Session) (h : Handle) :
    (s.record (.abandoned h)).context = s.context := by
  simp only [record, apply]
  split <;> rfl

/-- Declaring a module changes the modules of the assembly and nothing else. -/
theorem declare_records {s : Session} {h : Handle} {a : Assembly}
    (ha : s.store.get? h = some a) (j : Json) :
    ∃ modules, (s.declare h j).2 = s.record (.declareCalled h modules) := by
  unfold declare
  rw [ha]
  simp only
  split <;> exact ⟨_, rfl⟩

theorem define_eq {s : Session} {h : Handle} {a : Assembly} (ha : s.store.get? h = some a)
    (j : Json) :
    s.define h j = ((ModuleDocument.define s.store j a).2.mapError (·.toError a.name),
      s.record (.defineCalled h (ModuleDocument.define s.store j a).1.modules)) := by
  simp only [define, ha]

/-- Defining a module changes the modules of the assembly and nothing else. -/
theorem define_records {s : Session} {h : Handle} {a : Assembly}
    (ha : s.store.get? h = some a) (j : Json) :
    ∃ modules, (s.define h j).2 = s.record (.defineCalled h modules) := by
  rw [define_eq ha]
  exact ⟨_, rfl⟩

/-- In a later session the assembly of a handle has been changed, and nothing else that a load
    looks at. -/
structure Changed (s : Session) (h : Handle) (f : Assembly → Assembly) (t : Session) : Prop where
  store : t.store = s.store.update h f
  registry : t.registry = s.registry
  context : t.context = s.context
  uidsDrawn : t.uidsDrawn = s.uidsDrawn

namespace Changed

variable {s t u : Session} {h i : Handle} {f g : Assembly → Assembly} {a : Assembly}

theorem refl (s : Session) (h : Handle) : s.Changed h id s :=
  ⟨(List.modify_id h s.store).symm, rfl, rfl, rfl⟩

theorem trans (hst : s.Changed h f t) (htu : t.Changed h g u) : s.Changed h (g ∘ f) u := by
  refine ⟨?_, htu.registry.trans hst.registry, htu.context.trans hst.context,
    htu.uidsDrawn.trans hst.uidsDrawn⟩
  rw [htu.store, hst.store]
  exact List.modify_modify_eq f g h s.store

theorem get? (ht : s.Changed h f t) (ha : s.store.get? h = some a) :
    t.store.get? h = some (f a) := by
  rw [ht.store, Store.get?_update_self, ha]
  rfl

theorem nextHandle (ht : s.Changed h f t) : t.nextHandle = s.nextHandle := by
  unfold Session.nextHandle
  rw [ht.store, Store.length_update]

theorem get?_ne (ht : s.Changed h f t) (hi : i ≠ h) : t.store.get? i = s.store.get? i := by
  rw [ht.store, Store.get?_update_ne _ _ hi]

/-- Only what becomes of the assembly itself counts. -/
theorem congr (ht : s.Changed h f t) (hfg : ∀ a, s.store.get? h = some a → f a = g a) :
    s.Changed h g t := by
  refine ⟨?_, ht.registry, ht.context, ht.uidsDrawn⟩
  rw [ht.store]
  apply List.ext_getElem?
  intro i
  show (s.store.update h f).get? i = (s.store.update h g).get? i
  by_cases hi : i = h
  · subst hi
    rw [Store.get?_update_self, Store.get?_update_self]
    cases ha : s.store.get? i with
    | none => rfl
    | some a => exact congrArg some (hfg a ha)
  · rw [Store.get?_update_ne _ _ hi, Store.get?_update_ne _ _ hi]

end Changed

theorem referenceAdded_changed (s : Session) (h : Handle) (name : String) :
    s.Changed h (·.addReference name) (s.record (.referenceAdded h name)) :=
  ⟨rfl, rfl, rfl, rfl⟩

theorem dependencyAdded_changed (s : Session) (h d : Handle) :
    s.Changed h (·.addDependency d) (s.record (.dependencyAdded h d)) :=
  ⟨rfl, rfl, rfl, rfl⟩

theorem completed_changed (s : Session) (h : Handle) :
    s.Changed h ({ · with state := .linked }) (s.record (.completed h)) :=
  ⟨rfl, rfl, rfl, rfl⟩

theorem declareCalled_changed (s : Session) (h : Handle) (modules : List ModuleInfo) :
    s.Changed h ({ · with modules }) (s.record (.declareCalled h modules)) :=
  ⟨rfl, rfl, rfl, rfl⟩

theorem defineCalled_changed (s : Session) (h : Handle) (modules : List ModuleInfo) :
    s.Changed h ({ · with modules }) (s.record (.defineCalled h modules)) :=
  ⟨rfl, rfl, rfl, rfl⟩

/-- The session in which the text of a reference is about to be loaded. -/
def refer (s : Session) (h : Handle) (name : String) (source : TextSource) (text : String) :
    Session :=
  (s.record (.referenceAdded h name)).record (.textLocated h name source text)

/-- The session in which a reference has been linked to a registered assembly. -/
def join (s : Session) (h : Handle) (name : String) (d : Handle) : Session :=
  (s.record (.referenceAdded h name)).record (.dependencyAdded h d)

end Session

/-- A reference is harvested if its payload can be read, and this goes into the bundle. -/
theorem harvestReference_eq_ok_iff {executable : String} {r : Reference} {s t : Session} :
    harvestReference executable r s = (.ok (), t) ↔
      ∃ text, payload executable r = .ok text ∧ s.record (.payloadBundled r.name text) = t := by
  unfold harvestReference
  cases payload executable r with
  | error e =>
    constructor
    · intro h
      cases h
    · rintro ⟨text, htext, -⟩
      cases htext
  | ok text =>
    constructor
    · intro h
      exact ⟨text, rfl, congrArg Prod.snd h⟩
    · rintro ⟨text', htext, rfl⟩
      cases htext
      rfl

theorem harvest_of_library {doc : Document} (hlibrary : doc.executable = false) (s : Session) :
    harvest doc s = (.ok (), s) := by
  rw [harvest, hlibrary, if_neg Bool.false_ne_true]
  rfl

namespace Linker

variable (L : Linker)

/-- The uid under which a document is accepted. -/
def uidFor (doc : Document) (s : Session) : String :=
  if doc.uid = "" then L.uids s.uidsDrawn else doc.uid

theorem uidOf_eq (doc : Document) (s : Session) :
    L.uidOf doc s = (.ok (L.uidFor doc s), s.identify doc) := by
  unfold uidOf uidFor Session.identify
  split <;> rfl

/-- In a session a document finds neither its name and uid registered, nor its name
    registered for an assembly that is being linked; a new assembly is created for it. -/
structure Opens (doc : Document) (s t : Session) : Prop where
  mode : doc.mode = L.mode
  unregistered : s.registry.find? doc.name (L.uidFor doc s) = none
  unlinked : (s.registry.findByName? doc.name).any s.isLinking = false
  session : t = (s.identify doc).record (.created (newAssembly doc (L.uidFor doc s)))

/-- Where nothing is registered, every document in the mode of the linker opens. -/
theorem opens_of_empty {L : Linker} {doc : Document} {s : Session} (hempty : s.registry = {})
    (hmode : doc.mode = L.mode) :
    L.Opens doc s ((s.identify doc).record (.created (newAssembly doc (L.uidFor doc s)))) := by
  refine ⟨hmode, ?_, ?_, rfl⟩
  · rw [hempty]
    rfl
  · rw [hempty]
    rfl

namespace Opens

variable {L} {doc : Document} {s t : Session}

theorem store (h : L.Opens doc s t) :
    t.store = s.store ++ [newAssembly doc (L.uidFor doc s)] := by
  rw [h.session]
  show (s.identify doc).store ++ _ = _
  rw [Session.identify_store]

theorem entries (h : L.Opens doc s t) :
    t.registry.entries =
      s.registry.entries ++ [⟨doc.name, L.uidFor doc s, s.nextHandle⟩] := by
  rw [h.session]
  show ((s.identify doc).registry.register _ _ (s.identify doc).store.length).entries = _
  rw [Session.identify_registry, Session.identify_store]
  exact Registry.register_of_find?_eq_none _ h.unregistered

theorem context (h : L.Opens doc s t) : t.context = s.context := by
  rw [h.session]
  exact Session.identify_context s doc

end Opens

/-- The ways in which a document is accepted. -/
inductive Accepted (load : Load) (doc : Document) (s : Session) :
    Outcome Handle × Session → Prop where
  | wrongMode (mode : doc.mode ≠ L.mode) :
      Accepted load doc s (.error (.failed (.bytecodeMode doc.name doc.mode L.mode)), s)
  | circular (mode : doc.mode = L.mode)
      (linking : (s.registry.find? doc.name (L.uidFor doc s)).any s.isLinking = true ∨
        (s.registry.findByName? doc.name).any s.isLinking = true) :
      Accepted load doc s
        (.error (.failed (.circularReference doc.name doc.name)), s.identify doc)
  | known (h : Handle) (mode : doc.mode = L.mode)
      (found : s.registry.find? doc.name (L.uidFor doc s) = some h)
      (linked : s.isLinking h = false) :
      Accepted load doc s (.ok h, s.identify doc)
  | opened (t : Session) (opens : L.Opens doc s t) :
      Accepted load doc s (finish doc s.nextHandle (L.link load doc s.nextHandle t))

theorem accepted (load : Load) (doc : Document) (s : Session) :
    L.Accepted load doc s (L.accept load doc s) := by
  unfold accept
  split
  · exact .wrongMode ‹_›
  next hmode =>
    rw [Decidable.not_not] at hmode
    rw [Action.andThen_of_ok (L.uidOf_eq doc s)]
    unfold acceptAs
    simp only [Session.identify_registry, Session.identify_isLinking]
    cases hfind : s.registry.find? doc.name (L.uidFor doc s) with
    | some h =>
      cases hlinking : s.isLinking h with
      | true =>
        simp only [hlinking, ↓reduceIte]
        exact .circular hmode (.inl (by rw [hfind]; exact hlinking))
      | false =>
        simp only [hlinking, Bool.false_eq_true, ↓reduceIte]
        exact .known h hmode hfind hlinking
    | none =>
      simp only
      -- a uid that has been drawn in between changes nothing about what is being linked
      have hany : ((s.registry.findByName? doc.name).any (s.identify doc).isLinking)
          = (s.registry.findByName? doc.name).any s.isLinking := by
        cases s.registry.findByName? doc.name <;> simp
      rw [hany]
      cases hname : (s.registry.findByName? doc.name).any s.isLinking with
      | true => exact .circular hmode (.inr hname)
      | false =>
        have hopens : L.Opens doc s
            ((s.identify doc).record (.created (newAssembly doc (L.uidFor doc s)))) :=
          ⟨hmode, hfind, hname, rfl⟩
        have hopened : L.Accepted load doc s (finish doc s.nextHandle
            (L.link load doc s.nextHandle _)) := .opened _ hopens
        simpa [create, Session.nextHandle] using hopened

theorem accept_of_opens {L : Linker} (load : Load) {doc : Document} {s t : Session}
    (h : L.Opens doc s t) :
    L.accept load doc s = finish doc s.nextHandle (L.link load doc s.nextHandle t) := by
  have haccepted := L.accepted load doc s
  generalize L.accept load doc s = result at haccepted
  cases haccepted with
  | wrongMode mode => exact absurd h.mode mode
  | circular mode linking =>
    rw [h.unregistered, h.unlinked] at linking
    rcases linking with linking | linking <;> cases linking
  | known i mode found linked =>
    rw [h.unregistered] at found
    cases found
  | opened t' opens => rw [opens.session, h.session]

/-- A document whose name and uid are registered is answered with what is registered. -/
theorem accept_of_known {L : Linker} (load : Load) {doc : Document} {s : Session} {h : Handle}
    (mode : doc.mode = L.mode) (found : s.registry.find? doc.name (L.uidFor doc s) = some h)
    (linked : s.isLinking h = false) : L.accept load doc s = (.ok h, s.identify doc) := by
  unfold accept
  rw [if_neg (not_not_intro mode), Action.andThen_of_ok (L.uidOf_eq doc s)]
  unfold acceptAs
  simp only [Session.identify_registry, found, Session.identify_isLinking, linked,
    Bool.false_eq_true, ↓reduceIte]
  rfl

/-- An assembly is given up for what stopped its linking. -/
theorem linking_stops {doc : Document} {h : Handle} {result : Outcome Unit × Session} {stop : Stop}
    (hstop : (finish doc h result).1 = .error stop) : result.1 = .error stop := by
  rcases result with ⟨stop' | _, t⟩
  · exact congrArg _ (Except.error.inj hstop)
  · cases hstop

/-- A text that is loaded is a document. -/
theorem parse_of_load {L : Linker} {text origin : String} {s t : Session} {h : Handle}
    (hok : L.load text origin s = (.ok h, t)) : ∃ doc, Document.parse text origin = .ok doc := by
  unfold Linker.load at hok
  cases hmax : L.maxDepth with
  | zero =>
    rw [hmax] at hok
    cases hok
  | succ depth =>
    rw [hmax, loadWithin] at hok
    cases hparse : Document.parse text origin with
    | error e =>
      rw [hparse] at hok
      cases hok
    | ok doc => exact ⟨doc, rfl⟩

/-- The sessions that a document passes through which is opened and linked: it has been opened
    in `o`, its payloads are in the bundle in `p`, its references have been linked in `u` and
    its modules built in `v`. -/
structure Stages (L : Linker) (load : Load) (doc : Document) (s o p u v : Session) : Prop where
  opens : L.Opens doc s o
  harvested : harvest doc o = (.ok (), p)
  references : Action.forEach (L.linkReference load doc.name s.nextHandle) doc.references p =
    (.ok (), u)
  modules : buildModules s.nextHandle doc.modules u = (.ok (), v)

namespace Stages

variable {L : Linker} {load : Load} {doc : Document} {s o p u v t : Session} {h : Handle}

/-- A library has nothing to harvest. -/
theorem harvested_of_library (hstages : Stages L load doc s o p u v)
    (hlibrary : doc.executable = false) : o = p :=
  congrArg Prod.snd ((harvest_of_library hlibrary o).symm.trans hstages.harvested)

theorem accept_eq (hstages : Stages L load doc s o p u v) :
    L.accept load doc s = (.ok s.nextHandle, (v.leave doc).record (.completed s.nextHandle)) := by
  rw [accept_of_opens load hstages.opens]
  unfold link
  rw [Action.andThen_of_ok hstages.harvested, Action.andThen_of_ok hstages.references,
    hstages.modules]
  rfl

theorem load_eq {depth : Nat} {text origin : String} (hdepth : L.maxDepth = depth + 1)
    (hparse : Document.parse text origin = .ok doc)
    (hstages : Stages L (L.loadWithin depth) doc s o p u v) : L.load text origin s =
      (.ok s.nextHandle, (v.leave doc).record (.completed s.nextHandle)) := by
  unfold Linker.load
  rw [hdepth, loadWithin, hparse]
  exact hstages.accept_eq

/-- A document that has been opened and linked has passed through them. -/
theorem of_link (hopens : L.Opens doc s o) (hok : L.link load doc s.nextHandle o = (.ok (), v)) :
    ∃ p u, Stages L load doc s o p u v := by
  unfold link at hok
  obtain ⟨_, p, hharvest, hok⟩ := Action.andThen_eq_ok hok
  obtain ⟨_, u, hreferences, hmodules⟩ := Action.andThen_eq_ok hok
  exact ⟨p, u, hopens, hharvest, hreferences, hmodules⟩

theorem of_finish (hopens : L.Opens doc s o)
    (hok : finish doc s.nextHandle (L.link load doc s.nextHandle o) = (.ok h, t)) :
    h = s.nextHandle ∧ ∃ p u v, Stages L load doc s o p u v ∧
      t = (v.leave doc).record (.completed s.nextHandle) := by
  rcases hlink : L.link load doc s.nextHandle o with ⟨stop | _, v⟩
  · rw [hlink] at hok
    cases hok
  · rw [hlink] at hok
    cases hok
    obtain ⟨p, u, hstages⟩ := of_link hopens hlink
    exact ⟨rfl, p, u, v, hstages, rfl⟩

end Stages

/-- The ways in which a document is accepted that yield a handle. -/
inductive Answered (load : Load) (doc : Document) (s : Session) : Handle → Session → Prop where
  | known {h : Handle} (mode : doc.mode = L.mode)
      (found : s.registry.find? doc.name (L.uidFor doc s) = some h)
      (linked : s.isLinking h = false) : Answered load doc s h (s.identify doc)
  | linked (o p u v : Session) (stages : Stages L load doc s o p u v) :
      Answered load doc s s.nextHandle ((v.leave doc).record (.completed s.nextHandle))

theorem answered {load : Load} {doc : Document} {s t : Session} {h : Handle}
    (hok : L.accept load doc s = (.ok h, t)) : L.Answered load doc s h t := by
  have haccepted := L.accepted load doc s
  rw [hok] at haccepted
  generalize hresult : (Except.ok h, t) = result at haccepted
  cases haccepted with
  | wrongMode mode => cases hresult
  | circular mode linking => cases hresult
  | known d mode found linked =>
    cases hresult
    exact .known mode found linked
  | opened o opens =>
    obtain ⟨rfl, p, u, v, hstages, rfl⟩ := Stages.of_finish opens hresult.symm
    exact .linked o p u v hstages

namespace Stages

variable {L : Linker} {s t : Session} {h : Handle}

/-- A document that is loaded where its name and uid are not registered has passed through all
    stages. -/
theorem of_load_of_unregistered {text origin : String} {doc : Document}
    (hparse : Document.parse text origin = .ok doc)
    (hnew : s.registry.find? doc.name (L.uidFor doc s) = none)
    (hok : L.load text origin s = (.ok h, t)) : ∃ depth o p u v,
      L.maxDepth = depth + 1 ∧ Stages L (L.loadWithin depth) doc s o p u v ∧ h = s.nextHandle ∧
      t = (v.leave doc).record (.completed s.nextHandle) := by
  unfold Linker.load at hok
  cases hmax : L.maxDepth with
  | zero =>
    rw [hmax] at hok
    cases hok
  | succ depth =>
    rw [hmax, loadWithin, hparse] at hok
    cases L.answered hok with
    | known mode found linked =>
      rw [hnew] at found
      cases found
    | linked o p u v hstages => exact ⟨depth, o, p, u, v, rfl, hstages, rfl, rfl⟩

/-- So has a document that is loaded where nothing is registered. -/
theorem of_load {text origin : String} (hempty : s.registry = {})
    (hok : L.load text origin s = (.ok h, t)) : ∃ depth doc o p u v,
      L.maxDepth = depth + 1 ∧ Document.parse text origin = .ok doc ∧
      Stages L (L.loadWithin depth) doc s o p u v ∧ h = s.nextHandle ∧
      t = (v.leave doc).record (.completed s.nextHandle) := by
  obtain ⟨doc, hparse⟩ := parse_of_load hok
  have hnew : s.registry.find? doc.name (L.uidFor doc s) = none := by
    rw [hempty]
    rfl
  obtain ⟨depth, o, p, u, v, hdepth, hstages, hh, ht⟩ := of_load_of_unregistered hparse hnew hok
  exact ⟨depth, doc, o, p, u, v, hdepth, hparse, hstages, hh, ht⟩

end Stages

/-- The ways in which a reference of the assembly `h` is resolved. -/
inductive Resolved (load : Load) (assembly : String) (h : Handle) (name : String)
    (s : Session) : Outcome Unit × Session → Prop where
  | circular (d : Handle) (found : s.registry.findByName? name = some d)
      (linking : (s.record (.referenceAdded h name)).isLinking d = true) :
      Resolved load assembly h name s
        (.error (.failed (.circularReference assembly name)), s.record (.referenceAdded h name))
  | registered (d : Handle) (found : s.registry.findByName? name = some d)
      (linked : (s.record (.referenceAdded h name)).isLinking d = false) :
      Resolved load assembly h name s (.ok (), s.join h name d)
  | absent (e : LinkError) (free : s.registry.findByName? name = none)
      (located : L.locateText s.context assembly name = .error e) :
      Resolved load assembly h name s (.error (.failed e), s.record (.referenceAdded h name))
  | stopped (source : TextSource) (text : String) (stop : Stop) (t : Session)
      (free : s.registry.findByName? name = none)
      (located : L.locateText s.context assembly name = .ok (source, text))
      (loaded : load text name (s.refer h name source text) = (.error stop, t)) :
      Resolved load assembly h name s (.error stop, t)
  | loaded (source : TextSource) (text : String) (d : Handle) (t : Session)
      (free : s.registry.findByName? name = none)
      (located : L.locateText s.context assembly name = .ok (source, text))
      (loaded : load text name (s.refer h name source text) = (.ok d, t)) :
      Resolved load assembly h name s (.ok (), t.record (.dependencyAdded h d))

theorem resolved (load : Load) (assembly : String) (h : Handle) (r : Reference) (s : Session) :
    L.Resolved load assembly h r.name s (L.linkReference load assembly h r s) := by
  show L.Resolved load assembly h r.name s
    (L.resolveReference load assembly h r.name (s.record (.referenceAdded h r.name)))
  unfold resolveReference
  -- the reference is recorded first, and the look-ups behind that do not see it
  have hregistry : (s.record (.referenceAdded h r.name)).registry = s.registry := rfl
  have hcontext : (s.record (.referenceAdded h r.name)).context = s.context := rfl
  rw [hregistry, hcontext]
  cases hfind : s.registry.findByName? r.name with
  | some d =>
    cases hlinking : (s.record (.referenceAdded h r.name)).isLinking d with
    | true => simpa [hlinking] using .circular d hfind hlinking
    | false => simpa [hlinking] using .registered d hfind hlinking
  | none =>
    cases hlocate : L.locateText s.context assembly r.name with
    | error e => exact .absent e hfind hlocate
    | ok found =>
      obtain ⟨source, text⟩ := found
      show L.Resolved load assembly h r.name s
        (((load text r.name).andThen fun d => .record (.dependencyAdded h d))
          (s.refer h r.name source text))
      rcases hload : load text r.name (s.refer h r.name source text) with ⟨stop | d, t⟩
      · rw [Action.andThen_of_error hload]
        exact .stopped source text stop t hfind hlocate hload
      · rw [Action.andThen_of_ok hload]
        exact .loaded source text d t hfind hlocate hload

/-- A reference to a registered and linked assembly is resolved by it. -/
theorem linkReference_of_registered (load : Load) (assembly : String) (r : Reference) {h : Handle}
    {s : Session} {d : Handle} (found : s.registry.findByName? r.name = some d)
    (linked : (s.record (.referenceAdded h r.name)).isLinking d = false) :
    L.linkReference load assembly h r s = (.ok (), s.join h r.name d) := by
  show L.resolveReference load assembly h r.name (s.record (.referenceAdded h r.name)) = _
  unfold resolveReference
  have hregistry : (s.record (.referenceAdded h r.name)).registry = s.registry := rfl
  rw [hregistry, found]
  simp only [linked, Bool.false_eq_true, ↓reduceIte]
  rfl

/-- A reference whose text is found is resolved by a load of the text. -/
theorem linkReference_of_located (load : Load) (h : Handle) (r : Reference) {assembly : String}
    {s : Session} {source : TextSource} {text : String}
    (free : s.registry.findByName? r.name = none)
    (located : L.locateText s.context assembly r.name = .ok (source, text)) :
    L.linkReference load assembly h r s =
      ((load text r.name).andThen fun d => .record (.dependencyAdded h d))
        (s.refer h r.name source text) := by
  show L.resolveReference load assembly h r.name (s.record (.referenceAdded h r.name)) = _
  unfold resolveReference
  have hregistry : (s.record (.referenceAdded h r.name)).registry = s.registry := rfl
  have hcontext : (s.record (.referenceAdded h r.name)).context = s.context := rfl
  rw [hregistry, free, hcontext, located]
  rfl

/-- A reference whose text cannot be loaded stops for the same reason. -/
theorem linkReference_of_stuck (load : Load) (h : Handle) (r : Reference) {assembly : String}
    {s t : Session} {source : TextSource} {text : String} {stop : Stop}
    (free : s.registry.findByName? r.name = none)
    (located : L.locateText s.context assembly r.name = .ok (source, text))
    (stuck : load text r.name (s.refer h r.name source text) = (.error stop, t)) :
    L.linkReference load assembly h r s = (.error stop, t) := by
  rw [L.linkReference_of_located load h r free located, Action.andThen_of_error stuck]

/-- References are linked by their names alone. -/
theorem linkReferences_congr (load : Load) (assembly : String) (h : Handle)
    {rs rs' : List Reference} (hnames : rs'.map (·.name) = rs.map (·.name)) :
    Action.forEach (L.linkReference load assembly h) rs' =
      Action.forEach (L.linkReference load assembly h) rs := by
  have hbyName : ∀ rs : List Reference, Action.forEach (L.linkReference load assembly h) rs =
      Action.forEach (fun name => L.linkReference load assembly h { name }) (rs.map (·.name)) := by
    intro rs
    rw [Action.forEach_map]
    rfl
  rw [hbyName, hbyName, hnames]

/-- Links the first references of a document, as many as given. -/
def linkFirst (load : Load) (doc : Document) (h : Handle) (count : Nat) : Action Unit :=
  (harvest doc).andThen fun () =>
    .forEach (L.linkReference load doc.name h) (doc.references.take count)

/-- The ways in which the linking of a document stops that has been opened in `o`. -/
inductive Stopped (load : Load) (doc : Document) (h : Handle) (o : Session) :
    Stop → Session → Prop where
  | atPayload {stop : Stop} {t : Session} (harvested : harvest doc o = (.error stop, t)) :
      Stopped load doc h o stop t
  | atReference {i : Nat} {u t : Session} {r : Reference} {stop : Stop}
      (linked : L.linkFirst load doc h i o = (.ok (), u))
      (reference : doc.references[i]? = some r)
      (resolved : L.linkReference load doc.name h r u = (.error stop, t)) :
      Stopped load doc h o stop t
  | atModule {u t : Session} {stop : Stop}
      (linked : L.linkFirst load doc h doc.references.length o = (.ok (), u))
      (built : buildModules h doc.modules u = (.error stop, t)) : Stopped load doc h o stop t

theorem stopped {load : Load} {doc : Document} {h : Handle} {o t : Session} {stop : Stop}
    (hlink : L.link load doc h o = (.error stop, t)) : L.Stopped load doc h o stop t := by
  unfold link at hlink
  rcases hharvest : harvest doc o with ⟨stop' | _, p⟩
  · rw [Action.andThen_of_error hharvest] at hlink
    cases hlink
    exact .atPayload hharvest
  rw [Action.andThen_of_ok hharvest] at hlink
  have hfirst : ∀ i, L.linkFirst load doc h i o =
      Action.forEach (L.linkReference load doc.name h) (doc.references.take i) p := fun i =>
    Action.andThen_of_ok hharvest
  rcases hreferences : Action.forEach (L.linkReference load doc.name h) doc.references p with
    ⟨stop' | _, u⟩
  · rw [Action.andThen_of_error hreferences] at hlink
    cases hlink
    obtain ⟨done, r, rest, u, hsplit, hdone, hstop⟩ := Action.forEach_stops hreferences
    refine .atReference (i := done.length) ?_ ?_ hstop
    · rw [hfirst, hsplit, List.take_left]
      exact hdone
    · rw [hsplit]
      simp
  · rw [Action.andThen_of_ok hreferences] at hlink
    refine .atModule ?_ hlink
    rw [hfirst, List.take_length]
    exact hreferences

/-- A reference that cannot be linked stops the linking of its document: those before it have been
    linked, and those behind it are not looked at. -/
theorem link_of_linkFirst {load : Load} {doc : Document} {h : Handle} {i : Nat} {o u t : Session}
    {r : Reference} {stop : Stop} (linked : L.linkFirst load doc h i o = (.ok (), u))
    (reference : doc.references[i]? = some r)
    (resolved : L.linkReference load doc.name h r u = (.error stop, t)) :
    L.link load doc h o = (.error stop, t) := by
  obtain ⟨_, p, hharvest, hdone⟩ := Action.andThen_eq_ok linked
  obtain ⟨hi, hr⟩ := List.getElem?_eq_some_iff.1 reference
  have hsplit : doc.references = doc.references.take i ++ r :: doc.references.drop (i + 1) := by
    rw [← hr, ← List.drop_eq_getElem_cons hi, List.take_append_drop]
  have hreferences : Action.forEach (L.linkReference load doc.name h) doc.references p =
      (.error stop, t) := by
    rw [hsplit, Action.forEach_append, Action.andThen_of_ok hdone, Action.forEach,
      Action.andThen_of_error resolved]
  unfold link
  rw [Action.andThen_of_ok hharvest, Action.andThen_of_error hreferences]

/-- An assembly whose linking stops is given up. -/
theorem accept_of_stopped {load : Load} {doc : Document} {s o t : Session} {stop : Stop}
    (hopens : L.Opens doc s o) (hlink : L.link load doc s.nextHandle o = (.error stop, t)) :
    L.accept load doc s = (.error stop, (t.leave doc).record (.abandoned s.nextHandle)) := by
  rw [accept_of_opens load hopens, hlink]
  rfl

/-! ## Contracts -/

/-- The rules of the steps of a load: where the first properties hold before a step, the second
    ones hold after it.

    * `Effect text s r`: a load of `text` that begins in `s` may come to `r`.
    * `During text s doc done t`: in `t` the assembly that has been created in `s` for
      `doc`, the document of `text`, is being linked, and its references `done` are.
    * `Stuck text s doc t`: in `t` that assembly cannot be linked. -/
structure Rules (Effect : String → Session → Outcome Handle × Session → Prop)
    (During : String → Session → Document → List Reference → Session → Prop)
    (Stuck : String → Session → Document → Session → Prop)
    (Effect' : String → Session → Outcome Handle × Session → Prop)
    (During' : String → Session → Document → List Reference → Session → Prop)
    (Stuck' : String → Session → Document → Session → Prop) : Prop where
  tooDeep : ∀ text s, Effect' text s (.error .tooDeep, s)
  failed : ∀ text s e, Effect' text s (.error (.failed e), s)
  circular : ∀ text s doc, Effect' text s
    (.error (.failed (.circularReference doc.name doc.name)), s.identify doc)
  known : ∀ text origin s doc h, Document.parse text origin = .ok doc → doc.mode = L.mode →
    s.registry.find? doc.name (L.uidFor doc s) = some h → s.isLinking h = false →
    Effect' text s (.ok h, s.identify doc)
  opens : ∀ text origin s doc t, Document.parse text origin = .ok doc → L.Opens doc s t →
    During' text s doc [] t
  bundles : ∀ text s doc t (r : Reference) payloadText, During text s doc [] t →
    doc.executable = true → r ∈ doc.references → payload doc.name r = .ok payloadText →
    During' text s doc [] (t.record (.payloadBundled r.name payloadText))
  joins : ∀ text s doc done t (r : Reference) d, During text s doc done t →
    t.registry.findByName? r.name = some d →
    (t.record (.referenceAdded s.nextHandle r.name)).isLinking d = false →
    During' text s doc (done ++ [r]) (t.join s.nextHandle r.name d)
  loads : ∀ text s doc done t (r : Reference) source found d u, During text s doc done t →
    t.registry.findByName? r.name = none →
    L.locateText t.context doc.name r.name = .ok (source, found) →
    Effect found (t.refer s.nextHandle r.name source found) (.ok d, u) →
    During' text s doc (done ++ [r]) (u.record (.dependencyAdded s.nextHandle d))
  declares : ∀ text s doc t j, During text s doc doc.references t →
    During' text s doc doc.references (t.declare s.nextHandle j).2
  defines : ∀ text s doc t j, During text s doc doc.references t →
    During' text s doc doc.references (t.define s.nextHandle j).2
  breaks : ∀ text s doc done t, During text s doc done t → Stuck' text s doc t
  breaksAtReference : ∀ text s doc done t name, During text s doc done t →
    Stuck' text s doc (t.record (.referenceAdded s.nextHandle name))
  breaksInLoad : ∀ text s doc done t (r : Reference) source found stop u, During text s doc done t →
    t.registry.findByName? r.name = none →
    L.locateText t.context doc.name r.name = .ok (source, found) →
    Effect found (t.refer s.nextHandle r.name source found) (.error stop, u) →
    Stuck' text s doc u
  completes : ∀ text s doc t depth o p u, During text s doc doc.references t →
    Stages L (L.loadWithin depth) doc s o p u t →
    Effect' text s (.ok s.nextHandle, (t.leave doc).record (.completed s.nextHandle))
  abandons : ∀ text s doc t stop, Stuck text s doc t →
    Effect' text s (.error stop, (t.leave doc).record (.abandoned s.nextHandle))

/-- What each step of a load has to preserve. -/
abbrev Contract (Effect : String → Session → Outcome Handle × Session → Prop)
    (During : String → Session → Document → List Reference → Session → Prop)
    (Stuck : String → Session → Document → Session → Prop) : Prop :=
  L.Rules Effect During Stuck Effect During Stuck

namespace Rules

variable {L : Linker} {Effect Effect' Effect'' : String → Session → Outcome Handle × Session → Prop}
  {During During' During'' : String → Session → Document → List Reference → Session → Prop}
  {Stuck Stuck' Stuck'' : String → Session → Document → Session → Prop}

/-- More may be known before a step. -/
theorem imp (c : L.Rules Effect During Stuck Effect' During' Stuck')
    (hEffect : ∀ {text s r}, Effect'' text s r → Effect text s r)
    (hDuring : ∀ {text s doc done t}, During'' text s doc done t → During text s doc done t)
    (hStuck : ∀ {text s doc t}, Stuck'' text s doc t → Stuck text s doc t) :
    L.Rules Effect'' During'' Stuck'' Effect' During' Stuck' where
  tooDeep := c.tooDeep
  failed := c.failed
  circular := c.circular
  known := c.known
  opens := c.opens
  bundles text s doc t r found h := c.bundles text s doc t r found (hDuring h)
  joins text s doc done t r d h := c.joins text s doc done t r d (hDuring h)
  loads text s doc done t r source found d u h free located loaded :=
    c.loads text s doc done t r source found d u (hDuring h) free located (hEffect loaded)
  declares text s doc t j h := c.declares text s doc t j (hDuring h)
  defines text s doc t j h := c.defines text s doc t j (hDuring h)
  breaks text s doc done t h := c.breaks text s doc done t (hDuring h)
  breaksAtReference text s doc done t name h :=
    c.breaksAtReference text s doc done t name (hDuring h)
  breaksInLoad text s doc done t r source found stop u h free located loaded :=
    c.breaksInLoad text s doc done t r source found stop u (hDuring h) free located (hEffect loaded)
  completes text s doc t depth o p u h := c.completes text s doc t depth o p u (hDuring h)
  abandons text s doc t stop h := c.abandons text s doc t stop (hStuck h)

/-- Two rules about the same steps. -/
theorem and (c : L.Rules Effect During Stuck Effect' During' Stuck')
    (c' : L.Rules Effect During Stuck Effect'' During'' Stuck'') :
    L.Rules Effect During Stuck (fun text s r => Effect' text s r ∧ Effect'' text s r)
      (fun text s doc done t => During' text s doc done t ∧ During'' text s doc done t)
      (fun text s doc t => Stuck' text s doc t ∧ Stuck'' text s doc t) where
  tooDeep text s := ⟨c.tooDeep text s, c'.tooDeep text s⟩
  failed text s e := ⟨c.failed text s e, c'.failed text s e⟩
  circular text s doc := ⟨c.circular text s doc, c'.circular text s doc⟩
  known text origin s doc h hparse mode found linked :=
    ⟨c.known text origin s doc h hparse mode found linked,
      c'.known text origin s doc h hparse mode found linked⟩
  opens text origin s doc t hparse opens :=
    ⟨c.opens text origin s doc t hparse opens, c'.opens text origin s doc t hparse opens⟩
  bundles text s doc t r found h hexe hr hpayload :=
    ⟨c.bundles text s doc t r found h hexe hr hpayload,
      c'.bundles text s doc t r found h hexe hr hpayload⟩
  joins text s doc done t r d h found linked :=
    ⟨c.joins text s doc done t r d h found linked, c'.joins text s doc done t r d h found linked⟩
  loads text s doc done t r source found d u h free located loaded :=
    ⟨c.loads text s doc done t r source found d u h free located loaded,
      c'.loads text s doc done t r source found d u h free located loaded⟩
  declares text s doc t j h := ⟨c.declares text s doc t j h, c'.declares text s doc t j h⟩
  defines text s doc t j h := ⟨c.defines text s doc t j h, c'.defines text s doc t j h⟩
  breaks text s doc done t h := ⟨c.breaks text s doc done t h, c'.breaks text s doc done t h⟩
  breaksAtReference text s doc done t name h :=
    ⟨c.breaksAtReference text s doc done t name h, c'.breaksAtReference text s doc done t name h⟩
  breaksInLoad text s doc done t r source found stop u h free located loaded :=
    ⟨c.breaksInLoad text s doc done t r source found stop u h free located loaded,
      c'.breaksInLoad text s doc done t r source found stop u h free located loaded⟩
  completes text s doc t depth o p u h stages :=
    ⟨c.completes text s doc t depth o p u h stages, c'.completes text s doc t depth o p u h stages⟩
  abandons text s doc t stop h :=
    ⟨c.abandons text s doc t stop h, c'.abandons text s doc t stop h⟩

end Rules

namespace Contract

variable {L : Linker} {Effect : String → Session → Outcome Handle × Session → Prop}
  {During : String → Session → Document → List Reference → Session → Prop}
  {Stuck : String → Session → Document → Session → Prop}
  {load : Load} {text : String} {s t : Session} {doc : Document}

/-- Payloads make no loads: where they stop, the property of sessions still holds. -/
theorem harvest (c : L.Contract Effect During Stuck) {stuck : Session → Prop}
    (breaks : ∀ u, During text s doc [] u → stuck u) (h : During text s doc [] t) :
    (AssemblyLinker.harvest doc).Ensures t (fun _ => During text s doc []) stuck := by
  unfold AssemblyLinker.harvest
  split
  next hexe =>
    refine Action.Ensures.forEach (fun _ => During text s doc [])
      (fun done r u hr hu => ?_) [] h
    unfold harvestReference
    cases hpayload : payload doc.name r with
    | ok found => exact c.bundles text s doc u r found hu hexe hr hpayload
    | error e => exact breaks u hu
  next => exact h

theorem references (c : L.Contract Effect During Stuck)
    (hload : ∀ text origin s, Effect text s (load text origin s)) (rs : List Reference)
    (h : During text s doc [] t) :
    (Action.forEach (L.linkReference load doc.name s.nextHandle) rs).Ensures t
      (fun _ => During text s doc rs) (Stuck text s doc) := by
  refine Action.Ensures.forEach (During text s doc) (fun done r u hr hu => ?_) [] h
  unfold Action.Ensures
  have hresolved := L.resolved load doc.name s.nextHandle r u
  generalize L.linkReference load doc.name s.nextHandle r u = result at hresolved
  cases hresolved with
  | circular d found linking => exact c.breaksAtReference text s doc done u r.name hu
  | registered d found linked => exact c.joins text s doc done u r d hu found linked
  | absent e free located => exact c.breaksAtReference text s doc done u r.name hu
  | stopped source found stop v free located loaded =>
    exact c.breaksInLoad text s doc done u r source found stop v hu free located
      (loaded ▸ hload found r.name _)
  | loaded source found d v free located loaded =>
    exact c.loads text s doc done u r source found d v hu free located
      (loaded ▸ hload found r.name _)

/-- So it is with modules. -/
theorem modules (c : L.Contract Effect During Stuck) {stuck : Session → Prop}
    (breaks : ∀ u, During text s doc doc.references u → stuck u)
    (h : During text s doc doc.references t) :
    (buildModules s.nextHandle doc.modules).Ensures t
      (fun _ => During text s doc doc.references) stuck := by
  -- both passes are repetitions of steps that keep the property, also where they fail
  have hpass : ∀ (step : Session → Json → Except LinkError Unit × Session),
      (∀ u j, During text s doc doc.references u →
        During text s doc doc.references (step u j).2) →
      ∀ u, During text s doc doc.references u →
        (Action.forEach (fun j => .ofStep (step · j)) doc.modules).Ensures u
          (fun _ => During text s doc doc.references) stuck := by
    intro step hstep u hu
    refine Action.Ensures.forEach (fun _ => During text s doc doc.references)
      (fun done j v _ hv => ?_) [] hu
    unfold Action.Ensures Action.ofStep
    have hkept := hstep v j hv
    cases (step v j).1 with
    | ok => exact hkept
    | error e => exact breaks _ hkept
  unfold buildModules
  refine (hpass (fun u j => u.declare s.nextHandle j)
    (fun u j => c.declares text s doc u j) t h).andThen fun _ u hu => ?_
  exact hpass (fun u j => u.define s.nextHandle j) (fun u j => c.defines text s doc u j) u hu

/-- While the references of an assembly are being linked, the property of sessions holds. -/
theorem linkFirst (c : L.Contract Effect During Stuck)
    (hload : ∀ text origin s, Effect text s (load text origin s)) (count : Nat)
    (h : During text s doc [] t) :
    (L.linkFirst load doc s.nextHandle count).Ensures t
      (fun _ => During text s doc (doc.references.take count)) (Stuck text s doc) :=
  (c.harvest (c.breaks text s doc []) h).andThen fun _ _ hu => c.references hload _ hu

theorem link (c : L.Contract Effect During Stuck)
    (hload : ∀ text origin s, Effect text s (load text origin s))
    (h : During text s doc [] t) :
    (L.link load doc s.nextHandle).Ensures t
      (fun _ => During text s doc doc.references) (Stuck text s doc) :=
  (c.harvest (c.breaks text s doc []) h).andThen fun _ _ hu =>
    (c.references hload doc.references hu).andThen fun _ _ hv =>
      c.modules (c.breaks text s doc doc.references) hv

theorem accept (c : L.Contract Effect During Stuck) {depth : Nat}
    (hload : ∀ text origin s, Effect text s (L.loadWithin depth text origin s)) {origin : String}
    (hparse : Document.parse text origin = .ok doc) (s : Session) :
    Effect text s (L.accept (L.loadWithin depth) doc s) := by
  have haccepted := L.accepted (L.loadWithin depth) doc s
  generalize L.accept (L.loadWithin depth) doc s = result at haccepted
  cases haccepted with
  | wrongMode mode => exact c.failed text s _
  | circular mode linking => exact c.circular text s doc
  | known h mode found linked => exact c.known text origin s doc h hparse mode found linked
  | opened t opens =>
    have hlink := c.link hload (c.opens text origin s doc t hparse opens)
    rcases hresult : L.link (L.loadWithin depth) doc s.nextHandle t with ⟨stop | _, u⟩
    · exact c.abandons text s doc u stop (hlink.of_error hresult)
    · obtain ⟨p, v, hstages⟩ := Stages.of_link opens hresult
      exact c.completes text s doc u depth t p v (hlink.of_ok hresult) hstages

section Together

variable {Effect' : String → Session → Outcome Handle × Session → Prop}
  {During' : String → Session → Document → List Reference → Session → Prop}
  {Stuck' : String → Session → Document → Session → Prop}

/-- A contract is extended by properties that the steps preserve together with it. -/
theorem extend (c : L.Contract Effect During Stuck)
    (c' : L.Rules (fun text s r => Effect text s r ∧ Effect' text s r)
      (fun text s doc done t => During text s doc done t ∧ During' text s doc done t)
      (fun text s doc t => Stuck text s doc t ∧ Stuck' text s doc t) Effect' During' Stuck') :
    L.Contract (fun text s r => Effect text s r ∧ Effect' text s r)
      (fun text s doc done t => During text s doc done t ∧ During' text s doc done t)
      (fun text s doc t => Stuck text s doc t ∧ Stuck' text s doc t) :=
  (c.imp And.left And.left And.left).and c'

/-- Two contracts hold together. -/
theorem both (c : L.Contract Effect During Stuck) (c' : L.Contract Effect' During' Stuck') :
    L.Contract (fun text s r => Effect text s r ∧ Effect' text s r)
      (fun text s doc done t => During text s doc done t ∧ During' text s doc done t)
      (fun text s doc t => Stuck text s doc t ∧ Stuck' text s doc t) :=
  c.extend (c'.imp And.right And.right And.right)

end Together

/-- Whatever the steps preserve holds of every load, however deep it may nest. -/
theorem holds (c : L.Contract Effect During Stuck) (depth : Nat) :
    ∀ text origin s, Effect text s (L.loadWithin depth text origin s) := by
  induction depth with
  | zero => exact fun text _ s => c.tooDeep text s
  | succ depth ih =>
    intro text origin s
    unfold loadWithin
    cases hparse : Document.parse text origin with
    | error e => exact c.failed text s e
    | ok doc => exact c.accept ih hparse s

theorem of_load (c : L.Contract Effect During Stuck) {depth : Nat} {origin : String}
    {r : Outcome Handle × Session} (hload : L.loadWithin depth text origin s = r) :
    Effect text s r :=
  hload ▸ c.holds depth text origin s

/-- Where a document has been opened and its first references have been linked, the property of
    sessions holds. -/
theorem of_linkFirst (c : L.Contract Effect During Stuck) {depth count : Nat} {origin : String}
    {o u : Session} (hparse : Document.parse text origin = .ok doc) (hopens : L.Opens doc s o)
    (hlinked : L.linkFirst (L.loadWithin depth) doc s.nextHandle count o = (.ok (), u)) :
    During text s doc (doc.references.take count) u :=
  (c.linkFirst (c.holds depth) count (c.opens text origin s doc o hparse hopens)).of_ok hlinked

/-- Where the linking of a document that has been opened stops, that of stuck sessions does. -/
theorem of_link_error (c : L.Contract Effect During Stuck) {depth : Nat} {origin : String}
    {o t : Session} {stop : Stop} (hparse : Document.parse text origin = .ok doc)
    (hopens : L.Opens doc s o)
    (hlink : L.link (L.loadWithin depth) doc s.nextHandle o = (.error stop, t)) :
    Stuck text s doc t :=
  (c.link (c.holds depth) (c.opens text origin s doc o hparse hopens)).of_error hlink

end Contract

end Linker

end AssemblyLinker
