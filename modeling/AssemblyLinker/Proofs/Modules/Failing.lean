import AssemblyLinker.Proofs.Modules.Building

/-! # What a failing pass leaves behind

    Declaring looks at all of a document before it adds the module, so it changes nothing if it
    fails.  Defining resolves every name first, but it finds the types only as it gives them
    their bodies.  A document may list other types than were declared: those ahead of the first
    one that is missing have their bodies then, and the call fails all the same.

    After any number of rounds of that loop each type has the body that was last assigned to its
    full name (`ModuleDocument.defineTypes_eq_assign`).  So a failing call can be seen afterwards
    exactly if one of these bodies is another one than before
    (`Session.failing_call_harmless_iff`).
-/

namespace AssemblyLinker

/-! ## Bodies assigned to names -/

namespace ModuleInfo

/-- Types with the bodies that are assigned to their full names.  Of several types with one
    name the first gets the body. -/
def assign (bodyFor : String → Option TypeBody) : List TypeInfo → List TypeInfo
  | [] => []
  | t :: rest =>
    (bodyFor t.fullName).elim t t.define :: assign (Function.update bodyFor t.fullName none) rest

/-- A module with bodies assigned to the full names of its types. -/
def withBodies (m : ModuleInfo) (bodyFor : String → Option TypeBody) : ModuleInfo :=
  { m with types := assign bodyFor m.types }

variable {bodyFor : String → Option TypeBody} {name : String} {body : TypeBody}

theorem assign_none : ∀ types : List TypeInfo, assign (fun _ => none) types = types
  | [] => rfl
  | t :: rest => by
    have hself : Function.update (fun _ => none) t.fullName none =
        (fun _ => none : String → Option TypeBody) := Function.update_eq_self _ _
    rw [assign, hself, assign_none rest]
    rfl

@[simp] theorem withBodies_none (m : ModuleInfo) : m.withBodies (fun _ => none) = m := by
  rw [withBodies, assign_none]

/-- The first type of a name takes the body that is assigned last. -/
theorem modifyFirst?_assign (types : List TypeInfo) : ∀ bodyFor : String → Option TypeBody,
    modifyFirst? (·.isNamed name) (·.define body) (assign bodyFor types) =
      if name ∈ types.map (·.fullName) then
        some (assign (Function.update bodyFor name (some body)) types)
      else none := by
  induction types with
  | nil => simp [assign, modifyFirst?]
  | cons t rest ih =>
    intro bodyFor
    have hfull : ((bodyFor t.fullName).elim t t.define).fullName = t.fullName := by
      cases bodyFor t.fullName <;> rfl
    rw [assign, modifyFirst?]
    -- once a type has taken a name, the ones behind it do not see what is assigned to the name
    by_cases hname : t.fullName = name
    · subst hname
      have hdefine : ((bodyFor t.fullName).elim t t.define).define body = t.define body := by
        cases bodyFor t.fullName <;> rfl
      rw [if_pos (TypeInfo.isNamed_iff.2 hfull), if_pos (by simp), assign, hdefine,
        Function.update_self, Function.update_idem]
      rfl
    · have hother : ¬ ((bodyFor t.fullName).elim t t.define).isNamed name = true := by
        rwa [TypeInfo.isNamed_iff, hfull]
      have hmem : name ∈ (t :: rest).map (·.fullName) ↔ name ∈ rest.map (·.fullName) := by
        simp [Ne.symm hname]
      rw [if_neg hother, ih, Function.update_comm hname, ← Function.update_of_ne hname (some body)
        bodyFor]
      simp only [hmem]
      split
      · rfl
      · rfl

theorem find?_isNamed_cons (t : TypeInfo) (rest : List TypeInfo) (name : String) :
    (t :: rest).find? (·.isNamed name) =
      if t.fullName = name then some t else rest.find? (·.isNamed name) := by
  rw [List.find?_cons]
  by_cases hname : t.fullName = name
  · rw [if_pos hname, TypeInfo.isNamed_iff.2 hname]
  · rw [if_neg hname, Bool.eq_false_iff.2 (mt TypeInfo.isNamed_iff.1 hname)]

/-- Assigning bodies changes nothing exactly if each of them is the body already. -/
theorem assign_eq_self_iff (types : List TypeInfo) : ∀ bodyFor : String → Option TypeBody,
    assign bodyFor types = types ↔ ∀ name body t, bodyFor name = some body →
      types.find? (·.isNamed name) = some t → t.body = some body := by
  induction types with
  | nil => simp [assign]
  | cons t rest ih =>
    intro bodyFor
    have hhead : (bodyFor t.fullName).elim t t.define = t ↔
        ∀ body, bodyFor t.fullName = some body → t.body = some body := by
      obtain ⟨package, name, own⟩ := t
      cases bodyFor (TypeInfo.fullName ⟨package, name, own⟩) with
      | none => simp
      | some body => simp [TypeInfo.define, eq_comm]
    rw [assign, List.cons_eq_cons, hhead, ih]
    simp only [find?_isNamed_cons]
    constructor
    -- the body under its name goes to the first type, and to none of those behind it
    · rintro ⟨hfirst, hrest⟩ name body u hbody hfind
      split at hfind
      next hname =>
        subst hname
        cases hfind
        exact hfirst body hbody
      next hname =>
        exact hrest name body u (by rwa [Function.update_of_ne (Ne.symm hname)]) hfind
    · intro hall
      refine ⟨fun body hbody => hall _ body t hbody (if_pos rfl), ?_⟩
      intro name body u hbody hfind
      by_cases hname : t.fullName = name
      · subst hname
        rw [Function.update_self] at hbody
        cases hbody
      · rw [Function.update_of_ne (Ne.symm hname)] at hbody
        exact hall name body u hbody (by rwa [if_neg hname])

theorem withBodies_eq_self_iff {m : ModuleInfo} : m.withBodies bodyFor = m ↔
    ∀ name body t, bodyFor name = some body → m.findType? name = some t → t.body = some body := by
  unfold findType?
  rw [← assign_eq_self_iff]
  constructor
  · exact fun h => congrArg ModuleInfo.types h
  · intro h
    rw [withBodies, h]

theorem defineType?_withBodies (m : ModuleInfo) :
    (m.withBodies bodyFor).defineType? name body =
      if (m.findType? name).isSome then
        some (m.withBodies (Function.update bodyFor name (some body)))
      else none := by
  unfold defineType? withBodies
  simp only [modifyFirst?_assign, findType?_isSome_iff]
  split
  · rfl
  · rfl

end ModuleInfo

/-! ## The loop over the types -/

namespace ModuleDocument

variable {store : Store} {a : Assembly} {j : Json} {d : ModuleDocument} {m m' : ModuleInfo}

/-- The types of a document ahead of the first one that a module does not have. -/
def ahead (m : ModuleInfo) (ts : List TypeDocument) : List TypeDocument :=
  ts.takeWhile fun t => (m.findType? t.fullName).isSome

/-- The first type of a document that a module does not have. -/
def firstMissing? (m : ModuleInfo) (ts : List TypeDocument) : Option TypeDocument :=
  ts.find? fun t => (m.findType? t.fullName).isNone

/-- The body that is listed last for a full name. -/
def lastBody? (ts : List TypeDocument) (name : String) : Option TypeBody :=
  (ts.reverse.find? (·.fullName = name)).map (·.body)

theorem lastBody?_cons (t : TypeDocument) (ts : List TypeDocument) (name : String) :
    lastBody? (t :: ts) name =
      (lastBody? ts name).or (if t.fullName = name then some t.body else none) := by
  unfold lastBody?
  rw [List.reverse_cons, List.find?_append, List.find?_singleton, Option.map_or]
  by_cases hname : t.fullName = name
  · simp [hname]
  · simp [hname]

/-- One round after another assigns the body of a type to its name, until a type is missing. -/
theorem defineTypes_eq_assign (m : ModuleInfo) (ts : List TypeDocument) :
    ∀ bodyFor : String → Option TypeBody, defineTypes (m.withBodies bodyFor) ts =
      (m.withBodies fun name => (lastBody? (ahead m ts) name).or (bodyFor name),
        (firstMissing? m ts).elim (.ok ()) fun t => .error (.typeNotDeclared t.fullName)) := by
  induction ts with
  | nil => exact fun _ => rfl
  | cons t ts ih =>
    intro bodyFor
    have hstep : defineTypes (m.withBodies bodyFor) (t :: ts) =
        if (m.findType? t.fullName).isSome then
          defineTypes (m.withBodies (Function.update bodyFor t.fullName (some t.body))) ts
        else (m.withBodies bodyFor, .error (.typeNotDeclared t.fullName)) := by
      rw [defineTypes, ModuleInfo.defineType?_withBodies]
      cases (m.findType? t.fullName).isSome <;> rfl
    rw [hstep]
    unfold ahead firstMissing?
    rw [List.takeWhile_cons, List.find?_cons]
    cases hfind : m.findType? t.fullName with
    | none => rfl
    | some u =>
      simp only [Option.isSome_some, if_true, Option.isNone_some]
      rw [ih]
      -- the type comes ahead of the rest, and after what was assigned until then
      have hassigned : (fun name => (lastBody? (ahead m ts) name).or
            (Function.update bodyFor t.fullName (some t.body) name)) =
          fun name => (lastBody? (t :: ahead m ts) name).or (bodyFor name) := by
        funext name
        rw [lastBody?_cons, Option.or_assoc]
        by_cases hname : t.fullName = name
        · simp [← hname]
        · simp [hname, Function.update_of_ne (Ne.symm hname)]
      rw [hassigned]
      rfl

/-- Defining, once the document has been read and all names in it resolve. -/
theorem define_eq_of_resolved (hread : read j = .ok d) (hfind : a.findModule? d.name = some m)
    (hresolved : firstUnresolved? store a d.types = none) :
    define store j a = (replaceModule a (m.withBodies (lastBody? (ahead m d.types))),
      (firstMissing? m d.types).elim (.ok ())
        fun t => .error ⟨d.name, .typeNotDeclared t.fullName⟩) := by
  have hloop := defineTypes_eq_assign m d.types fun _ => none
  simp only [ModuleInfo.withBodies_none, Option.or_none] at hloop
  unfold define
  simp only [hread, hfind, hresolved, hloop]
  cases firstMissing? m d.types <;> rfl

/-- Putting a module in the place of another one changes nothing exactly if they are the
    same. -/
theorem replaceModule_eq_self_iff (hfind : a.findModule? m.name = some m)
    (hname : m'.name = m.name) : replaceModule a m' = a ↔ m' = m := by
  obtain ⟨hself, before, after, hmodules, hbefore⟩ := List.find?_eq_some_iff_append.1 hfind
  have hother : ∀ n ∈ before, decide (n.name = m'.name) = false := by
    intro n hn
    have hne := hbefore n hn
    simpa [hname] using hne
  unfold replaceModule
  rw [hmodules, modifyFirst?_append after hother (decide_eq_true hname.symm)]
  constructor
  · intro h
    have hmods := congrArg Assembly.modules h
    rw [hmodules] at hmods
    simpa using hmods
  · rintro rfl
    rw [← hmodules]
    rfl

/-- A document gives a type of a module a body that it has not had, and lists a type that the
    module does not have behind it. -/
structure HalfDefines (store : Store) (a : Assembly) (d : ModuleDocument) (m : ModuleInfo) :
    Prop where
  found : a.findModule? d.name = some m
  resolved : ∀ t ∈ d.types, ∀ name ∈ t.typeNames, resolves store a name = true
  missing : ∃ t ∈ d.types, m.findType? t.fullName = none
  changed : ∃ name body t, lastBody? (ahead m d.types) name = some body ∧
    m.findType? name = some t ∧ t.body ≠ some body

/-- Nothing is written before the module has been found and every name resolves. -/
theorem exists_of_define_ne (hne : (define store j a).1 ≠ a) :
    ∃ d m, read j = .ok d ∧ a.findModule? d.name = some m ∧
      firstUnresolved? store a d.types = none := by
  unfold define at hne
  split at hne
  · exact absurd rfl hne
  next d hread =>
    split at hne
    · exact absurd rfl hne
    next m hfind =>
      split at hne
      · exact absurd rfl hne
      next hresolved => exact ⟨d, m, hread, hfind, hresolved⟩

/-- Defining changes nothing but modules. -/
theorem define_modules (store : Store) (j : Json) (a : Assembly) :
    (define store j a).1 = { a with modules := (define store j a).1.modules } := by
  unfold define
  split
  · rfl
  · split
    · rfl
    · split
      · rfl
      · rfl

theorem firstMissing?_isSome_iff {ts : List TypeDocument} :
    (firstMissing? m ts).isSome = true ↔ ∃ t ∈ ts, m.findType? t.fullName = none := by
  simp [firstMissing?, List.find?_isSome]

/-- Defining fails and changes the assembly exactly if a document half-defines its module. -/
theorem define_fails_changed_iff (store : Store) (j : Json) (a : Assembly) :
    ((define store j a).2.isOk = false ∧ (define store j a).1 ≠ a) ↔
      ∃ d m, read j = .ok d ∧ HalfDefines store a d m := by
  -- what both sides come to where the loop is reached
  have hreached : ∀ d m, read j = .ok d → a.findModule? d.name = some m →
      firstUnresolved? store a d.types = none →
      (((define store j a).2.isOk = false ↔ ∃ t ∈ d.types, m.findType? t.fullName = none) ∧
        ((define store j a).1 ≠ a ↔ ∃ name body t,
          lastBody? (ahead m d.types) name = some body ∧ m.findType? name = some t ∧
            t.body ≠ some body)) := by
    intro d m hread hfind hresolved
    have hown : a.findModule? m.name = some m := by
      have hname : m.name = d.name := by simpa using List.find?_some hfind
      rwa [hname]
    rw [define_eq_of_resolved hread hfind hresolved, ← firstMissing?_isSome_iff]
    refine ⟨?_, ?_⟩
    · cases firstMissing? m d.types <;> simp [Except.isOk, Except.toBool]
    · have hname : (m.withBodies (lastBody? (ahead m d.types))).name = m.name := rfl
      have hsame := (replaceModule_eq_self_iff hown hname).trans ModuleInfo.withBodies_eq_self_iff
      refine (not_congr hsame).trans ?_
      push Not
      rfl
  constructor
  · rintro ⟨hfails, hne⟩
    obtain ⟨d, m, hread, hfind, hresolved⟩ := exists_of_define_ne hne
    obtain ⟨hmissing, hchanged⟩ := hreached d m hread hfind hresolved
    exact ⟨d, m, hread, hfind, firstUnresolved?_eq_none_iff.1 hresolved, hmissing.1 hfails,
      hchanged.1 hne⟩
  · rintro ⟨d, m, hread, hhalf⟩
    have hresolved := firstUnresolved?_eq_none_iff.2 hhalf.resolved
    obtain ⟨hmissing, hchanged⟩ := hreached d m hread hhalf.found hresolved
    exact ⟨hmissing.2 hhalf.missing, hchanged.2 hhalf.changed⟩

/-- What a half-defined module is: the types ahead of the first one that is missing have their
    bodies. -/
theorem HalfDefines.define_eq (hhalf : HalfDefines store a d m) (hread : read j = .ok d) :
    ∃ t ∈ d.types, m.findType? t.fullName = none ∧
      define store j a = (replaceModule a (m.withBodies (lastBody? (ahead m d.types))),
        .error ⟨d.name, .typeNotDeclared t.fullName⟩) := by
  have hdefine := define_eq_of_resolved hread hhalf.found
    (firstUnresolved?_eq_none_iff.2 hhalf.resolved)
  obtain ⟨t, hfirst⟩ := Option.isSome_iff_exists.1 (firstMissing?_isSome_iff.2 hhalf.missing)
  refine ⟨t, List.mem_of_find?_eq_some hfirst, ?_, by rw [hdefine, hfirst]; rfl⟩
  simpa using List.find?_some hfirst

end ModuleDocument

/-! ## Calls of a session -/

namespace Session

open ModuleDocument

/-- Has a call failed only if it has changed nothing but the history? -/
def Harmless (s : Session) (call : Except LinkError Unit × Session) : Prop :=
  ∀ e, call.1 = .error e → { call.2 with history := s.history } = s

variable {s : Session} {h : Handle} {a : Assembly} {j : Json}

/-- A change of modules is none exactly if they are the modules that were there. -/
theorem update_eq_self_iff (ha : s.store.get? h = some a) {modules : List ModuleInfo} :
    s.update h ({ · with modules }) = s ↔ modules = a.modules := by
  constructor
  · intro hsame
    have hget := Store.get?_update_self s.store h ({ · with modules })
    rw [show s.store.update h ({ · with modules }) = s.store from congrArg store hsame, ha] at hget
    exact (congrArg Assembly.modules (Option.some.inj hget)).symm
  · rintro rfl
    have hstore := (rebuilt_refl ha).store
    unfold update
    rw [← hstore]

theorem declare_harmless (s : Session) (h : Handle) (j : Json) : s.Harmless (s.declare h j) := by
  intro e he
  cases ha : s.store.get? h with
  | none =>
    rw [declare, ha]
  | some a =>
    cases hdeclare : ModuleDocument.declare j a with
    | ok b => simp [declare, ha, hdeclare] at he
    | error r =>
      have hstep : s.declare h j =
          (.error (r.toError a.name), s.record (.declareCalled h a.modules)) := by
        simp only [declare, ha, hdeclare]
      rw [hstep]
      exact (update_eq_self_iff ha).2 rfl

theorem define_harmless_iff (ha : s.store.get? h = some a) : s.Harmless (s.define h j) ↔
    ∀ d m, ModuleDocument.read j = .ok d → ¬ HalfDefines s.store a d m := by
  have hchanged := define_fails_changed_iff s.store j a
  have hmodules := define_modules s.store j a
  have hstep := define_eq ha j
  generalize ModuleDocument.define s.store j a = called at hchanged hmodules hstep
  obtain ⟨defined, result⟩ := called
  simp only at hchanged hmodules hstep
  -- the modules are all that a call changes
  have hsame : defined.modules = a.modules ↔ defined = a := by
    constructor
    · intro heq
      rw [hmodules, heq]
    · exact fun heq => congrArg Assembly.modules heq
  have hfails : (∃ e, result.mapError (·.toError a.name) = .error e) ↔ result.isOk = false := by
    cases result <;> simp [Except.mapError, Except.isOk, Except.toBool]
  calc s.Harmless (s.define h j)
      ↔ (∃ e, result.mapError (·.toError a.name) = .error e) →
          s.update h ({ · with modules := defined.modules }) = s := by
        rw [Harmless, hstep, forall_exists_index]
        rfl
    _ ↔ ¬ ∃ d m, ModuleDocument.read j = .ok d ∧ HalfDefines s.store a d m := by
        rw [← hchanged, update_eq_self_iff ha, hsame, hfails, not_and, not_not]
    _ ↔ _ := by
        push Not
        rfl

/-- A failing call of a pass changes nothing, save where a document half-defines its module:
    then the call fails for a type that was not declared, and the types ahead of it keep their
    new bodies. -/
theorem failing_call_harmless_iff (s : Session) (h : Handle) (j : Json) :
    s.Harmless (s.declare h j) ∧
    (s.Harmless (s.define h j) ↔ ∀ a d m, s.store.get? h = some a →
      ModuleDocument.read j = .ok d → ¬ HalfDefines s.store a d m) ∧
    ∀ a d m, s.store.get? h = some a → ModuleDocument.read j = .ok d →
      HalfDefines s.store a d m → ∃ t ∈ d.types, m.findType? t.fullName = none ∧
        s.define h j = (.error (Refusal.toError ⟨d.name, .typeNotDeclared t.fullName⟩ a.name),
          s.record (.defineCalled h
            (replaceModule a (m.withBodies (lastBody? (ahead m d.types)))).modules)) := by
  refine ⟨declare_harmless s h j, ?_, ?_⟩
  · cases ha : s.store.get? h with
    | none =>
      refine iff_of_true ?_ (by simp)
      intro e he
      rw [define, ha]
    | some a =>
      rw [define_harmless_iff ha]
      constructor
      · rintro hall b d m hb
        obtain rfl : a = b := Option.some.inj hb
        exact hall d m
      · exact fun hall d m => hall a d m rfl
  · intro a d m ha hread hhalf
    obtain ⟨t, ht, hmissing, hdefine⟩ := hhalf.define_eq hread
    refine ⟨t, ht, hmissing, ?_⟩
    rw [define_eq ha, hdefine]
    rfl

/-! ### A type too many -/

/-- The document of a module that lists types without bodies. -/
def listing (names : List String) : Json :=
  ModuleDocument.toJson ⟨discriminator, "M", "", names.map ({ name := · })⟩

/-- A session with one assembly. -/
def oneAssembly : Session := { store := [{ name := "Game", uid := "u" }] }

/-- Type `A` has been declared, `B` has not.  Defining both fails at `B` and leaves `A` defined. -/
theorem define_leaves_body :
    let declared := oneAssembly.declare 0 (listing ["A"])
    let defined := declared.2.define 0 (listing ["A", "B"])
    declared.1 = .ok () ∧
      defined.1 = .error (.module "Game" "M" "type 'B' non déclaré") ∧
      ¬ declared.2.Harmless defined := by
  have hstart : (oneAssembly.declare 0 (listing ["A"])).1 = .ok () := rfl
  have hfails : ((oneAssembly.declare 0 (listing ["A"])).2.define 0 (listing ["A", "B"])).1 =
      .error (.module "Game" "M" "type 'B' non déclaré") := rfl
  refine ⟨hstart, hfails, ?_⟩
  intro hharmless
  have hstore := congrArg store (hharmless _ hfails)
  have hbefore : (oneAssembly.declare 0 (listing ["A"])).2.store =
      [{ name := "Game", uid := "u", modules := [⟨"M", "", [⟨"", "A", none⟩]⟩] }] := rfl
  have hafter : ((oneAssembly.declare 0 (listing ["A"])).2.define 0
        (listing ["A", "B"])).2.store =
      [{ name := "Game", uid := "u", modules := [⟨"M", "", [⟨"", "A", some {}⟩]⟩] }] := rfl
  rw [hbefore] at hstore
  cases hafter.symm.trans hstore

end Session

end AssemblyLinker
