import AssemblyLinker.Proofs.Loading.Dependencies

/-! # Occurrences of references

    The references of an assembly are linked in order, each in its place
    (`Session.LinkedAt`).  A text is found for some of them, and the history tells for which
    (`Session.FoundAt`): it lists as many references of an assembly as the assembly has
    (`Session.Logged`), so what is recorded later is about later references.
-/

namespace AssemblyLinker

/-- Is an event a reference that is added to an assembly? -/
def Event.refersFrom (h : Handle) : Event → Bool
  | .referenceAdded g _ => g = h
  | _ => false

/-- Is an event a text that is found? -/
def Event.findsText : Event → Bool
  | .textLocated .. => true
  | _ => false

namespace Session

/-- A reference of an assembly, by its place and name, and the assembly that it is linked to. -/
def LinkedAt (s : Session) (h : Handle) (i : Nat) (name : String) (d : Handle) : Prop :=
  ∃ a, s.store.get? h = some a ∧ a.references[i]? = some name ∧ a.dependencies[i]? = some d

/-- A text has been found for a reference of an assembly, by its place: it is found next after the
    reference is added, and as many references have been added before. -/
def FoundAt (s : Session) (h : Handle) (i : Nat) (text : String) : Prop :=
  ∃ later name source earlier,
    s.history = later ++ .textLocated h name source text :: .referenceAdded h name :: earlier ∧
    earlier.countP (Event.refersFrom h) = i

/-- The number of references of the assembly of a handle. -/
def referenceCount (s : Session) (h : Handle) : Nat :=
  ((s.store.get? h).map fun a => a.references.length).getD 0

/-- The history lists the references of all assemblies. -/
def Logged (s : Session) : Prop :=
  ∀ h, s.history.countP (Event.refersFrom h) = s.referenceCount h

variable {s t u : Session} {e : Event} {h g d : Handle} {i : Nat} {name text : String}

/-! ## Places -/

theorem LinkedAt.linksTo (hlink : s.LinkedAt h i name d) : s.LinksTo h d := by
  obtain ⟨a, ha, -, hd⟩ := hlink
  exact ⟨a, ha, List.mem_of_getElem? hd⟩

/-- A change that adds nothing that is linked. -/
theorem Changed.linkedAt {f : Assembly → Assembly} (ht : s.Changed g f t)
    (hf : ∀ a, s.store.get? g = some a → ∀ (i : Nat) name d, (f a).references[i]? = some name →
      (f a).dependencies[i]? = some d → a.references[i]? = some name ∧ a.dependencies[i]? = some d)
    (hlink : t.LinkedAt h i name d) : s.LinkedAt h i name d := by
  obtain ⟨a, ha, hname, hd⟩ := hlink
  by_cases hh : h = g
  · subst hh
    rw [ht.store, Store.get?_update_self] at ha
    obtain ⟨b, hb, rfl⟩ := Option.map_eq_some_iff.1 ha
    obtain ⟨hname, hd⟩ := hf b hb i name d hname hd
    exact ⟨b, hb, hname, hd⟩
  · rw [ht.get?_ne hh] at ha
    exact ⟨a, ha, hname, hd⟩

/-- A reference that is added is not linked yet, if those before it are. -/
theorem LinkedAt.of_referenceAdded {a : Assembly} (ha : s.store.get? g = some a)
    (hbalanced : a.dependencies.length = a.references.length) {added : String}
    (hlink : (s.record (.referenceAdded g added)).LinkedAt h i name d) : s.LinkedAt h i name d := by
  refine (s.referenceAdded_changed g added).linkedAt (fun b hb i name d hname hd => ?_) hlink
  rw [ha] at hb
  obtain rfl := Option.some.inj hb
  have hi : i < a.references.length := hbalanced ▸ (List.getElem?_eq_some_iff.1 hd).1
  have hold : (a.references ++ [added])[i]? = some name := hname
  rw [List.getElem?_append_left hi] at hold
  exact ⟨hold, hd⟩

/-- The dependency that is added is that of the reference added last, if those before it have
    theirs. -/
theorem LinkedAt.of_dependencyAdded {a : Assembly} (ha : s.store.get? g = some a)
    {added : String} {dependency : Handle}
    (hlast : a.references[a.dependencies.length]? = some added)
    (hlink : (s.record (.dependencyAdded g dependency)).LinkedAt h i name d) :
    s.LinkedAt h i name d ∨
      h = g ∧ i = a.dependencies.length ∧ name = added ∧ d = dependency := by
  obtain ⟨b, hb, hname, hd⟩ := hlink
  by_cases hh : h = g
  · subst hh
    rw [(s.dependencyAdded_changed h dependency).get? ha] at hb
    obtain rfl := Option.some.inj hb
    have hd : (a.dependencies ++ [dependency])[i]? = some d := hd
    -- the new dependency stands behind the others, so that only the last place is new
    by_cases hi : i < a.dependencies.length
    · rw [List.getElem?_append_left hi] at hd
      exact .inl ⟨a, ha, hname, hd⟩
    · right
      rw [List.getElem?_append_right (Nat.le_of_not_lt hi)] at hd
      have hlt := (List.getElem?_eq_some_iff.1 hd).1
      rw [List.length_singleton] at hlt
      have hi : i = a.dependencies.length := by omega
      subst hi
      have hname : a.references[a.dependencies.length]? = some name := hname
      rw [hlast] at hname
      rw [Nat.sub_self] at hd
      exact ⟨rfl, rfl, (Option.some.inj hname).symm, (Option.some.inj hd).symm⟩
  · rw [(s.dependencyAdded_changed g dependency).get?_ne hh] at hb
    exact .inl ⟨b, hb, hname, hd⟩

/-! ## The history of references -/

/-- A text that has been found stays found. -/
theorem FoundAt.of_append (hfound : s.FoundAt h i text) (newer : List Event)
    (ht : t.history = newer ++ s.history) : t.FoundAt h i text := by
  obtain ⟨later, name, source, earlier, hhistory, hcount⟩ := hfound
  exact ⟨newer ++ later, name, source, earlier, by rw [ht, hhistory, List.append_assoc], hcount⟩

/-- An event that finds no text. -/
theorem foundAt_record (he : e.findsText = false) :
    (s.record e).FoundAt h i text ↔ s.FoundAt h i text := by
  constructor
  · rintro ⟨later, name, source, earlier, hhistory, hcount⟩
    cases later with
    | nil =>
      obtain ⟨rfl, -⟩ := List.cons.inj hhistory
      cases he
    | cons _ later => exact ⟨later, name, source, earlier, (List.cons.inj hhistory).2, hcount⟩
  · intro hfound
    exact hfound.of_append [e] rfl

/-- A text that is found for a reference is found before another one is added. -/
theorem FoundAt.count_lt (hfound : s.FoundAt h i text) :
    i < s.history.countP (Event.refersFrom h) := by
  obtain ⟨later, name, source, earlier, hhistory, rfl⟩ := hfound
  rw [hhistory, List.countP_append, List.countP_cons, List.countP_cons]
  simp [Event.refersFrom]
  omega

/-- Which texts are found when a reference is added and its text is found. -/
theorem FoundAt.of_refer {added found : String} {source : TextSource}
    (hfound : (s.refer g added source found).FoundAt h i text) :
    s.FoundAt h i text ∨
      h = g ∧ i = s.history.countP (Event.refersFrom g) ∧ text = found := by
  obtain ⟨later, name, source', earlier, hhistory, hcount⟩ := hfound
  have hhistory : .textLocated g added source found :: .referenceAdded g added :: s.history =
      later ++ .textLocated h name source' text :: .referenceAdded h name :: earlier := hhistory
  match later, hhistory with
  | [], hhistory =>
    right
    obtain ⟨hfirst, hrest⟩ := List.cons.inj hhistory
    obtain ⟨-, hearlier⟩ := List.cons.inj hrest
    cases hfirst
    subst hearlier
    exact ⟨rfl, hcount.symm, rfl⟩
  | [_], hhistory => cases (List.cons.inj (List.cons.inj hhistory).2).1
  | _ :: _ :: later, hhistory =>
    left
    exact ⟨later, name, source', earlier, (List.cons.inj (List.cons.inj hhistory).2).2, hcount⟩

/-- What is recorded after a text has been found is about later references. -/
theorem FoundAt.of_later {added found : String} {source : TextSource} {newer : List Event}
    (hfound : t.FoundAt h i text) (ht : t.history = newer ++ (s.refer g added source found).history)
    (hi : i < (s.refer g added source found).history.countP (Event.refersFrom h)) :
    (s.refer g added source found).FoundAt h i text := by
  obtain ⟨later, name, source', earlier, hhistory, hcount⟩ := hfound
  rw [ht] at hhistory
  rcases List.append_eq_append_iff.1 hhistory with ⟨between, rfl, hsplit⟩ | ⟨between, rfl, hsplit⟩
  · exact ⟨between, name, source', earlier, hsplit, hcount⟩
  · match between, hsplit with
    | [], hsplit => exact ⟨[], name, source', earlier, hsplit.symm, hcount⟩
    | [_], hsplit => cases (List.cons.inj (List.cons.inj hsplit).2).1
    | _ :: _ :: between, hsplit =>
      -- all references that the history lists would have been added before
      have hearlier : earlier = between ++ (s.refer g added source found).history :=
        (List.cons.inj (List.cons.inj hsplit).2).2
      rw [← hcount, hearlier, List.countP_append] at hi
      omega

theorem referenceCount_of_get? {a : Assembly} (ha : s.store.get? h = some a) :
    s.referenceCount h = a.references.length := by
  simp [referenceCount, ha]

/-- For a reference that is to come no text has been found. -/
theorem Logged.not_foundAt (hs : s.Logged) {a : Assembly} (ha : s.store.get? h = some a) :
    ¬ s.FoundAt h a.references.length text := by
  intro hfound
  have hlt := hfound.count_lt
  rw [hs h, referenceCount_of_get? ha] at hlt
  exact Nat.lt_irrefl _ hlt

theorem Changed.referenceCount_eq {f : Assembly → Assembly} (ht : s.Changed g f t)
    (hf : ∀ a, (f a).references = a.references) (h : Handle) :
    t.referenceCount h = s.referenceCount h := by
  unfold referenceCount
  by_cases hh : h = g
  · subst hh
    rw [ht.store, Store.get?_update_self]
    cases s.store.get? h with
    | none => rfl
    | some a => simp [hf a]
  · rw [ht.get?_ne hh]

/-- An event that adds no reference to any assembly. -/
theorem Logged.of_count_eq (hs : s.Logged) (he : ∀ h, Event.refersFrom h e = false)
    (hcount : ∀ h, (s.record e).referenceCount h = s.referenceCount h) : (s.record e).Logged := by
  intro h
  have hhistory : (s.record e).history = e :: s.history := rfl
  rw [hhistory, List.countP_cons, he h, hcount h]
  exact hs h

/-- Every event keeps it so. -/
theorem Logged.record (hs : s.Logged) (he : s.Permits e) : (s.record e).Logged := by
  cases e with
  | created a =>
    refine hs.of_count_eq (fun _ => rfl) fun h => ?_
    have hstore : (s.record (.created a)).store = s.store ++ [a] := rfl
    unfold referenceCount Store.get?
    rw [hstore]
    by_cases hold : h < s.store.length
    · rw [List.getElem?_append_left hold]
    · -- the new assembly has no references
      rw [List.getElem?_append_right (Nat.le_of_not_lt hold),
        List.getElem?_eq_none (Nat.le_of_not_lt hold)]
      cases hnew : [a][h - s.store.length]? with
      | none => rfl
      | some b =>
        obtain rfl := List.mem_singleton.1 (List.mem_of_getElem? hnew)
        simp [he.2.1]
  | referenceAdded g name =>
    intro h
    have hhistory : (s.record (.referenceAdded g name)).history =
        .referenceAdded g name :: s.history := rfl
    rw [hhistory, List.countP_cons, hs h]
    -- the event counts for its own assembly, which has one reference more
    by_cases hh : h = g
    · subst hh
      obtain ⟨a, ha, -⟩ := (Option.any_eq_true _ _).1 he
      rw [referenceCount_of_get? ha,
        referenceCount_of_get? ((s.referenceAdded_changed h name).get? ha)]
      simp [Event.refersFrom, Assembly.addReference]
    · unfold referenceCount
      rw [(s.referenceAdded_changed g name).get?_ne hh]
      simp [Event.refersFrom, Ne.symm hh]
  | dependencyAdded g d =>
    exact hs.of_count_eq (fun _ => rfl)
      ((s.dependencyAdded_changed g d).referenceCount_eq fun _ => rfl)
  | declareCalled g modules =>
    exact hs.of_count_eq (fun _ => rfl)
      ((s.declareCalled_changed g modules).referenceCount_eq fun _ => rfl)
  | defineCalled g modules =>
    exact hs.of_count_eq (fun _ => rfl)
      ((s.defineCalled_changed g modules).referenceCount_eq fun _ => rfl)
  | completed g =>
    exact hs.of_count_eq (fun _ => rfl) ((s.completed_changed g).referenceCount_eq fun _ => rfl)
  | abandoned g =>
    refine hs.of_count_eq (fun _ => rfl) fun h => ?_
    unfold referenceCount
    rw [abandoned_store]
  | uidDrawn => exact hs.of_count_eq (fun _ => rfl) fun _ => rfl
  | payloadBundled name text => exact hs.of_count_eq (fun _ => rfl) fun _ => rfl
  | bundleCleared => exact hs.of_count_eq (fun _ => rfl) fun _ => rfl
  | textLocated g name source text => exact hs.of_count_eq (fun _ => rfl) fun _ => rfl

theorem LeadsTo.logged (ht : s.LeadsTo t) (hs : s.Logged) : t.Logged := by
  have hlasting : Lasting fun s t => s.Logged → t.Logged :=
    lasting_of_invariant (fun _ _ hs => hs) fun he hs => hs.record he
  exact hlasting.leadsTo ht hs

end Session

end AssemblyLinker
