import AssemblyLinker.Registry
import Mathlib.Data.List.Induction
import Mathlib.Data.List.Nodup
import Mathlib.Data.Set.Card

/-! # The registry as an ordered map

    What the registry answers is read off the operations it has gone through.

    * The entries split around the one that is found under a key (`exists_split_of_find?`).  From
      that follows what is left when it is replaced (`mem_register`) or taken out (`remove_eq`).
    * What a history of operations means is said of the history alone: the assembly last registered
      under a key and not unregistered since (`LastRegistered`), and the operation that last brought
      the key in (`LastInserted`).
    * Along a history the entries keep to both (`Tracks`): one operation preserves this
      (`Tracks.apply`), so a history does (`tracks_run`).

    The main statement, `follows_history`, collects what every history leaves.
-/

namespace AssemblyLinker

theorem Entry.isFor_iff {e : Entry} {name uid : String} :
    e.isFor name uid = true ↔ e.key = (name, uid) := by
  simp [isFor, key]

theorem Entry.isFor_eq_false {e : Entry} {name uid : String} :
    e.isFor name uid = false ↔ e.key ≠ (name, uid) := by
  rw [← Bool.not_eq_true, isFor_iff]

namespace Registry

/-! ## One operation on the entries -/

section Entries

variable {name uid : String} {h new : Handle} {before after entries : List Entry}

theorem put_split (hbefore : ∀ e ∈ before, e.isFor name uid = false) :
    put ⟨name, uid, new⟩ (before ++ ⟨name, uid, h⟩ :: after) =
      before ++ ⟨name, uid, new⟩ :: after := by
  induction before with
  | nil => rw [List.nil_append, List.nil_append, put, if_pos ⟨rfl, rfl⟩]
  | cons e before ih =>
    have hother : ¬ (e.name = name ∧ e.uid = uid) := by
      simpa [Entry.isFor] using hbefore e List.mem_cons_self
    rw [List.cons_append, put, if_neg hother, ih fun e he => hbefore e (List.mem_cons_of_mem _ he),
      List.cons_append]

theorem takeOut_split (hbefore : ∀ e ∈ before, e.isFor name uid = false) :
    takeOut name uid (before ++ ⟨name, uid, h⟩ :: after) = (some h, before ++ after) := by
  induction before with
  | nil => rw [List.nil_append, takeOut, if_pos (Entry.isFor_iff.2 rfl), List.nil_append]
  | cons e before ih =>
    rw [List.cons_append, takeOut, hbefore e List.mem_cons_self,
      ih fun e he => hbefore e (List.mem_cons_of_mem _ he)]
    rfl

theorem takeOut_of_absent (habsent : ∀ e ∈ entries, e.isFor name uid = false) :
    takeOut name uid entries = (none, entries) := by
  induction entries with
  | nil => rfl
  | cons e rest ih =>
    rw [takeOut, habsent e List.mem_cons_self, ih fun e he => habsent e (List.mem_cons_of_mem _ he)]
    rfl

end Entries

variable {r : Registry} {name uid : String} {h new : Handle}

/-- The entries split around the one that is found. -/
theorem exists_split_of_find? (hfind : r.find? name uid = some h) :
    ∃ before after, r.entries = before ++ ⟨name, uid, h⟩ :: after ∧
      ∀ e ∈ before, e.isFor name uid = false := by
  obtain ⟨e, he, rfl⟩ := Option.map_eq_some_iff.1 hfind
  obtain ⟨hkey, before, after, hentries, hbefore⟩ := List.find?_eq_some_iff_append.1 he
  obtain ⟨rfl, rfl⟩ := Prod.mk.inj (Entry.isFor_iff.1 hkey)
  exact ⟨before, after, hentries, by simpa using hbefore⟩

/-- Where keys are distinct, an assembly is found under a key exactly if it has been entered
    there. -/
theorem find?_eq_some_iff (hdistinct : (r.entries.map (·.key)).Nodup) :
    r.find? name uid = some h ↔ ⟨name, uid, h⟩ ∈ r.entries := by
  refine ⟨mem_of_find?, fun hmem => ?_⟩
  obtain ⟨h', hfind⟩ : ∃ h', r.find? name uid = some h' := by
    rw [← Option.ne_none_iff_exists']
    intro hnone
    exact Entry.isFor_eq_false.1 (find?_eq_none.1 hnone _ hmem) rfl
  have hsame := List.inj_on_of_nodup_map hdistinct (mem_of_find? hfind) hmem rfl
  rw [hfind, (Entry.mk.inj hsame).2.2]

/-- What is taken out is what was found, and all other entries stay as they were. -/
theorem remove_eq (hdistinct : (r.entries.map (·.key)).Nodup) (name uid : String) :
    r.remove name uid = (r.find? name uid, r.unregister name uid) := by
  cases hfind : r.find? name uid with
  | none =>
    have habsent := find?_eq_none.1 hfind
    rw [remove, takeOut_of_absent habsent, unregister, List.filter_eq_self.2]
    exact fun e he => by rw [habsent e he, Bool.not_false]
  | some h =>
    obtain ⟨before, after, hentries, hbefore⟩ := exists_split_of_find? hfind
    rw [remove, hentries, takeOut_split hbefore, ← unregister_of_distinct hentries hdistinct]

theorem entries_unregister (r : Registry) (name uid : String) :
    (r.unregister name uid).entries = r.entries.filter (·.key ≠ (name, uid)) := by
  refine List.filter_congr fun e _ => ?_
  rw [Bool.eq_iff_iff, Bool.not_eq_true', decide_eq_true_iff, Entry.isFor_eq_false]

/-- Where a key is there, its entry gets the new assembly, and nothing moves. -/
theorem exists_split_of_register (new : Handle) (hfind : r.find? name uid = some h) :
    ∃ before after, r.entries = before ++ ⟨name, uid, h⟩ :: after ∧
      (r.register name uid new).entries = before ++ ⟨name, uid, new⟩ :: after := by
  obtain ⟨before, after, hentries, hbefore⟩ := exists_split_of_find? hfind
  refine ⟨before, after, hentries, ?_⟩
  rw [register, hentries]
  exact put_split hbefore

/-- Where keys are distinct, registering replaces what is there under the key. -/
theorem mem_register (hdistinct : (r.entries.map (·.key)).Nodup) {e : Entry} :
    e ∈ (r.register name uid new).entries ↔
      e = ⟨name, uid, new⟩ ∨ e.key ≠ (name, uid) ∧ e ∈ r.entries := by
  cases hfind : r.find? name uid with
  | none =>
    have hother : e ∈ r.entries → e.key ≠ (name, uid) := fun he =>
      Entry.isFor_eq_false.1 (find?_eq_none.1 hfind e he)
    rw [register_of_find?_eq_none new hfind, List.mem_append, List.mem_singleton, or_comm,
      and_iff_right_of_imp hother]
  | some h =>
    obtain ⟨before, after, hentries, hregister⟩ := exists_split_of_register new hfind
    rw [hentries, List.map_append, List.map_cons, List.nodup_middle, List.nodup_cons,
      ← List.map_append, List.mem_map] at hdistinct
    have hother : e ∈ before ++ after → e.key ≠ (name, uid) := fun he heq =>
      hdistinct.1 ⟨e, he, heq⟩
    rw [hregister, hentries, List.perm_middle.mem_iff, List.perm_middle.mem_iff, List.mem_cons,
      List.mem_cons]
    refine or_congr_right ⟨fun he => ⟨hother he, .inr he⟩, fun ⟨hne, he⟩ => he.resolve_left ?_⟩
    rintro rfl
    exact hne rfl

/-! ## Histories -/

/-- An operation that changes the registry. -/
inductive Operation where
  | register (name uid : String) (handle : Handle)
  | unregister (name uid : String)

/-- The key that an operation is about. -/
def Operation.key : Operation → String × String
  | .register name uid _ => (name, uid)
  | .unregister name uid => (name, uid)

/-- Does an operation. -/
def apply (r : Registry) : Operation → Registry
  | .register name uid handle => r.register name uid handle
  | .unregister name uid => (r.remove name uid).2

/-- The registry after operations on an empty one, the earliest first. -/
def run (ops : List Operation) : Registry := ops.foldl apply {}

theorem run_concat (ops : List Operation) (op : Operation) :
    run (ops ++ [op]) = (run ops).apply op := by
  rw [run, List.foldl_append]
  rfl

/-- The assembly most recently registered under a key, the key not having been unregistered
    since. -/
def LastRegistered (ops : List Operation) (key : String × String) (h : Handle) : Prop :=
  ∃ before after, ops = before ++ .register key.1 key.2 h :: after ∧ ∀ op ∈ after, op.key ≠ key

/-- A key is live if something registered under it has not been unregistered. -/
def Live (ops : List Operation) (key : String × String) : Prop := ∃ h, LastRegistered ops key h

/-- The operation at place `i` registers a key that is absent then. -/
def InsertedAt (ops : List Operation) (key : String × String) (i : Nat) : Prop :=
  (∃ h, ops[i]? = some (.register key.1 key.2 h)) ∧ ¬ Live (ops.take i) key

/-- The operation at place `i` is the last to register a key that is absent then. -/
def LastInserted (ops : List Operation) (key : String × String) (i : Nat) : Prop :=
  InsertedAt ops key i ∧ ∀ j, InsertedAt ops key j → j ≤ i

/-- Of two keys the first was last inserted before the second. -/
def InsertedBefore (ops : List Operation) (key key' : String × String) : Prop :=
  ∃ i j, LastInserted ops key i ∧ LastInserted ops key' j ∧ i < j

section Histories

variable {ops : List Operation} {op : Operation} {key : String × String} {i j : Nat}

theorem lastRegistered_concat : LastRegistered (ops ++ [op]) key h ↔
    op = .register key.1 key.2 h ∨ op.key ≠ key ∧ LastRegistered ops key h := by
  constructor
  · rintro ⟨before, after, hops, hafter⟩
    rcases List.eq_nil_or_concat after with rfl | ⟨after, last, rfl⟩
    · exact .inl (List.singleton_inj.1 (List.append_inj' hops rfl).2)
    · rw [List.concat_eq_append, ← List.cons_append, ← List.append_assoc] at hops
      obtain ⟨hfront, hlast⟩ := List.append_inj' hops rfl
      cases hlast
      exact .inr ⟨hafter op (by simp), before, after, hfront, fun x hx => hafter x (by simp [hx])⟩
  · rintro (rfl | ⟨hkey, before, after, rfl, hafter⟩)
    · exact ⟨ops, [], rfl, fun _ h => absurd h List.not_mem_nil⟩
    · refine ⟨before, after ++ [op], by simp, fun x hx => ?_⟩
      rcases List.mem_append.1 hx with hx | hx
      · exact hafter x hx
      · rwa [List.mem_singleton.1 hx]

theorem InsertedAt.lt (hi : InsertedAt ops key i) : i < ops.length := by
  obtain ⟨h, hop⟩ := hi.1
  exact (List.getElem?_eq_some_iff.1 hop).1

theorem insertedAt_concat : InsertedAt (ops ++ [op]) key i ↔
    InsertedAt ops key i ∨ i = ops.length ∧ (∃ h, op = .register key.1 key.2 h) ∧ ¬ Live ops key := by
  -- the history before a place of the old operations is the same with and without the new one
  rcases Nat.lt_trichotomy i ops.length with hi | rfl | hi
  · rw [InsertedAt, List.getElem?_append_left hi, List.take_append_of_le_length (Nat.le_of_lt hi)]
    exact (or_iff_left fun hlast => absurd hlast.1 (Nat.ne_of_lt hi)).symm
  · rw [InsertedAt, List.getElem?_concat_length, List.take_left']
    · simp only [Option.some.injEq, true_and]
      exact (or_iff_right fun hin => absurd hin.lt (Nat.lt_irrefl _)).symm
    · rfl
  · constructor
    · intro hin
      have hlt := hin.lt
      rw [List.length_append, List.length_singleton] at hlt
      omega
    · rintro (hin | ⟨rfl, -⟩)
      · exact absurd hin.lt (Nat.not_lt_of_gt hi)
      · exact absurd hi (Nat.lt_irrefl _)

/-- An operation that brings in no absent key leaves all places. -/
theorem lastInserted_concat_of_not (hnot : ¬ ((∃ h, op = .register key.1 key.2 h) ∧ ¬ Live ops key)) :
    LastInserted (ops ++ [op]) key i ↔ LastInserted ops key i := by
  have hsame : ∀ j, InsertedAt (ops ++ [op]) key j ↔ InsertedAt ops key j := fun j =>
    insertedAt_concat.trans (or_iff_left fun hlast => hnot hlast.2)
  simp only [LastInserted, hsame]

theorem lastInserted_concat_self (habsent : ¬ Live ops key) :
    LastInserted (ops ++ [.register key.1 key.2 h]) key ops.length := by
  refine ⟨insertedAt_concat.2 (.inr ⟨rfl, ⟨h, rfl⟩, habsent⟩), fun j hj => ?_⟩
  rcases insertedAt_concat.1 hj with hj | ⟨rfl, -⟩
  · exact Nat.le_of_lt hj.lt
  · exact Nat.le_refl _

theorem LastInserted.unique (hi : LastInserted ops key i) (hj : LastInserted ops key j) : i = j :=
  Nat.le_antisymm (hj.2 i hi.1) (hi.2 j hj.1)

/-- One operation brings in one key. -/
theorem LastInserted.key_unique {key' : String × String} (hi : LastInserted ops key i)
    (hi' : LastInserted ops key' i) : key = key' := by
  obtain ⟨⟨⟨h, hop⟩, -⟩, -⟩ := hi
  obtain ⟨⟨⟨h', hop'⟩, -⟩, -⟩ := hi'
  rw [hop, Option.some_inj, Operation.register.injEq] at hop'
  exact Prod.ext hop'.1 hop'.2.1

/-! ### Keys in order -/

/-- Keys stand in the order in which they were last inserted. -/
structure InOrder (ops : List Operation) (keys : List (String × String)) : Prop where
  placed : ∀ key ∈ keys, ∃ i, LastInserted ops key i
  ordered : keys.Pairwise (InsertedBefore ops)

theorem InOrder.sublist {ops' : List Operation} {keys keys' : List (String × String)}
    (hin : InOrder ops keys) (hsublist : keys'.Sublist keys)
    (hkept : ∀ key i, LastInserted ops' key i ↔ LastInserted ops key i) : InOrder ops' keys' where
  placed key hkey := by
    obtain ⟨i, hi⟩ := hin.placed key (hsublist.subset hkey)
    exact ⟨i, (hkept key i).2 hi⟩
  ordered := (hin.ordered.sublist hsublist).imp fun {key key'} hbefore => by
    simpa only [InsertedBefore, hkept] using hbefore

/-- A key that is absent comes last when it is registered. -/
theorem InOrder.concat {keys : List (String × String)} (hin : InOrder ops keys)
    (hlive : ∀ k ∈ keys, Live ops k) (habsent : ¬ Live ops key) (new : Handle) :
    InOrder (ops ++ [.register key.1 key.2 new]) (keys ++ [key]) := by
  have hlast : LastInserted (ops ++ [.register key.1 key.2 new]) key ops.length :=
    lastInserted_concat_self habsent
  -- the places of the others are places before the new operation, and stay
  have hkept : ∀ k ∈ keys, ∀ i, LastInserted ops k i →
      LastInserted (ops ++ [.register key.1 key.2 new]) k i := fun k hk i =>
    (lastInserted_concat_of_not fun habsent => habsent.2 (hlive k hk)).2
  constructor
  · intro k hk
    rcases List.mem_append.1 hk with hk | hk
    · obtain ⟨i, hi⟩ := hin.placed k hk
      exact ⟨i, hkept k hk i hi⟩
    · rw [List.mem_singleton.1 hk]
      exact ⟨_, hlast⟩
  · refine List.pairwise_append.2 ⟨?_, List.pairwise_singleton _ _, fun k hk k' hk' => ?_⟩
    · refine hin.ordered.imp_of_mem fun {k k'} hk hk' hbefore => ?_
      obtain ⟨i, j, hi, hj, hlt⟩ := hbefore
      exact ⟨i, j, hkept k hk i hi, hkept k' hk' j hj, hlt⟩
    · obtain ⟨i, hi⟩ := hin.placed k hk
      rw [List.mem_singleton.1 hk']
      exact ⟨i, ops.length, hkept k hk i hi, hlast, hi.1.lt⟩

end Histories

/-! ## What the entries keep -/

/-- The entries of a registry are what a history says: the live keys with what was last registered
    under them, in the order in which the keys were last inserted. -/
structure Tracks (ops : List Operation) (r : Registry) : Prop where
  held : ∀ e, e ∈ r.entries ↔ LastRegistered ops e.key e.handle
  distinct : (r.entries.map (·.key)).Nodup
  inOrder : InOrder ops (r.entries.map (·.key))

section Tracks

variable {ops : List Operation}

theorem Tracks.live_iff (htracks : Tracks ops r) (key : String × String) :
    Live ops key ↔ key ∈ r.entries.map (·.key) := by
  rw [List.mem_map]
  constructor
  · rintro ⟨h, hlast⟩
    exact ⟨⟨key.1, key.2, h⟩, (htracks.held _).2 hlast, rfl⟩
  · rintro ⟨e, he, rfl⟩
    exact ⟨e.handle, (htracks.held e).1 he⟩

theorem tracks_empty : Tracks [] {} where
  held e := by
    refine ⟨fun he => absurd he List.not_mem_nil, ?_⟩
    rintro ⟨before, after, hops, -⟩
    simp at hops
  distinct := List.nodup_nil
  inOrder := ⟨fun _ hkey => absurd hkey List.not_mem_nil, List.Pairwise.nil⟩

theorem Tracks.register (htracks : Tracks ops r) (name uid : String) (new : Handle) :
    Tracks (ops ++ [.register name uid new]) (r.register name uid new) := by
  have hheld : ∀ e, e ∈ (r.register name uid new).entries ↔
      LastRegistered (ops ++ [.register name uid new]) e.key e.handle := by
    intro e
    rw [mem_register htracks.distinct, htracks.held e, lastRegistered_concat]
    refine or_congr ?_ (and_congr_left' ne_comm)
    rw [Operation.register.injEq, ← Entry.mk.injEq, eq_comm]
    rfl
  cases hfind : r.find? name uid with
  | none =>
    have hkeys : (r.register name uid new).entries.map (·.key) =
        r.entries.map (·.key) ++ [(name, uid)] := by
      rw [register_of_find?_eq_none new hfind, List.map_append]
      rfl
    have habsent : (name, uid) ∉ r.entries.map (·.key) := by
      intro hmem
      obtain ⟨e, he, hkey⟩ := List.mem_map.1 hmem
      exact Entry.isFor_eq_false.1 (find?_eq_none.1 hfind e he) hkey
    refine ⟨hheld, ?_, ?_⟩
    · rw [hkeys, ← List.concat_eq_append]
      exact htracks.distinct.concat habsent
    · rw [hkeys]
      exact htracks.inOrder.concat (fun key => (htracks.live_iff key).2)
        (fun hlive => habsent ((htracks.live_iff _).1 hlive)) new
  | some old =>
    obtain ⟨before, after, hentries, hregister⟩ := exists_split_of_register new hfind
    have hkeys : (r.register name uid new).entries.map (·.key) = r.entries.map (·.key) := by
      rw [hregister, hentries, List.map_append, List.map_append]
      rfl
    have hlive : Live ops (name, uid) :=
      (htracks.live_iff _).2 (List.mem_map_of_mem (mem_of_find? hfind))
    refine ⟨hheld, hkeys ▸ htracks.distinct, hkeys ▸ htracks.inOrder.sublist (.refl _) ?_⟩
    -- the one key that is registered is not absent
    refine fun key i => lastInserted_concat_of_not ?_
    rintro ⟨⟨h, heq⟩, habsent⟩
    obtain ⟨hname, huid, -⟩ := Operation.register.inj heq
    have hkey : key = (name, uid) := Prod.ext hname.symm huid.symm
    exact habsent (hkey ▸ hlive)

theorem Tracks.unregister (htracks : Tracks ops r) (name uid : String) :
    Tracks (ops ++ [.unregister name uid]) (r.unregister name uid) := by
  have hsublist : ((r.unregister name uid).entries.map (·.key)).Sublist
      (r.entries.map (·.key)) := List.filter_sublist.map _
  refine ⟨fun e => ?_, htracks.distinct.sublist hsublist, htracks.inOrder.sublist hsublist ?_⟩
  · rw [entries_unregister, List.mem_filter, decide_eq_true_iff, htracks.held e,
      lastRegistered_concat, and_comm]
    simp [Operation.key, eq_comm]
  · exact fun key i => lastInserted_concat_of_not (by simp)

/-- One more operation keeps the entries to the history. -/
theorem Tracks.apply (htracks : Tracks ops r) (op : Operation) :
    Tracks (ops ++ [op]) (r.apply op) := by
  cases op with
  | register name uid h => exact htracks.register name uid h
  | unregister name uid =>
    rw [Registry.apply, remove_eq htracks.distinct]
    exact htracks.unregister name uid

theorem tracks_run (ops : List Operation) : Tracks ops (run ops) := by
  induction ops using List.reverseRecOn with
  | nil => exact tracks_empty
  | append_singleton ops op ih =>
    rw [run_concat]
    exact ih.apply op

theorem Tracks.find?_eq_some_iff (htracks : Tracks ops r) :
    r.find? name uid = some h ↔ LastRegistered ops (name, uid) h :=
  (Registry.find?_eq_some_iff htracks.distinct).trans (htracks.held _)

/-- What is found by name is entered under the earliest of the live keys with the name. -/
theorem Tracks.first_of_findByName? (htracks : Tracks ops r) (hfind : r.findByName? name = some h) :
    ∃ uid i, LastRegistered ops (name, uid) h ∧ LastInserted ops (name, uid) i ∧
      ∀ uid' j, Live ops (name, uid') → LastInserted ops (name, uid') j → i ≤ j := by
  obtain ⟨e, he, rfl⟩ := Option.map_eq_some_iff.1 hfind
  obtain ⟨hname, before, after, hentries, hbefore⟩ := List.find?_eq_some_iff_append.1 he
  obtain rfl := of_decide_eq_true hname
  have hmem : e ∈ r.entries := List.mem_of_find?_eq_some he
  obtain ⟨i, hi⟩ := htracks.inOrder.placed e.key (List.mem_map_of_mem hmem)
  refine ⟨e.uid, i, (htracks.held e).1 hmem, hi, fun uid' j hlive hj => ?_⟩
  obtain ⟨e', he', hkey⟩ := List.mem_map.1 ((htracks.live_iff _).1 hlive)
  obtain ⟨hname', -⟩ := Prod.mk.inj hkey
  rw [hentries, List.mem_append, List.mem_cons] at he'
  -- no entry with the name comes before `e`, and what comes behind it was inserted later
  rcases he' with he' | rfl | he'
  · exact absurd (decide_eq_true hname') (by simpa using hbefore e' he')
  · rw [← hkey] at hj
    exact Nat.le_of_eq (hi.unique hj)
  · have hordered := htracks.inOrder.ordered
    rw [hentries, List.map_append, List.map_cons, List.pairwise_append, List.pairwise_cons]
      at hordered
    obtain ⟨i', j', hi', hj', hlt⟩ := hordered.2.1.1 e'.key (List.mem_map_of_mem he')
    rw [hkey] at hj'
    rw [hi.unique hi', hj.unique hj']
    exact Nat.le_of_lt hlt

theorem Tracks.findByName?_eq_some_iff (htracks : Tracks ops r) :
    r.findByName? name = some h ↔
      ∃ uid i, LastRegistered ops (name, uid) h ∧ LastInserted ops (name, uid) i ∧
        ∀ uid' j, Live ops (name, uid') → LastInserted ops (name, uid') j → i ≤ j := by
  refine ⟨htracks.first_of_findByName?, ?_⟩
  rintro ⟨uid, i, hlast, hi, hfirst⟩
  obtain ⟨h', hfind⟩ : ∃ h', r.findByName? name = some h' := by
    rw [← Option.ne_none_iff_exists']
    exact fun hnone => findByName?_eq_none.1 hnone _ ((htracks.held ⟨name, uid, h⟩).2 hlast) rfl
  -- two keys that are both the earliest are one
  obtain ⟨uid', i', hlast', hi', hfirst'⟩ := htracks.first_of_findByName? hfind
  obtain rfl : i = i' := Nat.le_antisymm (hfirst uid' i' ⟨h', hlast'⟩ hi')
    (hfirst' uid i ⟨h, hlast⟩ hi)
  obtain ⟨-, rfl⟩ := Prod.mk.inj (hi.key_unique hi')
  rw [hfind, ← htracks.find?_eq_some_iff.2 hlast, htracks.find?_eq_some_iff.2 hlast']

theorem Tracks.size_eq (htracks : Tracks ops r) : r.size = {key | Live ops key}.ncard := by
  have hlive : {key | Live ops key} = ((r.entries.map (·.key)).toFinset : Set (String × String)) := by
    ext key
    rw [Set.mem_ofPred_eq, htracks.live_iff, Finset.mem_coe, List.mem_toFinset]
  rw [hlive, Set.ncard_coe_finset, List.toFinset_card_of_nodup htracks.distinct, List.length_map,
    size]

/-- The assemblies in order are what is found under the keys in order. -/
theorem handles_eq (hdistinct : (r.entries.map (·.key)).Nodup) :
    r.handles.map some = (r.entries.map (·.key)).map fun key => r.find? key.1 key.2 := by
  rw [handles, List.map_map, List.map_map]
  exact List.map_congr_left fun e he => ((Registry.find?_eq_some_iff hdistinct).2 he).symm

end Tracks

/-! ## Every history -/

/-- After any operations on an empty registry it is an ordered map of what they say.

    * Under a key the assembly is found that was last registered there and not unregistered since.
    * No key is there twice, and an earlier key was last inserted before a later one; the assemblies
      are listed in the order of their keys.
    * Registering a key that is there puts the new assembly in the place of the old.
    * By name the assembly is found of the first key with it.
    * Unregistering gives what would have been found.  It leaves all other entries in their order,
      which is what the linker does to drop an entry.
    * The size is the number of live keys. -/
theorem follows_history (ops : List Operation) :
    (∀ name uid h, (run ops).find? name uid = some h ↔ LastRegistered ops (name, uid) h) ∧
      ((run ops).entries.map (·.key)).Nodup ∧
      ((run ops).entries.map (·.key)).Pairwise (InsertedBefore ops) ∧
      (run ops).handles.map some =
        ((run ops).entries.map (·.key)).map (fun key => (run ops).find? key.1 key.2) ∧
      (∀ name uid h new, (run ops).find? name uid = some h → ∃ before after,
        (run ops).entries = before ++ ⟨name, uid, h⟩ :: after ∧
        (run (ops ++ [.register name uid new])).entries = before ++ ⟨name, uid, new⟩ :: after) ∧
      (∀ name h, (run ops).findByName? name = some h ↔
        ∃ uid i, LastRegistered ops (name, uid) h ∧ LastInserted ops (name, uid) i ∧
          ∀ uid' j, Live ops (name, uid') → LastInserted ops (name, uid') j → i ≤ j) ∧
      (∀ name uid, (run ops).remove name uid =
          ((run ops).find? name uid, run (ops ++ [.unregister name uid])) ∧
        (run (ops ++ [.unregister name uid])).entries =
          (run ops).entries.filter (·.key ≠ (name, uid)) ∧
        (run ops).unregister name uid = run (ops ++ [.unregister name uid])) ∧
      (run ops).size = {key | Live ops key}.ncard := by
  have htracks := tracks_run ops
  have hremoved : ∀ name uid, run (ops ++ [.unregister name uid]) = (run ops).unregister name uid := by
    intro name uid
    rw [run_concat, apply, remove_eq htracks.distinct]
  refine ⟨fun _ _ _ => htracks.find?_eq_some_iff, htracks.distinct, htracks.inOrder.ordered,
    handles_eq htracks.distinct, fun name uid h new hfind => ?_,
    fun _ _ => htracks.findByName?_eq_some_iff, fun name uid => ?_, htracks.size_eq⟩
  · rw [run_concat]
    exact exists_split_of_register new hfind
  · rw [hremoved]
    exact ⟨remove_eq htracks.distinct name uid, entries_unregister _ name uid, rfl⟩

/-- A key that is registered again keeps its place, and one that has been unregistered comes last. -/
example : (run [.register "Game" "1" 0, .register "Gfx" "1" 1, .register "Game" "2" 2,
      .register "Gfx" "1" 3]).handles = [0, 3, 2] ∧
    (run [.register "Game" "1" 0, .register "Gfx" "1" 1, .register "Game" "2" 2,
      .unregister "Game" "1", .register "Game" "1" 4]).findByName? "Game" = some 2 := by
  decide

end Registry

end AssemblyLinker
