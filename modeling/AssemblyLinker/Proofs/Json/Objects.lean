import AssemblyLinker.Json.Decode
import AssemblyLinker.Proofs.Json.Spelling

/-! # Objects made from lists of members

    An object that is written is made from a list of its members, and one that is read is
    taken apart by its keys.  Putting a member keeps the order of keys, keeps what can be
    read and what is read back, and decides what is found under its key.  So the members
    of the object can be looked up in the list.

    A value that a reader yields is in canonical form already.
-/

namespace AssemblyLinker.Json

/-! ## Putting members -/

/-- A member with a key behind all others is put at the end. -/
theorem insert_of_lt {key : String} {j : Json} {done : Members}
    (h : ∀ m ∈ done, m.1 < key) : done.insert key j = done ++ [(key, j)] := by
  induction done with
  | nil => rfl
  | cons m rest ih =>
    have hm := h m List.mem_cons_self
    rw [Members.insert, if_neg (ne_of_gt hm), if_neg (not_lt_of_gt hm),
      ih fun m hm => h m (List.mem_cons_of_mem _ hm), List.cons_append]

theorem get?_insert (key k : String) (j : Json) (ms : Members) :
    (ms.insert k j).get? key = if k = key then some j else ms.get? key := by
  induction ms with
  | nil => rfl
  | cons m rest ih =>
    obtain ⟨head, i⟩ := m
    rw [Members.insert]
    by_cases heq : k = head
    · subst heq
      rw [if_pos rfl, Members.get?, Members.get?]
      split <;> rfl
    rw [if_neg heq]
    split
    · rw [Members.get?]
    · rw [Members.get?, Members.get?, ih]
      by_cases hhead : head = key
      · subst hhead
        rw [if_pos rfl, if_pos rfl, if_neg heq]
      · rw [if_neg hhead, if_neg hhead]

/-- Of the members put under one key the last one counts. -/
theorem get?_ofList (key : String) (members : List (String × Json)) :
    (Members.ofList members).get? key = (members.reverse.find? (·.1 = key)).map (·.2) := by
  have hfold : ∀ ms : Members, (members.foldl (fun ms m => ms.insert m.1 m.2) ms).get? key =
      ((members.reverse.find? (·.1 = key)).map (·.2)).or (ms.get? key) := by
    induction members with
    | nil => exact fun ms => rfl
    | cons m members ih =>
      intro ms
      rw [List.foldl_cons, ih, get?_insert, List.reverse_cons, List.find?_append]
      cases members.reverse.find? (·.1 = key) with
      | some n => rfl
      | none =>
        by_cases hkey : m.1 = key <;> simp [hkey]
  show (members.foldl (fun (ms : Members) m => ms.insert m.1 m.2) []).get? key = _
  rw [hfold, Members.get?, Option.or_none]

theorem rereadMembers_insert (key : String) (j : Json) (ms : Members) :
    rereadMembers (ms.insert key j) = (rereadMembers ms).insert key j.reread := by
  induction ms with
  | nil => rfl
  | cons m rest ih =>
    obtain ⟨head, i⟩ := m
    simp only [Members.insert, rereadMembers]
    split
    · rfl
    · split
      · rfl
      · rw [rereadMembers, ih]

/-- What holds of all members in order, from the first to the last. -/
theorem foldl_insert_induction {P : Members → Prop} {members : List (String × Json)}
    (step : ∀ m ∈ members, ∀ ms, P ms → P (ms.insert m.1 m.2)) {ms : Members} (h : P ms) :
    P (members.foldl (fun ms (k, v) => ms.insert k v) ms) := by
  induction members generalizing ms with
  | nil => exact h
  | cons m members ih =>
    exact ih (fun n hn => step n (List.mem_cons_of_mem m hn)) (step m List.mem_cons_self ms h)

theorem ordered_ofList (members : List (String × Json)) : Ordered (Members.ofList members) :=
  foldl_insert_induction (fun m _ _ hms => hms.insert m.1 m.2) List.Pairwise.nil

theorem mem_ofList {members : List (String × Json)} {m : String × Json}
    (hm : m ∈ Members.ofList members) : m ∈ members := by
  have h : ∀ n ∈ Members.ofList members, n ∈ members := by
    refine foldl_insert_induction (P := fun ms => ∀ n ∈ ms, n ∈ members)
      (fun n hn ms hms k hk => ?_) fun n hn => (by cases hn)
    rcases mem_insert hk with rfl | hk
    · exact hn
    · exact hms k hk
  exact h m hm

theorem readable_object {depth : Nat} {members : List (String × Json)}
    (h : ∀ m ∈ members, Readable depth m.2) : Readable (depth + 1) (object members) :=
  .obj (ordered_ofList members) fun m hm => h m (mem_ofList hm)

theorem reread_object (members : List (String × Json)) :
    (object members).reread = object (rereadMembers members) := by
  have h : ∀ ms, rereadMembers (members.foldl (fun ms (k, v) => ms.insert k v) ms) =
      (rereadMembers members).foldl (fun ms (k, v) => ms.insert k v) (rereadMembers ms) := by
    induction members with
    | nil => exact fun ms => rfl
    | cons m members ih =>
      intro ms
      rw [List.foldl_cons, ih, rereadMembers_insert]
      rfl
  simp only [object, reread, Members.ofList]
  exact congrArg _ (h [])

/-! ## Looking at members -/

theorem mem_of_get? {key : String} {j : Json} {ms : Members} (h : ms.get? key = some j) :
    (key, j) ∈ ms := by
  induction ms with
  | nil => cases h
  | cons m rest ih =>
    rw [Members.get?] at h
    split at h
    next hkey =>
      obtain rfl := Option.some.inj h
      obtain rfl := hkey
      exact List.mem_cons_self
    next => exact List.mem_cons_of_mem m (ih h)

theorem checkMembers_ok {check : String → Json → Except Mismatch Unit} {ms : Members}
    (h : ∀ m ∈ ms, check m.1 m.2 = .ok ()) : checkMembers check ms = .ok () := by
  induction ms with
  | nil => rfl
  | cons m rest ih =>
    rw [checkMembers, h m List.mem_cons_self]
    exact ih fun n hn => h n (List.mem_cons_of_mem m hn)

theorem room_le_of_mem_items {j : Json} {items : List Json} (hj : j ∈ items) :
    j.room ≤ roomOfItems items := by
  induction items with
  | nil => cases hj
  | cons i rest ih =>
    rw [roomOfItems]
    rcases List.mem_cons.1 hj with rfl | hj
    · omega
    · have := ih hj
      omega

theorem room_le_of_mem_members {m : String × Json} {ms : Members} (hm : m ∈ ms) :
    m.2.room ≤ roomOfMembers ms := by
  induction ms with
  | nil => cases hm
  | cons n rest ih =>
    rw [roomOfMembers]
    rcases List.mem_cons.1 hm with rfl | hm
    · omega
    · have := ih hm
      omega

theorem mem_eachItem {α : Type} {item : Decoder α} {items : List Json} {as : List α}
    (h : eachItem item items = .ok as) {a : α} (ha : a ∈ as) : ∃ j ∈ items, item j = .ok a := by
  induction items generalizing as with
  | nil =>
    cases h
    cases ha
  | cons j rest ih =>
    rw [eachItem] at h
    cases hj : item j with
    | error e =>
      rw [hj] at h
      cases h
    | ok b =>
      cases hrest : eachItem item rest with
      | error e =>
        rw [hj, hrest] at h
        cases h
      | ok bs =>
        rw [hj, hrest] at h
        cases h
        rcases List.mem_cons.1 ha with rfl | ha
        · exact ⟨j, List.mem_cons_self, hj⟩
        · obtain ⟨i, hi, hitem⟩ := ih hrest ha
          exact ⟨i, List.mem_cons_of_mem j hi, hitem⟩

theorem eachItem_map {α β : Type} {item : Decoder α} {write : β → Json} {f : β → α}
    (bs : List β) (h : ∀ b ∈ bs, item (write b) = .ok (f b)) :
    eachItem item (bs.map write) = .ok (bs.map f) := by
  induction bs with
  | nil => rfl
  | cons b bs ih =>
    rw [List.map_cons, eachItem, h b List.mem_cons_self,
      ih fun c hc => h c (List.mem_cons_of_mem b hc)]
    rfl

/-! ## Canonical form -/

theorem ofList_of_ordered {ms : Members} (h : Ordered ms) : Members.ofList ms = ms := by
  have hfold : ∀ done rest : Members, Ordered (done ++ rest) →
      rest.foldl (fun ms (k, v) => ms.insert k v) done = done ++ rest := by
    intro done rest
    induction rest generalizing done with
    | nil => simp
    | cons m rest ih =>
      intro hordered
      obtain ⟨key, j⟩ := m
      have hlt : ∀ n ∈ done, n.1 < key := by
        intro n hn
        unfold Ordered at hordered
        rw [List.map_append, List.pairwise_append] at hordered
        exact hordered.2.2 _ (List.mem_map_of_mem hn) _ List.mem_cons_self
      show rest.foldl _ (done.insert key j) = _
      rw [insert_of_lt hlt, ih _ (by simpa using hordered)]
      simp
  exact hfold [] ms h

mutual

/-- Numbers are read back alike before and after the members are put in order. -/
theorem canonicalize_reread : (j : Json) → j.reread.canonicalize = j.canonicalize.reread
  | .null => rfl
  | .bool _ => rfl
  | .num _ => rfl
  | .str _ => rfl
  | .arr items => by simp only [reread, canonicalize, canonicalizeItems_reread items]
  | .obj members => by
    simp only [reread, canonicalize, reread_object, canonicalizeMembers_reread members]

theorem canonicalizeItems_reread : (items : List Json) →
    canonicalizeItems (rereadItems items) = rereadItems (canonicalizeItems items)
  | [] => rfl
  | j :: rest => by
    simp only [rereadItems, canonicalizeItems, canonicalize_reread j,
      canonicalizeItems_reread rest]

theorem canonicalizeMembers_reread : (members : Members) →
    canonicalizeMembers (rereadMembers members) = rereadMembers (canonicalizeMembers members)
  | [] => rfl
  | (key, j) :: rest => by
    simp only [rereadMembers, canonicalizeMembers, canonicalize_reread j,
      canonicalizeMembers_reread rest]

end

/-- A value that a reader yields is in canonical form. -/
theorem canonicalize_of_readable {depth : Nat} {j : Json} (h : Readable depth j) :
    j.canonicalize = j := by
  induction h with
  | null => rfl
  | bool => rfl
  | num => rfl
  | str => rfl
  | @arr depth items _ ih =>
    have hitems : ∀ js : List Json, (∀ j ∈ js, j.canonicalize = j) →
        canonicalizeItems js = js := by
      intro js hjs
      induction js with
      | nil => rfl
      | cons j js ihjs =>
        rw [canonicalizeItems, hjs j List.mem_cons_self,
          ihjs fun i hi => hjs i (List.mem_cons_of_mem j hi)]
    rw [canonicalize, hitems items ih]
  | @obj depth members sorted _ ih =>
    have hmembers : ∀ ms : Members, (∀ m ∈ ms, m.2.canonicalize = m.2) →
        canonicalizeMembers ms = ms := by
      intro ms hms
      induction ms with
      | nil => rfl
      | cons m ms ihms =>
        rw [canonicalizeMembers, hms m List.mem_cons_self,
          ihms fun n hn => hms n (List.mem_cons_of_mem m hn)]
    -- members that are in order already stay where they are
    rw [canonicalize, hmembers members ih, object, ofList_of_ordered sorted]

end AssemblyLinker.Json
