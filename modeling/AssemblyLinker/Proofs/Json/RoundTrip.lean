import AssemblyLinker.Proofs.Json.Objects

/-! # Reading undoes printing

    What is printed for a value spells it, in any layout and at any level (`spells_print`).  The
    members of a value that can be read are in order, so what is read is the value itself, but
    for its floating-point numbers (`parse_pretty`).
-/

namespace AssemblyLinker.Json

/-! ## Printing spells -/

theorem isGap_lineBreak (layout : Layout) (level : Nat) : IsGap (layout.lineBreak level) := by
  cases layout with
  | compact =>
    intro c hc
    cases hc
  | indented width =>
    intro c hc
    rcases List.mem_cons.1 hc with rfl | hc
    · decide
    · rw [List.eq_of_mem_replicate hc]
      decide

theorem isGap_nil : IsGap [] := by
  intro c hc
  cases hc

/-- The colon, and perhaps a gap behind it. -/
theorem exists_colon (layout : Layout) : ∃ gap, IsGap gap ∧ layout.colon = ':' :: gap := by
  cases layout with
  | compact => exact ⟨[], isGap_nil, rfl⟩
  | indented width =>
    refine ⟨[' '], fun c hc => ?_, rfl⟩
    rw [List.mem_singleton.1 hc]
    decide

section Containers

variable {layout : Layout} {level : Nat}

theorem spells_items {items : List Json}
    (hitems : ∀ j ∈ items, Spells (.value j) (print layout level j)) {j : Json}
    (hj : Spells (.value j) (print layout level j)) (outer : Nat) :
    Spells (.items (j :: items)) (layout.lineBreak level ++ print layout level j ++
      printItems layout level items ++ layout.lineBreak outer ++ [']']) := by
  induction items generalizing j with
  | nil =>
    rw [printItems, List.append_nil]
    exact .lastItem (isGap_lineBreak layout level) hj (isGap_lineBreak layout outer)
  | cons next items ih =>
    have hothers := ih (fun i hi => hitems i (List.mem_cons_of_mem next hi))
      (hitems next List.mem_cons_self)
    have hspells := Spells.item (isGap_lineBreak layout level) hj isGap_nil hothers
    simpa [printItems] using hspells

theorem spells_member (key : String) {j : Json} (hj : Spells (.value j) (print layout level j)) :
    Spells (.member key j) (printText key ++ layout.colon ++ print layout level j) := by
  obtain ⟨gap, hgap, hcolon⟩ := exists_colon layout
  have hspells := Spells.member key isGap_nil hgap hj
  simpa [hcolon] using hspells

theorem spells_members {members : Members}
    (hmembers : ∀ m ∈ members, Spells (.value m.2) (print layout level m.2)) (key : String)
    {j : Json} (hj : Spells (.value j) (print layout level j)) (outer : Nat) :
    Spells (.members ((key, j) :: members)) (layout.lineBreak level ++
      (printText key ++ layout.colon ++ print layout level j) ++
      printMembers layout level members ++ layout.lineBreak outer ++ ['\x7d']) := by
  induction members generalizing key j with
  | nil =>
    rw [printMembers, List.append_nil]
    exact .lastMember (isGap_lineBreak layout level) (spells_member key hj)
      (isGap_lineBreak layout outer)
  | cons next members ih =>
    obtain ⟨nextKey, next⟩ := next
    have hothers := ih (fun m hm => hmembers m (List.mem_cons_of_mem _ hm)) nextKey
      (hmembers _ List.mem_cons_self)
    have hspells := Spells.moreMembers (isGap_lineBreak layout level) (spells_member key hj)
      isGap_nil hothers
    simpa [printMembers] using hspells

end Containers

/-- What is printed for a value spells it, in any layout and at any level. -/
theorem spells_print {depth : Nat} {j : Json} (h : Readable depth j) (layout : Layout)
    (level : Nat) : Spells (.value j) (print layout level j) := by
  induction h generalizing level with
  | null => exact .null
  | bool _ b =>
    cases b with
    | false => exact .wordFalse
    | true => exact .wordTrue
  | num _ fits => exact .num fits
  | str _ s => exact .str s
  | @arr _ items _ ih =>
    cases items with
    | nil => exact .emptyList isGap_nil
    | cons j items =>
      have hitems := spells_items (fun i hi => ih i (List.mem_cons_of_mem j hi) (level + 1))
        (ih j List.mem_cons_self (level + 1)) level
      simpa [print] using Spells.list hitems
  | @obj _ members _ _ ih =>
    cases members with
    | nil => exact .emptyObject isGap_nil
    | cons m members =>
      obtain ⟨key, j⟩ := m
      have hmembers := spells_members (fun m hm => ih m (List.mem_cons_of_mem _ hm) (level + 1))
        key (ih _ List.mem_cons_self (level + 1)) level
      simpa [print] using Spells.object hmembers

/-! ## What is read back -/

theorem nestingOfItems_le {items : List Json} {depth : Nat}
    (h : ∀ j ∈ items, j.nesting ≤ depth) : nestingOfItems items ≤ depth := by
  induction items with
  | nil => exact Nat.zero_le depth
  | cons j items ih =>
    rw [nestingOfItems]
    exact Nat.max_le.2 ⟨h j List.mem_cons_self, ih fun i hi => h i (List.mem_cons_of_mem j hi)⟩

theorem nestingOfMembers_le {members : Members} {depth : Nat}
    (h : ∀ m ∈ members, m.2.nesting ≤ depth) : nestingOfMembers members ≤ depth := by
  induction members with
  | nil => exact Nat.zero_le depth
  | cons m members ih =>
    rw [nestingOfMembers]
    exact Nat.max_le.2 ⟨h m List.mem_cons_self, ih fun n hn => h n (List.mem_cons_of_mem m hn)⟩

/-- What a reader yields nests no deeper than it lets containers nest. -/
theorem nesting_le_of_readable {depth : Nat} {j : Json} (h : Readable depth j) :
    j.nesting ≤ depth := by
  induction h with
  | arr _ ih => exact Nat.succ_le_succ (nestingOfItems_le ih)
  | obj _ _ ih => exact Nat.succ_le_succ (nestingOfMembers_le ih)
  | _ => exact Nat.zero_le _

/-- What is printed for a value is read back, in any layout and at any level. -/
theorem value_print {depth : Nat} {j : Json} (h : Readable depth j) (layout : Layout)
    (level : Nat) {rest : List Char} (hrest : EndsNumber rest) :
    value depth (print layout level j ++ rest) = .ok (j.reread, rest) := by
  rw [(spells_print h layout level).value_eq (nesting_le_of_readable h) hrest,
    canonicalize_reread, canonicalize_of_readable h]

/-- The text of a value is read back. -/
theorem parse_pretty {j : Json} (h : Readable maxDepth j) (layout : Layout) :
    parse (j.pretty layout) = .ok j.reread := by
  have hnil : EndsNumber [] := fun c hc => by cases hc
  have hread := value_print h layout 0 hnil
  rw [List.append_nil] at hread
  simp [parse, pretty, document, hread, skipGaps]

/-! ## Values that are read back as they are -/

/-- A value whose numbers are whole, but for floating-point numbers that are read back as they
    are. -/
inductive Steady : Json → Prop where
  | null : Steady .null
  | bool (b : Bool) : Steady (.bool b)
  | whole (n : Int) : Steady (.num (.whole n))
  | float {x : Binary64} (same : (Number.float x).reread = .float x) : Steady (.num (.float x))
  | str (s : String) : Steady (.str s)
  | arr {items : List Json} (steady : ∀ j ∈ items, Steady j) : Steady (.arr items)
  | obj {members : Members} (steady : ∀ m ∈ members, Steady m.2) : Steady (.obj members)

theorem rereadItems_eq_self {items : List Json} (h : ∀ j ∈ items, j.reread = j) :
    rereadItems items = items := by
  induction items with
  | nil => rfl
  | cons j items ih =>
    rw [rereadItems, h j List.mem_cons_self, ih fun i hi => h i (List.mem_cons_of_mem j hi)]

theorem rereadMembers_eq_self {members : Members} (h : ∀ m ∈ members, m.2.reread = m.2) :
    rereadMembers members = members := by
  induction members with
  | nil => rfl
  | cons m members ih =>
    rw [rereadMembers, h m List.mem_cons_self, ih fun n hn => h n (List.mem_cons_of_mem m hn)]

/-- A readable value with such numbers is read back as it is. -/
theorem reread_of_steady {depth : Nat} {j : Json} (h : Readable depth j) (hsteady : Steady j) :
    j.reread = j := by
  induction h with
  | null => rfl
  | bool => rfl
  | str => rfl
  | num depth fits =>
    cases hsteady with
    | whole n => rw [reread, reread_whole fits]
    | float same => rw [reread, same]
  | arr _ ih =>
    cases hsteady with
    | arr steady => rw [reread, rereadItems_eq_self fun j hj => ih j hj (steady j hj)]
  | obj _ _ ih =>
    cases hsteady with
    | obj steady => rw [reread, rereadMembers_eq_self fun m hm => ih m hm (steady m hm)]

end AssemblyLinker.Json
