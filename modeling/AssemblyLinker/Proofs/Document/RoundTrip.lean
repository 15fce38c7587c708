import AssemblyLinker.Proofs.Document

/-! # Documents come back from their texts

    The text of a document is read as that document, whatever its strings, references, flags
    and modules are, as long as the numbers in its modules are whole and its containers do not
    nest too deep for a reader (`Document.round_trip`).  Therefore:

    * documents with the same text are the same;
    * a document that has been read from any text is read again from the text that is written
      for it, however the first text was laid out;
    * whatever spells the members of a document, with any gaps and in any order, is read as the
      document.
-/

namespace AssemblyLinker

open Json

namespace Json

/-- A value with whole numbers only, each of them within 64 bits, whose objects have their
    members in order. -/
inductive Plain : Json → Prop where
  | null : Plain .null
  | bool (b : Bool) : Plain (.bool b)
  | whole {n : Int} (fits : IsInteger n) : Plain (.num (.whole n))
  | str (s : String) : Plain (.str s)
  | arr {items : List Json} (plain : ∀ j ∈ items, Plain j) : Plain (.arr items)
  | obj {members : Members} (sorted : Ordered members) (plain : ∀ m ∈ members, Plain m.2) :
      Plain (.obj members)

theorem nesting_le_of_mem_items {j : Json} {items : List Json} (hj : j ∈ items) :
    j.nesting ≤ nestingOfItems items := by
  induction items with
  | nil => cases hj
  | cons i rest ih =>
    rw [nestingOfItems]
    rcases List.mem_cons.1 hj with rfl | hj
    · exact Nat.le_max_left _ _
    · exact Nat.le_trans (ih hj) (Nat.le_max_right _ _)

theorem nesting_le_of_mem_members {m : String × Json} {ms : Members} (hm : m ∈ ms) :
    m.2.nesting ≤ nestingOfMembers ms := by
  induction ms with
  | nil => cases hm
  | cons n rest ih =>
    rw [nestingOfMembers]
    rcases List.mem_cons.1 hm with rfl | hm
    · exact Nat.le_max_left _ _
    · exact Nat.le_trans (ih hm) (Nat.le_max_right _ _)

namespace Plain

variable {j : Json}

theorem readable (h : j.Plain) {depth : Nat} (hdepth : j.nesting ≤ depth) : Readable depth j := by
  induction h generalizing depth with
  | null => exact .null depth
  | bool b => exact .bool depth b
  | whole fits => exact .num depth fits
  | str s => exact .str depth s
  | @arr items _ ih =>
    obtain ⟨depth, rfl⟩ := Nat.exists_eq_succ_of_ne_zero (Nat.ne_of_gt (Nat.zero_lt_of_lt hdepth))
    have hitems := Nat.le_of_succ_le_succ hdepth
    exact .arr fun j hj => ih j hj (Nat.le_trans (nesting_le_of_mem_items hj) hitems)
  | @obj members sorted _ ih =>
    obtain ⟨depth, rfl⟩ := Nat.exists_eq_succ_of_ne_zero (Nat.ne_of_gt (Nat.zero_lt_of_lt hdepth))
    have hmembers := Nat.le_of_succ_le_succ hdepth
    exact .obj sorted fun m hm => ih m hm (Nat.le_trans (nesting_le_of_mem_members hm) hmembers)

theorem steady (h : j.Plain) : j.Steady := by
  induction h with
  | null => exact .null
  | bool b => exact .bool b
  | @whole n fits => exact .whole n
  | str s => exact .str s
  | arr _ ih => exact .arr ih
  | obj _ _ ih => exact .obj ih

end Plain

end Json

namespace Document

/-- A document that a text may stand for, with whole numbers only. -/
structure Plain (d : Document) : Prop where
  modules : ∀ j ∈ d.modules, j.Plain
  /-- Its containers nest no deeper than a reader lets them. -/
  shallow : d.toJson.nesting ≤ maxDepth

variable {d e : Document}

theorem get?_modules (d : Document) :
    (Members.ofList d.members).get? "modules" = some (.arr d.modules) := by
  rw [get?_ofList, members, List.reverse_append]
  rfl

/-- The modules of a document are two containers down. -/
theorem nesting_module {j : Json} (hj : j ∈ d.modules) : j.nesting + 2 ≤ d.toJson.nesting := by
  have hlist : j.nesting ≤ nestingOfItems d.modules := nesting_le_of_mem_items hj
  have hmembers : nestingOfItems d.modules + 1 ≤ nestingOfMembers (Members.ofList d.members) :=
    nesting_le_of_mem_members (mem_of_get? (get?_modules d))
  show j.nesting + 2 ≤ nestingOfMembers (Members.ofList d.members) + 1
  omega

theorem Plain.readable (h : d.Plain) : d.Readable := by
  intro j hj
  refine (h.modules j hj).readable ?_
  have hdepth := Nat.le_trans (nesting_module hj) h.shallow
  have hmax : maxDepth = moduleDepth + 2 := rfl
  omega

/-- What spells the members of a document, in whatever order, is read as the document. -/
theorem parse_of_spells {j : Json} {gap cs gap' : List Char} (h : d.Plain)
    (hspells : Spells (.value j) cs) (hgap : IsGap gap) (hgap' : IsGap gap')
    (hdepth : j.nesting ≤ maxDepth) (hsame : j.canonicalize = d.toJson) (origin : String) :
    parse (String.ofList (gap ++ cs ++ gap')) origin = .ok d := by
  have hread : Json.parse (String.ofList (gap ++ cs ++ gap')) = .ok d.toJson := by
    rw [hspells.parse_eq hgap hgap' hdepth, canonicalize_reread, hsame, reread_toJson,
      reread_of_steady h.readable fun j hj => (h.modules j hj).steady]
  rw [parse_of_parseFrom (parseFrom_eq_ok_iff.2 hread), ofJson_toJson]
  rfl

/-- The text of a document is read as the document.  So two documents with one text are the
    same, a document that has been read from any text comes back from its own text, and neither
    the gaps of a text nor the order of members in it change which document is read. -/
theorem round_trip (d : Document) (h : d.Plain) :
    (∀ origin, parse d.render origin = .ok d) ∧
    (∀ e : Document, e.Plain → d.render = e.render → d = e) ∧
    (∀ (e : Document) (text origin : String), parse text origin = .ok e →
      (∀ j ∈ e.modules, j.Plain) → ∀ origin', parse e.render origin' = .ok e) ∧
    ∀ (j : Json) (gap cs gap' : List Char) (origin : String), Spells (.value j) cs → IsGap gap →
      IsGap gap' → j.nesting ≤ maxDepth → j.canonicalize = d.toJson →
        parse (String.ofList (gap ++ cs ++ gap')) origin = .ok d := by
  have hback : ∀ e : Document, e.Plain → ∀ origin, parse e.render origin = .ok e := fun e he =>
    parse_render_of_steady he.readable fun j hj => (he.modules j hj).steady
  refine ⟨hback d h, fun e he htext => ?_, fun e text origin hparse hplain => ?_, ?_⟩
  · -- the one text is read as the one and as the other
    have hd := hback d h ""
    rw [htext, hback e he ""] at hd
    exact (Except.ok.inj hd).symm
  · exact parse_render_of_steady (parse_readable hparse) fun j hj => (hplain j hj).steady
  · intro j gap cs gap' origin hspells hgap hgap' hdepth hsame
    exact parse_of_spells h hspells hgap hgap' hdepth hsame origin

/-! ### A document with a module -/

/-- An executable that ships something, with a module that states a number. -/
def shippingDocument : Document :=
  { name := "Main", version := "1", uid := "", loomConfig := "\n", jit := true,
    debugBuild := some false, executable := true,
    references := [{ name := "UI", binary := some "" }, { name := "UI" }],
    modules := [.obj [("limit", .num (.whole (-1))), ("name", .str "m")], .null] }

theorem plain_shippingDocument : shippingDocument.Plain := by
  refine ⟨fun j hj => ?_, by decide⟩
  have hmembers : ∀ m ∈ [("limit", Json.num (.whole (-1))), ("name", .str "m")], m.2.Plain := by
    intro m hm
    simp only [List.mem_cons, List.not_mem_nil, or_false] at hm
    rcases hm with rfl | rfl
    · exact .whole (by unfold IsInteger; decide)
    · exact .str "m"
  simp only [shippingDocument, List.mem_cons, List.not_mem_nil, or_false] at hj
  rcases hj with rfl | rfl
  · exact .obj (by unfold Ordered; decide) hmembers
  · exact .null

theorem round_trip_shippingDocument :
    shippingDocument.Plain ∧ parse shippingDocument.render "Main.loom" = .ok shippingDocument :=
  ⟨plain_shippingDocument, (round_trip shippingDocument plain_shippingDocument).1 "Main.loom"⟩

end Document

end AssemblyLinker
