import AssemblyLinker.Document
import AssemblyLinker.Proofs.Fallible
import AssemblyLinker.Proofs.Json.RoundTrip
import AssemblyLinker.Text.Blank

/-! # Documents read and written

    The text of a document is read as the document, with its modules as they are read back
    (`Document.parse_render`).  It is needed that the modules can be read at all: they are
    if the document has been read from a text itself.

    The payloads in a document that has been read are parts of its text, and so shorter than
    the text (`Document.parse_payload`).
-/

namespace AssemblyLinker

open Json

/-! ## References -/

namespace Reference

theorem ofJson_referenceToJson (r : Reference) :
    ofJson (Document.referenceToJson r) = .ok r := by
  obtain ⟨name, binary⟩ := r
  cases binary <;> rfl

theorem text_of_asOption {j : Json} {s : String} (h : asOption asText j = .ok (some s)) :
    j = .str s := by
  cases j with
  | str => exact congrArg _ (Option.some.inj (Except.ok.inj h))
  | _ => cases h

theorem binary_of_ofMembers {members : Members} {r : Reference} {encoded : String}
    (h : ofMembers members = .ok r) (hbinary : r.binary = some encoded) :
    ("binary", .str encoded) ∈ members := by
  obtain ⟨-, -, h⟩ := exists_of_bind_ok h
  obtain ⟨name, -, h⟩ := exists_of_bind_ok h
  obtain ⟨binary, hmember, h⟩ := exists_of_bind_ok h
  cases h
  simp only at hbinary
  subst hbinary
  unfold defaulted at hmember
  split at hmember
  next j hget =>
    obtain rfl := text_of_asOption hmember
    exact mem_of_get? hget
  next => cases hmember

theorem binary_of_ofItems {items rest : List Json} {r : Reference} {encoded : String}
    (h : ofItems items = .ok (r, rest)) (hbinary : r.binary = some encoded) :
    .str encoded ∈ items := by
  obtain ⟨⟨name, items'⟩, hname, h⟩ := exists_of_bind_ok h
  obtain ⟨⟨binary, rest'⟩, hsecond, h⟩ := exists_of_bind_ok h
  cases h
  simp only at hbinary
  subst hbinary
  cases items with
  | nil => cases hname
  | cons first items =>
    obtain ⟨_, -, hrest⟩ := exists_of_map_ok hname
    obtain rfl : items = items' := congrArg Prod.snd hrest
    cases items with
    | nil => cases hsecond
    | cons second items =>
      obtain ⟨b, hb, hpair⟩ := exists_of_map_ok hsecond
      obtain rfl : b = some encoded := congrArg Prod.fst hpair
      rw [text_of_asOption hb]
      exact List.mem_cons_of_mem _ List.mem_cons_self

/-- The payload of a reference is a text in its value. -/
theorem binary_length_le {j : Json} {r : Reference} (h : ofJson j = .ok r) {encoded : String}
    (hbinary : r.binary = some encoded) : encoded.length ≤ j.room := by
  cases j with
  | obj members => exact room_le_of_mem_members (binary_of_ofMembers h hbinary)
  | arr items =>
    unfold ofJson asRecord at h
    simp only at h
    split at h
    · cases h
    next r' hitems =>
      cases h
      exact room_le_of_mem_items (binary_of_ofItems hitems hbinary)
    · cases h
  | _ => cases h

end Reference

namespace Document

/-- How deep the modules of a document may nest. -/
def moduleDepth : Nat := 125

/-- A document whose modules can be read. -/
def Readable (d : Document) : Prop := ∀ j ∈ d.modules, Json.Readable moduleDepth j

/-- The document that is read for the text of a document. -/
def reread (d : Document) : Document := { d with modules := rereadItems d.modules }

theorem reread_referenceToJson (r : Reference) :
    (referenceToJson r).reread = referenceToJson r := by
  obtain ⟨name, binary⟩ := r
  cases binary <;> rfl

theorem readable_referenceToJson (r : Reference) (depth : Nat) :
    Json.Readable (depth + 1) (referenceToJson r) := by
  refine readable_object fun m hm => ?_
  obtain ⟨name, binary⟩ := r
  cases binary with
  | none =>
    obtain rfl := List.mem_singleton.1 hm
    exact .str depth name
  | some encoded =>
    simp only [optionalMember, Option.map_some, List.mem_cons, List.not_mem_nil, or_false] at hm
    rcases hm with rfl | rfl
    · exact .str depth name
    · exact .str depth encoded

theorem readable_toJson {d : Document} (h : d.Readable) : Json.Readable maxDepth d.toJson := by
  refine readable_object fun m hm => ?_
  have hreferences : Json.Readable 126 (.arr (d.references.map referenceToJson)) := by
    refine .arr fun j hj => ?_
    obtain ⟨r, -, rfl⟩ := List.mem_map.1 hj
    exact readable_referenceToJson r 124
  have hmodules : Json.Readable 126 (.arr d.modules) := .arr h
  simp only [List.mem_append, List.mem_cons, List.not_mem_nil, or_false] at hm
  rcases hm with ((hm | hm) | hm) | hm
  · rcases hm with rfl | rfl | rfl | rfl | rfl | rfl
    · exact .str _ _
    · exact .str _ _
    · exact .str _ _
    · exact .str _ _
    · exact .str _ _
    · exact .bool _ _
  · cases hdebug : d.debugBuild with
    | none =>
      rw [hdebug] at hm
      cases hm
    | some b =>
      rw [hdebug] at hm
      obtain rfl := List.mem_singleton.1 hm
      exact .bool _ b
  · cases hexecutable : d.executable with
    | false =>
      rw [hexecutable] at hm
      cases hm
    | true =>
      rw [hexecutable] at hm
      obtain rfl := List.mem_singleton.1 hm
      exact .bool _ true
  · rcases hm with rfl | rfl
    · exact hreferences
    · exact hmodules

theorem reread_toJson (d : Document) : d.toJson.reread = d.reread.toJson := by
  have hreferences : rereadItems (d.references.map referenceToJson) =
      d.references.map referenceToJson := by
    induction d.references with
    | nil => rfl
    | cons r rs ih => rw [List.map_cons, rereadItems, reread_referenceToJson, ih]
  unfold toJson
  rw [reread_object]
  cases hdebug : d.debugBuild <;> cases hexecutable : d.executable <;>
    simp [reread, rereadMembers, Json.reread, hdebug, hexecutable, optionalMember, hreferences]

/-- The members that are written for a document. -/
def members (d : Document) : List (String × Json) :=
  [("type", .str discriminator), ("name", .str d.name), ("version", .str d.version),
    ("uid", .str d.uid), ("loomconfig", .str d.loomConfig), ("jit", .bool d.jit)] ++
  optionalMember "debugbuild" (d.debugBuild.map .bool) ++
  optionalMember "executable" (if d.executable then some (.bool true) else none) ++
  [("references", .arr (d.references.map referenceToJson)), ("modules", .arr d.modules)]

theorem asList_references (d : Document) :
    asList Reference.ofJson (.arr (d.references.map referenceToJson)) = .ok d.references := by
  have hmap := eachItem_map (f := id) d.references fun r _ => Reference.ofJson_referenceToJson r
  rwa [List.map_id] at hmap

theorem asList_asValue (js : List Json) : asList asValue (.arr js) = .ok js := by
  induction js with
  | nil => rfl
  | cons j js ih =>
    show (eachItem asValue js).map (j :: ·) = _
    rw [show eachItem asValue js = .ok js from ih]
    rfl

theorem checkMembers_members (d : Document) :
    checkMembers checkMember (Members.ofList d.members) = .ok () := by
  refine checkMembers_ok fun m hm => ?_
  have hm := mem_ofList hm
  simp only [members, List.mem_append, List.mem_cons, List.not_mem_nil, or_false] at hm
  rcases hm with ((hm | hm) | hm) | hm
  · rcases hm with rfl | rfl | rfl | rfl | rfl | rfl <;> rfl
  · cases hdebug : d.debugBuild with
    | none =>
      rw [hdebug] at hm
      cases hm
    | some b =>
      rw [hdebug] at hm
      obtain rfl := List.mem_singleton.1 hm
      rfl
  · cases hexecutable : d.executable with
    | false =>
      rw [hexecutable] at hm
      cases hm
    | true =>
      rw [hexecutable] at hm
      obtain rfl := List.mem_singleton.1 hm
      rfl
  · rcases hm with rfl | rfl
    · show fits (asList Reference.ofJson) _ = _
      rw [fits, asList_references]
      rfl
    · show fits (asList asValue) _ = _
      rw [fits, asList_asValue]
      rfl

/-- A document is what the members written for it say. -/
theorem ofMembers_members (d : Document) : ofMembers (Members.ofList d.members) = .ok d := by
  have hreferences := asList_references d
  have hmodules := asList_asValue d.modules
  unfold ofMembers
  rw [checkMembers_members]
  simp only [required, defaulted, get?_ofList]
  obtain ⟨name, version, uid, loomConfig, jit, debugBuild, executable, references, modules⟩ := d
  simp only at hreferences hmodules
  -- the members that may be absent decide where the others stand
  cases debugBuild <;> cases executable <;>
    simp [members, optionalMember, hreferences, hmodules, asText, asFlag, asOption, Except.map,
      bind, Except.bind, pure, Except.pure]

theorem ofJson_toJson (d : Document) : ofJson d.toJson = .ok d := by
  show ofJson (.obj (Members.ofList d.members)) = _
  have htype : ((Members.ofList d.members).get? "type").bind text? = some discriminator := by
    rw [get?_ofList]
    cases hdebug : d.debugBuild <;> cases hexecutable : d.executable <;>
      simp [members, hdebug, hexecutable, optionalMember, text?]
  simp only [ofJson]
  rw [htype]
  simp only [↓reduceIte, ofMembers_members]
  rfl

/-- Where a text is from does not matter to its value. -/
theorem parseFrom_eq_ok_iff {text origin : String} {j : Json} :
    parseFrom origin text = .ok j ↔ Json.parse text = .ok j := by
  unfold parseFrom
  cases Json.parse text <;> simp

/-- What is made of a text is made of its value. -/
theorem parse_of_parseFrom {text origin : String} {j : Json} (h : parseFrom origin text = .ok j) :
    parse text origin =
      (ofJson j).mapError fun fault => .schema (declaredName? j) fault.message := by
  unfold parse
  rw [h]
  rfl

/-- The text of a document is read back. -/
theorem parse_render {d : Document} (h : d.Readable) (origin : String) :
    parse d.render origin = .ok d.reread := by
  have hreadable := readable_toJson h
  have hparse : Json.parse d.render = .ok d.reread.toJson := by
    rw [render, renderValue, canonicalize_of_readable hreadable, parse_pretty hreadable,
      reread_toJson]
  rw [parse_of_parseFrom (parseFrom_eq_ok_iff.2 hparse), ofJson_toJson]
  rfl

/-- Modules that are read back as they are leave the document as it is. -/
theorem reread_of_steady {d : Document} (hd : d.Readable) (h : ∀ j ∈ d.modules, j.Steady) :
    d.reread = d := by
  unfold reread
  rw [rereadItems_eq_self fun j hj => Json.reread_of_steady (hd j hj) (h j hj)]

theorem parse_render_of_steady {d : Document} (hd : d.Readable) (h : ∀ j ∈ d.modules, j.Steady)
    (origin : String) : parse d.render origin = .ok d := by
  rw [parse_render hd, reread_of_steady hd h]

/-! ## What a text is read as -/

theorem parse_object {text origin : String} {d : Document} (h : parse text origin = .ok d) :
    ∃ members, Json.parse text = .ok (.obj members) ∧ ofMembers members = .ok d := by
  obtain ⟨j, hj, h⟩ := exists_of_bind_ok h
  cases j with
  | obj members =>
    refine ⟨members, parseFrom_eq_ok_iff.1 hj, ?_⟩
    unfold ofJson at h
    simp only at h
    split at h
    · cases h
    · split at h
      · cases hmembers : ofMembers members with
        | error e =>
          rw [hmembers] at h
          cases h
        | ok d' =>
          rw [hmembers] at h
          cases h
          rfl
      · cases h
  | _ => cases h

/-- The origin of a text does not matter to what is read. -/
theorem parse_origin {text origin : String} {d : Document} (h : parse text origin = .ok d)
    (origin' : String) : parse text origin' = .ok d := by
  obtain ⟨j, hj, h⟩ := exists_of_bind_ok h
  rw [parse_of_parseFrom (parseFrom_eq_ok_iff.2 (parseFrom_eq_ok_iff.1 hj))]
  cases hjson : ofJson j with
  | error e =>
    rw [hjson] at h
    cases h
  | ok d' =>
    rw [hjson] at h
    exact h

theorem mem_of_required {α : Type} {key : String} {decoder : Decoder α} {ms : Members} {a : α}
    (h : required key decoder ms = .ok a) : ∃ j, (key, j) ∈ ms ∧ decoder j = .ok a := by
  unfold required at h
  split at h
  next j hget => exact ⟨j, mem_of_get? hget, h⟩
  next => cases h

/-- The references and the modules of a document are items of members of its value. -/
theorem lists_of_ofMembers {ms : Members} {d : Document} (h : ofMembers ms = .ok d) :
    (∃ items, ("references", .arr items) ∈ ms ∧
      eachItem Reference.ofJson items = .ok d.references) ∧
    ("modules", .arr d.modules) ∈ ms := by
  obtain ⟨-, -, h⟩ := exists_of_bind_ok h
  obtain ⟨name, -, h⟩ := exists_of_bind_ok h
  obtain ⟨version, -, h⟩ := exists_of_bind_ok h
  obtain ⟨uid, -, h⟩ := exists_of_bind_ok h
  obtain ⟨loomConfig, -, h⟩ := exists_of_bind_ok h
  obtain ⟨jit, -, h⟩ := exists_of_bind_ok h
  obtain ⟨debugBuild, -, h⟩ := exists_of_bind_ok h
  obtain ⟨executable, -, h⟩ := exists_of_bind_ok h
  obtain ⟨references, hreferences, h⟩ := exists_of_bind_ok h
  obtain ⟨modules, hmodules, h⟩ := exists_of_bind_ok h
  cases h
  constructor
  · obtain ⟨j, hj, hlist⟩ := mem_of_required hreferences
    cases j with
    | arr items => exact ⟨items, hj, hlist⟩
    | _ => cases hlist
  · obtain ⟨j, hj, hlist⟩ := mem_of_required hmodules
    cases j with
    | arr items =>
      have hitems : items = modules := by
        have hvalues := (asList_asValue items).symm.trans hlist
        exact Except.ok.inj hvalues
      exact hitems ▸ hj
    | _ => cases hlist

/-- The modules of a document that has been read can be read again. -/
theorem parse_readable {text origin : String} {d : Document} (h : parse text origin = .ok d) :
    d.Readable := by
  obtain ⟨ms, hparse, hmembers⟩ := parse_object h
  have hmodules := (lists_of_ofMembers hmembers).2
  intro j hj
  have hread := (parse_reads hparse).1
  cases hread with
  | obj _ hmember =>
    have hlist := hmember _ hmodules
    cases hlist with
    | arr hitem => exact hitem j hj

/-- A payload is shorter than the text of the document that it is in. -/
theorem parse_payload {text origin : String} {d : Document} (h : parse text origin = .ok d)
    {r : Reference} (hr : r ∈ d.references) {encoded : String} (hbinary : r.binary = some encoded) :
    encoded.length < text.length := by
  obtain ⟨ms, hparse, hmembers⟩ := parse_object h
  obtain ⟨⟨items, hitems, heach⟩, -⟩ := lists_of_ofMembers hmembers
  obtain ⟨j, hj, hread⟩ := mem_eachItem heach hr
  calc encoded.length
      ≤ j.room := Reference.binary_length_le hread hbinary
    _ ≤ roomOfItems items := room_le_of_mem_items hj
    _ ≤ roomOfMembers ms := room_le_of_mem_members hitems
    _ < text.length := (parse_object_reads hparse).2

/-- The text of a document does not end in NUL characters. -/
theorem parse_trimEnd {text origin : String} {d : Document} (h : parse text origin = .ok d) :
    Text.trimEnd '\x00' text = text := by
  obtain ⟨ms, hparse, -⟩ := parse_object h
  obtain ⟨⟨rest, hrest, before, htext⟩, -⟩ := parse_object_reads hparse
  -- the last character closes the object or is a blank behind it
  have hlast : ∃ front c, text.toList = front ++ [c] ∧ (c == '\x00') = false := by
    rcases List.eq_nil_or_concat rest with rfl | ⟨blanks, c, rfl⟩
    · exact ⟨before, '\x7d', htext.symm, rfl⟩
    · refine ⟨before ++ '\x7d' :: blanks, c, by simp [← htext], ?_⟩
      have hgap := hrest c (by simp)
      rw [beq_eq_false_iff_ne]
      rintro rfl
      exact absurd hgap (by decide)
  obtain ⟨front, c, hfront, hc⟩ := hlast
  rw [Text.trimEnd, hfront, Text.dropEndWhile_concat_of_not (p := (· == '\x00')) front hc, ← hfront,
    String.ofList_toList]

end Document

end AssemblyLinker
