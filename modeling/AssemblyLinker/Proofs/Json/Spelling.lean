import AssemblyLinker.Proofs.Json.Reading
import Mathlib.Data.List.DropRight

/-! # Reading undoes spelling

    A value may be spelled in many ways: there may be gaps between all of its parts, and the
    members of an object may come in any order.  The grammar of such spellings is a relation
    between phrases and characters (`Spells`), with one rule for each way to go on in a
    container.

    Whatever spells a value is read as that value in canonical form, whatever stands behind it,
    as long as it does not carry on a number (`Spells.value_eq`).  So neither the gaps nor the
    order of the members have a part in what is read.

    The value that is read is the value itself, but for its floating-point numbers
    (`Json.reread`).
-/

namespace AssemblyLinker.Json

/-! ## Texts -/

theorem hexValue?_digitChar {n : Nat} (hn : n < 16) : hexValue? (Nat.digitChar n) = some n := by
  decide +revert

theorem utf8Size_digitChar {n : Nat} (hn : n < 16) : (Nat.digitChar n).utf8Size = 1 := by
  decide +revert

/-- Two digits behind two zeros write a character below the space. -/
theorem codePoint_digits {high low : Nat} (hhigh : high < 2) (hlow : low < 16) (rest : List Char) :
    codePoint ('0' :: '0' :: Nat.digitChar high :: Nat.digitChar low :: rest) =
      .ok (Char.ofNat (high * 16 + low), 4) := by
  have hunit : codeUnit ('0' :: '0' :: Nat.digitChar high :: Nat.digitChar low :: rest) =
      .ok (high * 16 + low) := by
    have hzero : hexValue? '0' = some 0 := by decide
    have hsize : ('0' : Char).utf8Size = 1 := by decide
    have hhigh' := Nat.lt_trans hhigh (by decide : 2 < 16)
    simp [codeUnit, Utf8.byteSize, hsize, utf8Size_digitChar hhigh', utf8Size_digitChar hlow,
      hzero, hexValue?_digitChar hhigh', hexValue?_digitChar hlow]
  have htrailing : isTrailingUnit (high * 16 + low) = false := by
    simp [isTrailingUnit]; omega
  have hleading : isLeadingUnit (high * 16 + low) = false := by
    simp [isLeadingUnit]; omega
  simp [codePoint, hunit, htrailing, hleading, bind, Except.bind, pure, Except.pure]

/-- A character is read back from what is printed for it. -/
theorem textBody_escapedChar (done : List Char) (c : Char) (rest : List Char) :
    textBody done 0 (escapedChar c ++ rest) = textBody (c :: done) 0 rest := by
  unfold escapedChar
  split
  next h => subst h; simp [textBody, escape]
  split
  next h => subst h; simp [textBody, escape]
  split
  next h => subst h; simp [textBody, escape]
  split
  next h => subst h; simp [textBody, escape]
  split
  next h => subst h; simp [textBody, escape]
  split
  next h => subst h; simp [textBody, escape]
  split
  next h => subst h; simp [textBody, escape]
  split
  next h =>
    -- any other control character is written as the digits of its number
    have hhigh : c.toNat / 16 < 2 := by omega
    have hlow : c.toNat % 16 < 16 := Nat.mod_lt _ (by decide)
    have hpoint := codePoint_digits hhigh hlow rest
    have hchar : Char.ofNat (c.toNat / 16 * 16 + c.toNat % 16) = c := by
      rw [Nat.div_add_mod', Char.ofNat_toNat]
    rw [hchar] at hpoint
    simp [textBody, escape, hpoint, Except.map]
  next hquote hslash _ _ _ _ _ hcontrol =>
    simp [textBody, hquote, hslash, hcontrol]

theorem textBody_flatMap (done cs rest : List Char) :
    textBody done 0 (cs.flatMap escapedChar ++ '"' :: rest) =
      .ok (String.ofList (done.reverse ++ cs), rest) := by
  induction cs generalizing done with
  | nil => simp [textBody]
  | cons c cs ih =>
    rw [List.flatMap_cons, List.append_assoc, textBody_escapedChar, ih]
    simp

/-- A text is read back from what is printed for it, its opening quote apart. -/
theorem text_printText (s : String) (rest : List Char) :
    ∃ body, printText s ++ rest = '"' :: body ∧ text body = .ok (s, rest) := by
  refine ⟨s.toList.flatMap escapedChar ++ '"' :: rest, by simp [printText], ?_⟩
  rw [text, textBody_flatMap]
  simp

/-! ## The value read back -/

mutual

/-- The value that is read for the text of a value. Only floating-point numbers may come
    back changed. -/
def reread : Json → Json
  | .num n => .num n.reread
  | .arr items => .arr (rereadItems items)
  | .obj members => .obj (rereadMembers members)
  | other => other

/-- Every value of a list as it is read back. -/
def rereadItems : List Json → List Json
  | [] => []
  | j :: rest => reread j :: rereadItems rest

/-- Every value of a list of members as it is read back. -/
def rereadMembers : Members → Members
  | [] => []
  | (key, j) :: rest => (key, reread j) :: rereadMembers rest

end

/-! ## Gaps -/

theorem skipGaps_cons {c : Char} (hc : isGap c = false) (cs : List Char) :
    skipGaps (c :: cs) = c :: cs := by
  simp [skipGaps, hc]

/-- Blanks and nothing else. -/
def IsGap (cs : List Char) : Prop := ∀ c ∈ cs, isGap c = true

theorem skipGaps_append {gap : List Char} (hgap : IsGap gap) (cs : List Char) :
    skipGaps (gap ++ cs) = skipGaps cs :=
  List.dropWhile_append_of_pos hgap

theorem endsNumber_cons {c : Char}
    (hc : isDigit c = false ∧ c ≠ '.' ∧ c ≠ 'e' ∧ c ≠ 'E') (cs : List Char) :
    EndsNumber (c :: cs) := by
  intro d hd
  obtain rfl : c = d := by simpa using hd
  exact hc

/-- A blank ends a number. -/
theorem endsNumber_append {gap cs : List Char} (hgap : IsGap gap) (hcs : EndsNumber cs) :
    EndsNumber (gap ++ cs) := by
  cases gap with
  | nil => exact hcs
  | cons c gap =>
    refine endsNumber_cons ?_ (gap ++ cs)
    have hc := hgap c List.mem_cons_self
    simp only [isGap, Bool.or_eq_true, decide_eq_true_eq] at hc
    rcases hc with ((rfl | rfl) | rfl) | rfl <;> decide

/-- A text begins as a value does: with no blank, and with no closing bracket. -/
def StartsValue (cs : List Char) : Prop :=
  ∃ c rest, cs = c :: rest ∧ isGap c = false ∧ c ≠ ']' ∧ c ≠ '\x7d'

theorem startsValue_printText (s : String) (rest : List Char) :
    StartsValue (printText s ++ rest) := by
  obtain ⟨body, hbody, -⟩ := text_printText s rest
  exact ⟨'"', body, hbody, by decide⟩

theorem not_isGap_of_isDigit {c : Char} (hc : isDigit c = true) :
    isGap c = false ∧ c ≠ ']' ∧ c ≠ '\x7d' := by
  refine ⟨?_, ?_, ?_⟩
  · by_contra hgap
    simp only [isGap, Bool.not_eq_false, Bool.or_eq_true, decide_eq_true_eq] at hgap
    rcases hgap with ((rfl | rfl) | rfl) | rfl <;> exact absurd hc (by decide)
  · rintro rfl
    exact absurd hc (by decide)
  · rintro rfl
    exact absurd hc (by decide)

theorem StartsValue.skipGaps {cs : List Char} (h : StartsValue cs) : skipGaps cs = cs := by
  obtain ⟨c, rest, rfl, hgap, -⟩ := h
  exact skipGaps_cons hgap rest

/-! ## Words and numbers -/

/-- A reader of values passes over blanks before them. -/
theorem value_skipGaps (depth : Nat) (cs : List Char) :
    value depth (skipGaps cs) = value depth cs := by
  have hskip : skipGaps (skipGaps cs) = skipGaps cs := List.dropWhile_idempotent isGap cs
  cases depth <;> simp only [value, valueWith, hskip]

theorem valueWith_number (item? : Option (List Char → Reading Json)) {n : Number}
    (hn : n.Readable) {rest : List Char} (hrest : EndsNumber rest) :
    valueWith item? (n.text ++ rest) = .ok (.num n.reread, rest) := by
  obtain ⟨negative, c, cs, hdigit, htext, hread⟩ := exists_reading hn
  have hread' := hread rest hrest
  rw [htext]
  cases negative with
  | true =>
    have hminus : isGap '-' = false := by decide
    rw [List.cons_append] at hread'
    simp [valueWith, skipGaps_cons hminus, hread', Except.map]
  | false =>
    simp only [Bool.false_eq_true, if_false]
    rw [List.cons_append] at hread' ⊢
    rw [valueWith, skipGaps_cons (not_isGap_of_isDigit hdigit).1]
    split
    case h_9 c' cs' h =>
      obtain ⟨rfl, rfl⟩ := List.cons.inj h
      simp [hdigit, hread', Except.map]
    -- no digit begins another value
    all_goals
      rename_i h
      cases h <;> exact absurd hdigit (by decide)

/-! ## How deep a value nests -/

mutual

/-- The number of containers in each other. -/
def nesting : Json → Nat
  | .arr items => nestingOfItems items + 1
  | .obj members => nestingOfMembers members + 1
  | _ => 0

/-- The nesting of the deepest value of a list. -/
def nestingOfItems : List Json → Nat
  | [] => 0
  | j :: rest => max (nesting j) (nestingOfItems rest)

/-- The nesting of the deepest value of a list of members. -/
def nestingOfMembers : Members → Nat
  | [] => 0
  | (_, j) :: rest => max (nesting j) (nestingOfMembers rest)

end

/-! ## Spellings -/

/-- What a stretch of a text stands for. -/
inductive Phrase where
  | value (j : Json)
  /-- The items of a list that is not empty, with the bracket that closes it. -/
  | items (js : List Json)
  /-- A key and its value. -/
  | member (key : String) (j : Json)
  /-- The members of an object that is not empty, with the bracket that closes it. -/
  | members (ms : List (String × Json))

/-- The characters spell a phrase, with gaps between its parts. -/
inductive Spells : Phrase → List Char → Prop where
  | null : Spells (.value .null) ['n', 'u', 'l', 'l']
  | wordTrue : Spells (.value (.bool true)) ['t', 'r', 'u', 'e']
  | wordFalse : Spells (.value (.bool false)) ['f', 'a', 'l', 's', 'e']
  | num {n : Number} (fits : n.Readable) : Spells (.value (.num n)) n.text
  | str (s : String) : Spells (.value (.str s)) (printText s)
  | emptyList {gap : List Char} (blank : IsGap gap) :
      Spells (.value (.arr [])) ('[' :: gap ++ [']'])
  | list {js : List Json} {cs : List Char} (items : Spells (.items js) cs) :
      Spells (.value (.arr js)) ('[' :: cs)
  | lastItem {j : Json} {gap cs gap' : List Char} (before : IsGap gap)
      (item : Spells (.value j) cs) (behind : IsGap gap') :
      Spells (.items [j]) (gap ++ cs ++ gap' ++ [']'])
  | item {j : Json} {js : List Json} {gap cs gap' more : List Char} (before : IsGap gap)
      (item : Spells (.value j) cs) (behind : IsGap gap') (others : Spells (.items js) more) :
      Spells (.items (j :: js)) (gap ++ cs ++ gap' ++ ',' :: more)
  | emptyObject {gap : List Char} (blank : IsGap gap) :
      Spells (.value (.obj [])) ('\x7b' :: gap ++ ['\x7d'])
  | object {ms : Members} {cs : List Char} (members : Spells (.members ms) cs) :
      Spells (.value (.obj ms)) ('\x7b' :: cs)
  | member (key : String) {j : Json} {gap gap' cs : List Char} (before : IsGap gap)
      (behind : IsGap gap') (value : Spells (.value j) cs) :
      Spells (.member key j) (printText key ++ gap ++ ':' :: gap' ++ cs)
  | lastMember {key : String} {j : Json} {gap cs gap' : List Char} (before : IsGap gap)
      (member : Spells (.member key j) cs) (behind : IsGap gap') :
      Spells (.members [(key, j)]) (gap ++ cs ++ gap' ++ ['\x7d'])
  | moreMembers {key : String} {j : Json} {ms : Members} {gap cs gap' more : List Char}
      (before : IsGap gap) (member : Spells (.member key j) cs) (behind : IsGap gap')
      (others : Spells (.members ms) more) :
      Spells (.members ((key, j) :: ms)) (gap ++ cs ++ gap' ++ ',' :: more)

namespace Spells

variable {cs : List Char}

theorem startsValue {j : Json} (h : Spells (.value j) cs) (rest : List Char) :
    StartsValue (cs ++ rest) := by
  cases h with
  | null | wordTrue | wordFalse => exact ⟨_, _, rfl, by decide⟩
  | num fits =>
    obtain ⟨negative, c, cs, hdigit, htext, -⟩ := exists_reading fits
    rw [htext]
    cases negative with
    | true => exact ⟨'-', _, rfl, by decide⟩
    | false => exact ⟨c, _, rfl, not_isGap_of_isDigit hdigit⟩
  | str s => exact startsValue_printText s rest
  | emptyList | list | emptyObject | object => exact ⟨_, _, rfl, by decide⟩

theorem startsMember {key : String} {j : Json} (h : Spells (.member key j) cs)
    (rest : List Char) : StartsValue (cs ++ rest) := by
  cases h with
  | member key before behind value =>
    simp only [List.append_assoc]
    exact startsValue_printText key _

/-- Behind the gap before it, the first item begins. -/
theorem startsItems {js : List Json} (h : Spells (.items js) cs) (rest : List Char) :
    StartsValue (skipGaps (cs ++ rest)) := by
  cases h with
  | lastItem before item behind =>
    have hstart := item.startsValue
    simp only [List.append_assoc, skipGaps_append before, (hstart _).skipGaps]
    exact hstart _
  | item before item behind others =>
    have hstart := item.startsValue
    simp only [List.append_assoc, skipGaps_append before, (hstart _).skipGaps]
    exact hstart _

theorem startsMembers {ms : Members} (h : Spells (.members ms) cs) (rest : List Char) :
    StartsValue (skipGaps (cs ++ rest)) := by
  cases h with
  | lastMember before member behind =>
    have hstart := member.startsMember
    simp only [List.append_assoc, skipGaps_append before, (hstart _).skipGaps]
    exact hstart _
  | moreMembers before member behind others =>
    have hstart := member.startsMember
    simp only [List.append_assoc, skipGaps_append before, (hstart _).skipGaps]
    exact hstart _

end Spells

/-! ## Readers of containers -/

section Containers

variable {item : List Char → Reading Json} {text gap more rest : List Char} {fuel : Nat} {j : Json}
  {key : String}

/-- Behind a part of a container: a gap, and what is no blank. -/
theorem skipGaps_behind (hgap : IsGap gap) {c : Char} (hc : isGap c = false) (cs : List Char) :
    skipGaps (gap ++ c :: cs) = c :: cs := by
  rw [skipGaps_append hgap, skipGaps_cons hc]

/-- A part of a container begins behind the gap before it.  Fuel for the characters that are left
    is enough to read it, and what comes behind the mark at its end. -/
theorem skipGaps_part (hgap : IsGap gap) {cs gap' : List Char} {mark : Char}
    (hstart : ∀ rest, StartsValue (cs ++ rest))
    (hfuel : (skipGaps (gap ++ (cs ++ (gap' ++ mark :: rest)))).length ≤ fuel) :
    skipGaps (gap ++ (cs ++ (gap' ++ mark :: rest))) = cs ++ (gap' ++ mark :: rest) ∧
      ∃ left, fuel = left + 1 ∧ (skipGaps rest).length ≤ left := by
  have hskip : skipGaps (gap ++ (cs ++ (gap' ++ mark :: rest))) = cs ++ (gap' ++ mark :: rest) := by
    rw [skipGaps_append hgap, (hstart _).skipGaps]
  have hle := (skipGaps_suffix rest).length_le
  rw [hskip] at hfuel
  simp only [List.length_append, List.length_cons] at hfuel
  exact ⟨hskip, fuel - 1, by omega, by omega⟩

theorem list_of_starts (hstart : StartsValue (skipGaps text)) :
    list item text = items item (skipGaps text).length [] (skipGaps text) := by
  obtain ⟨c, after, htext, -, hclose, -⟩ := hstart
  rw [list, htext]
  split
  next h => cases h
  next h => exact absurd (List.cons.inj h).1 hclose
  next => rfl

theorem items_last (hread : item text = .ok (j, gap ++ ']' :: rest)) (hgap : IsGap gap)
    (done : List Json) :
    items item (fuel + 1) done text = .ok (.arr (done.reverse ++ [j]), rest) := by
  have hclose := skipGaps_behind hgap (by decide : isGap ']' = false) rest
  simp [items, hread, hclose]

theorem items_more (hread : item text = .ok (j, gap ++ ',' :: more)) (hgap : IsGap gap)
    (hstart : StartsValue (skipGaps more)) (done : List Json) :
    items item (fuel + 1) done text = items item fuel (j :: done) (skipGaps more) := by
  have hcomma := skipGaps_behind hgap (by decide : isGap ',' = false) more
  rw [items, hread]
  simp only [hcomma]
  -- no closing bracket stands behind the comma
  obtain ⟨c, after, hmore, -, hclose, -⟩ := hstart
  rw [hmore]
  split
  next h => cases h
  next h => exact absurd (List.cons.inj h).1 hclose
  next => rfl

theorem objectBody_of_starts (hstart : StartsValue (skipGaps text)) :
    objectBody item text = members item (skipGaps text).length [] (skipGaps text) := by
  obtain ⟨c, after, htext, -, -, hclose⟩ := hstart
  rw [objectBody, htext]
  split
  next h => cases h
  next h => exact absurd (List.cons.inj h).1 hclose
  next => rfl

theorem members_last (hread : member item text = .ok ((key, j), gap ++ '\x7d' :: rest))
    (hgap : IsGap gap) (done : Members) :
    members item (fuel + 1) done text = .ok (.obj (done.insert key j), rest) := by
  have hclose := skipGaps_behind hgap (by decide : isGap '\x7d' = false) rest
  simp [members, hread, hclose]

theorem members_more (hread : member item text = .ok ((key, j), gap ++ ',' :: more))
    (hgap : IsGap gap) (hstart : StartsValue (skipGaps more)) (done : Members) :
    members item (fuel + 1) done text =
      members item fuel (done.insert key j) (skipGaps more) := by
  have hcomma := skipGaps_behind hgap (by decide : isGap ',' = false) more
  rw [members, hread]
  simp only [hcomma]
  obtain ⟨c, after, hmore, -, -, hclose⟩ := hstart
  rw [hmore]
  split
  next h => cases h
  next h => exact absurd (List.cons.inj h).1 hclose
  next => rfl

end Containers

/-! ## Spellings are read -/

/-- Members put into an object one after the other. -/
def putAll (done : Members) (ms : List (String × Json)) : Members :=
  ms.foldl (fun ms (key, j) => ms.insert key j) done

/-- The value that is read for a spelling of a value: in canonical form. -/
abbrev settled (j : Json) : Json := j.reread.canonicalize

/-- The readers of a phrase read it off the characters, and leave what stands behind them.  The
    readers of the parts of a container begin behind a gap, and `fuel` is enough for them where
    it is no less than the characters that are left. -/
def Phrase.IsRead (cs : List Char) : Phrase → Prop
  | .value j => ∀ depth rest, j.nesting ≤ depth → EndsNumber rest →
      Json.value depth (cs ++ rest) = .ok (j.settled, rest)
  | .items js => ∀ depth rest fuel done, nestingOfItems js ≤ depth →
      (skipGaps (cs ++ rest)).length ≤ fuel →
      Json.items (Json.value depth) fuel done (skipGaps (cs ++ rest)) =
        .ok (.arr (done.reverse ++ canonicalizeItems (rereadItems js)), rest)
  | .member key j => ∀ depth rest, j.nesting ≤ depth → EndsNumber rest →
      Json.member (Json.value depth) (cs ++ rest) = .ok ((key, j.settled), rest)
  | .members ms => ∀ depth rest fuel done, nestingOfMembers ms ≤ depth →
      (skipGaps (cs ++ rest)).length ≤ fuel →
      Json.members (Json.value depth) fuel done (skipGaps (cs ++ rest)) =
        .ok (.obj (putAll done (canonicalizeMembers (rereadMembers ms))), rest)

theorem Spells.isRead {p : Phrase} {cs : List Char} (h : Spells p cs) : p.IsRead cs := by
  induction h with
  | null =>
    intro depth rest _ _
    cases depth <;> rfl
  | wordTrue =>
    intro depth rest _ _
    cases depth <;> rfl
  | wordFalse =>
    intro depth rest _ _
    cases depth <;> rfl
  | num fits =>
    intro depth rest _ hrest
    cases depth <;> exact valueWith_number _ fits hrest
  | str s =>
    intro depth rest _ _
    obtain ⟨body, hbody, htext⟩ := text_printText s rest
    rw [hbody]
    cases depth <;>
      simp [Json.value, valueWith, skipGaps_cons (by decide : isGap '"' = false), htext,
        Except.map, settled, reread, canonicalize]
  | @emptyList gap blank =>
    intro depth rest hdepth _
    obtain ⟨depth, rfl⟩ := Nat.exists_eq_succ_of_ne_zero (Nat.ne_of_gt hdepth)
    have hclose := skipGaps_behind blank (by decide : isGap ']' = false) rest
    simp [Json.value, valueWith, skipGaps_cons (by decide : isGap '[' = false), Json.list, hclose,
      settled, reread, rereadItems, canonicalize, canonicalizeItems]
  | @list js cs items ih =>
    intro depth rest hdepth _
    obtain ⟨depth, rfl⟩ := Nat.exists_eq_succ_of_ne_zero (Nat.ne_of_gt (Nat.zero_lt_of_lt hdepth))
    have hread := ih depth rest _ [] (Nat.le_of_succ_le_succ hdepth) (Nat.le_refl _)
    rw [List.cons_append, Json.value, valueWith, skipGaps_cons (by decide)]
    simp only
    rw [list_of_starts (items.startsItems rest)]
    exact hread
  | @lastItem j gap cs gap' before item behind ih =>
    intro depth rest fuel done hdepth hfuel
    have hread := ih depth (gap' ++ ']' :: rest) (Nat.le_trans (Nat.le_max_left _ _) hdepth)
      (endsNumber_append behind (endsNumber_cons (by decide) rest))
    simp only [List.append_assoc, List.singleton_append] at hfuel ⊢
    obtain ⟨hskip, fuel, rfl, -⟩ := skipGaps_part before item.startsValue hfuel
    rw [hskip]
    exact items_last hread behind done
  | @item j js gap cs gap' more before item behind others ih ihothers =>
    intro depth rest fuel done hdepth hfuel
    have hread := ih depth (gap' ++ ',' :: (more ++ rest))
      (Nat.le_trans (Nat.le_max_left _ _) hdepth)
      (endsNumber_append behind (endsNumber_cons (by decide) _))
    simp only [List.append_assoc, List.cons_append] at hfuel ⊢
    -- one item is read, and fuel enough is left for the others
    obtain ⟨hskip, fuel, rfl, hleft⟩ := skipGaps_part before item.startsValue hfuel
    have hothers := ihothers depth rest fuel (j.settled :: done)
      (Nat.le_trans (Nat.le_max_right _ _) hdepth) hleft
    rw [hskip, items_more hread behind (others.startsItems rest), hothers]
    simp [rereadItems, canonicalizeItems]
  | @emptyObject gap blank =>
    intro depth rest hdepth _
    obtain ⟨depth, rfl⟩ := Nat.exists_eq_succ_of_ne_zero (Nat.ne_of_gt hdepth)
    have hclose := skipGaps_behind blank (by decide : isGap '\x7d' = false) rest
    simp [Json.value, valueWith, skipGaps_cons (by decide : isGap '\x7b' = false), objectBody,
      hclose, settled, reread, rereadMembers, canonicalize, canonicalizeMembers, Json.object,
      Members.ofList]
  | @object ms cs members ih =>
    intro depth rest hdepth _
    obtain ⟨depth, rfl⟩ := Nat.exists_eq_succ_of_ne_zero (Nat.ne_of_gt (Nat.zero_lt_of_lt hdepth))
    have hread := ih depth rest _ [] (Nat.le_of_succ_le_succ hdepth) (Nat.le_refl _)
    rw [List.cons_append, Json.value, valueWith, skipGaps_cons (by decide)]
    simp only
    rw [objectBody_of_starts (members.startsMembers rest)]
    exact hread
  | @member key j gap gap' cs before behind value ih =>
    intro depth rest hdepth hrest
    have hread := ih depth rest hdepth hrest
    obtain ⟨body, hbody, htext⟩ := text_printText key (gap ++ ':' :: (gap' ++ (cs ++ rest)))
    have hcolon := skipGaps_behind before (by decide : isGap ':' = false) (gap' ++ (cs ++ rest))
    have hvalue : Json.value depth (gap' ++ (cs ++ rest)) = .ok (j.settled, rest) := by
      rw [← value_skipGaps, skipGaps_append behind, value_skipGaps]
      exact hread
    simp only [List.append_assoc, List.cons_append]
    rw [hbody, Json.member]
    simp only [htext, hcolon, hvalue]
    rfl
  | @lastMember key j gap cs gap' before member behind ih =>
    intro depth rest fuel done hdepth hfuel
    have hread := ih depth (gap' ++ '\x7d' :: rest) (Nat.le_trans (Nat.le_max_left _ _) hdepth)
      (endsNumber_append behind (endsNumber_cons (by decide) rest))
    simp only [List.append_assoc, List.singleton_append] at hfuel ⊢
    obtain ⟨hskip, fuel, rfl, -⟩ := skipGaps_part before member.startsMember hfuel
    rw [hskip]
    exact members_last hread behind done
  | @moreMembers key j ms gap cs gap' more before member behind others ih ihothers =>
    intro depth rest fuel done hdepth hfuel
    have hread := ih depth (gap' ++ ',' :: (more ++ rest))
      (Nat.le_trans (Nat.le_max_left _ _) hdepth)
      (endsNumber_append behind (endsNumber_cons (by decide) _))
    simp only [List.append_assoc, List.cons_append] at hfuel ⊢
    obtain ⟨hskip, fuel, rfl, hleft⟩ := skipGaps_part before member.startsMember hfuel
    have hothers := ihothers depth rest fuel (done.insert key j.settled)
      (Nat.le_trans (Nat.le_max_right _ _) hdepth) hleft
    rw [hskip, members_more hread behind (others.startsMembers rest), hothers]
    rfl

/-- A spelling of a value is read as the value in canonical form. -/
theorem Spells.value_eq {j : Json} {cs rest : List Char} {depth : Nat} (h : Spells (.value j) cs)
    (hdepth : j.nesting ≤ depth) (hrest : EndsNumber rest) :
    value depth (cs ++ rest) = .ok (j.reread.canonicalize, rest) :=
  h.isRead depth rest hdepth hrest

/-- So is a text that spells it between gaps. -/
theorem Spells.parse_eq {j : Json} {gap cs gap' : List Char} (h : Spells (.value j) cs)
    (hgap : IsGap gap) (hgap' : IsGap gap') (hdepth : j.nesting ≤ maxDepth) :
    parse (String.ofList (gap ++ cs ++ gap')) = .ok j.reread.canonicalize := by
  have hnil : EndsNumber [] := fun c hc => by cases hc
  have hends : EndsNumber gap' := by
    rw [← List.append_nil gap']
    exact endsNumber_append hgap' hnil
  have hread : value maxDepth (gap ++ (cs ++ gap')) = .ok (j.reread.canonicalize, gap') := by
    rw [← value_skipGaps, skipGaps_append hgap, value_skipGaps]
    exact h.value_eq hdepth hends
  have hrest : skipGaps gap' = [] := List.dropWhile_eq_nil_iff.2 hgap'
  simp [parse, document, hread, hrest]

end AssemblyLinker.Json
