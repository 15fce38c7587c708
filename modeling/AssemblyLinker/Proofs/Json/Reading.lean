import AssemblyLinker.Proofs.Json.Numbers
import Mathlib.Data.List.TakeWhile
import Mathlib.Data.String.Basic

/-! # What a reader yields

    A reader of JSON yields values of one kind only (`Readable`): whole numbers fit 64 bits,
    floating-point numbers are of the format, the members of objects are in the order of
    their keys, and containers nest no deeper than the reader lets them.

    The texts in a value are part of what it has been read from, so that all of them
    together are no longer (`Json.room`).
-/

namespace AssemblyLinker.Json

/-! ## Values that can be read -/

/-- Are members in the order of their keys? -/
def Ordered (members : Members) : Prop := (members.map (·.1)).Pairwise (· < ·)

/-- A value as a reader yields it that lets containers nest as deep as given. -/
inductive Readable : Nat → Json → Prop where
  | null (depth : Nat) : Readable depth .null
  | bool (depth : Nat) (b : Bool) : Readable depth (.bool b)
  | num (depth : Nat) {n : Number} (fits : n.Readable) : Readable depth (.num n)
  | str (depth : Nat) (s : String) : Readable depth (.str s)
  | arr {depth : Nat} {items : List Json} (readable : ∀ j ∈ items, Readable depth j) :
      Readable (depth + 1) (.arr items)
  | obj {depth : Nat} {members : Members} (sorted : Ordered members)
      (readable : ∀ m ∈ members, Readable depth m.2) : Readable (depth + 1) (.obj members)

mutual

/-- The number of characters of the texts in a value, keys apart. -/
def room : Json → Nat
  | .str s => s.length
  | .arr items => roomOfItems items
  | .obj members => roomOfMembers members
  | _ => 0

/-- The number of characters of the texts in a list of values. -/
def roomOfItems : List Json → Nat
  | [] => 0
  | j :: rest => room j + roomOfItems rest

/-- The number of characters of the texts in a list of members, keys apart. -/
def roomOfMembers : Members → Nat
  | [] => 0
  | (_, j) :: rest => room j + roomOfMembers rest

end

/-! ## Parts of values -/

theorem skipGaps_suffix (cs : List Char) : skipGaps cs <:+ cs := List.dropWhile_suffix isGap

/-- What follows the first character behind a gap. -/
theorem suffix_of_skipGaps {c : Char} {cs rest : List Char} (h : skipGaps cs = c :: rest) :
    c :: rest <:+ cs := h ▸ skipGaps_suffix cs

theorem word_reads {j i : Json} {w cs rest : List Char} (h : word j w cs = .ok (i, rest)) :
    i = j ∧ rest <:+ cs := by
  induction w generalizing cs with
  | nil =>
    cases h
    exact ⟨rfl, List.suffix_refl _⟩
  | cons c w ih =>
    cases cs with
    | nil => cases h
    | cons d cs =>
      rw [word] at h
      split at h
      · obtain ⟨rfl, hsuffix⟩ := ih h
        exact ⟨rfl, hsuffix.trans (List.suffix_cons _ _)⟩
      · cases h

/-- A text is no longer than what it has been read from. -/
theorem textBody_reads {done : List Char} {skip : Nat} {cs rest : List Char} {s : String}
    (h : textBody done skip cs = .ok (s, rest)) :
    rest <:+ cs ∧ s.length + rest.length < done.length + cs.length := by
  induction cs generalizing done skip with
  | nil => cases skip <;> cases h
  | cons c cs ih =>
    have hcons := List.suffix_cons c cs
    -- characters of an escape sequence that has been read are passed over
    cases skip with
    | succ skip =>
      obtain ⟨hsuffix, hlt⟩ := ih h
      exact ⟨hsuffix.trans hcons, by simp only [List.length_cons]; omega⟩
    | zero =>
      rw [textBody] at h
      split at h
      · cases h
        exact ⟨hcons, by simp⟩
      · split at h
        · cases hescape : escape cs with
          | error fault =>
            rw [hescape] at h
            cases h
          | ok read =>
            rw [hescape] at h
            obtain ⟨hsuffix, hlt⟩ := ih h
            exact ⟨hsuffix.trans hcons, by simp only [List.length_cons] at hlt ⊢; omega⟩
        · split at h
          · cases h
          · obtain ⟨hsuffix, hlt⟩ := ih h
            exact ⟨hsuffix.trans hcons, by simp only [List.length_cons] at hlt ⊢; omega⟩

theorem text_reads {cs rest : List Char} {s : String} (h : text cs = .ok (s, rest)) :
    rest <:+ cs ∧ s.length + rest.length < cs.length := by
  have hreads := textBody_reads h
  simpa using hreads

/-! ## Numbers -/

theorem appendDigits_le {bound n : Nat} (hn : n ≤ bound) (ds : List Char) :
    (appendDigits bound n ds).1 ≤ bound := by
  induction ds generalizing n with
  | nil => exact hn
  | cons d ds ih =>
    rw [appendDigits]
    split
    · exact hn
    next hle => exact ih (Nat.not_lt.1 hle)

/-- A part of a reader of numbers: it yields numbers that fit, and the end of the text. -/
def ReadsNumber (r : Reading Number) (cs : List Char) : Prop :=
  ∀ n rest, r = .ok (n, rest) → n.Readable ∧ rest <:+ cs

section Numbers

variable {negative : Bool} {significand : Nat} {exponent : Int}

theorem scaled_reads (cs : List Char) :
    ReadsNumber (scaled negative significand exponent cs) cs := by
  intro n rest h
  cases hx : Binary64.ofDecimal? significand exponent with
  | none =>
    rw [scaled_of_none hx] at h
    cases h
  | some x =>
    rw [scaled_of_some hx] at h
    cases h
    exact ⟨(Binary64.ofDecimal?_inFormat hx).signed negative, List.suffix_refl _⟩

theorem exponentSign_suffix (cs : List Char) : (exponentSign cs).2 <:+ cs := by
  unfold exponentSign
  split
  · exact List.suffix_cons _ _
  · exact List.suffix_cons _ _
  · exact List.suffix_refl _

theorem exponentPart_reads (cs : List Char) :
    ReadsNumber (exponentPart negative significand exponent cs) cs := by
  intro n rest h
  have hsign := exponentSign_suffix cs
  unfold exponentPart at h
  generalize exponentSign cs = signed at h hsign
  obtain ⟨down, ds⟩ := signed
  have hdrop := List.dropWhile_suffix isDigit (l := ds)
  simp only at h hsign
  split at h
  · cases h
  · split at h
    · split at h
      · cases h
      · cases h
        exact ⟨Binary64.zero_inFormat.signed negative, hdrop.trans hsign⟩
    · obtain ⟨hfits, hsuffix⟩ := scaled_reads _ _ _ h
      exact ⟨hfits, hsuffix.trans (hdrop.trans hsign)⟩

theorem afterDigits_reads (cs : List Char) :
    ReadsNumber (afterDigits negative significand exponent cs) cs := by
  intro n rest h
  unfold afterDigits at h
  split at h
  · obtain ⟨hfits, hsuffix⟩ := exponentPart_reads _ _ _ h
    exact ⟨hfits, hsuffix.trans (List.suffix_cons _ _)⟩
  · obtain ⟨hfits, hsuffix⟩ := exponentPart_reads _ _ _ h
    exact ⟨hfits, hsuffix.trans (List.suffix_cons _ _)⟩
  · exact scaled_reads _ _ _ h

theorem fractionPart_reads (cs : List Char) :
    ReadsNumber (fractionPart negative significand exponent cs) cs := by
  intro n rest h
  unfold fractionPart at h
  simp only at h
  split at h
  · cases h
  · obtain ⟨hfits, hsuffix⟩ := afterDigits_reads _ _ _ h
    exact ⟨hfits, hsuffix.trans (List.dropWhile_suffix isDigit)⟩

theorem wholeNumber_reads (hle : significand ≤ maxSignificand) (cs : List Char) :
    ReadsNumber (wholeNumber negative significand cs) cs := by
  intro n rest h
  have hmax : maxSignificand = 2 ^ 64 - 1 := rfl
  have hmin : Nat.pow 2 63 = 2 ^ 63 := rfl
  unfold wholeNumber at h
  split at h
  · cases h
    refine ⟨⟨?_, ?_⟩, List.suffix_refl _⟩ <;> omega
  · split at h
    next hrange =>
      cases h
      refine ⟨⟨?_, ?_⟩, List.suffix_refl _⟩ <;> omega
    next => exact scaled_reads _ _ _ h

theorem afterWhole_reads (hle : significand ≤ maxSignificand) (dropped : Nat)
    (cs : List Char) : ReadsNumber (afterWhole negative significand dropped cs) cs := by
  intro n rest h
  unfold afterWhole at h
  split at h
  · obtain ⟨hfits, hsuffix⟩ := fractionPart_reads _ _ _ h
    exact ⟨hfits, hsuffix.trans (List.suffix_cons _ _)⟩
  · split at h
    · exact wholeNumber_reads hle _ _ _ h
    · exact afterDigits_reads _ _ _ h

theorem number_reads (cs : List Char) : ReadsNumber (number negative cs) cs := by
  intro n rest h
  unfold number at h
  split at h
  · cases h
  · split at h
    · cases h
    · obtain ⟨hfits, hsuffix⟩ := afterWhole_reads (Nat.zero_le _) 0 _ _ _ h
      exact ⟨hfits, hsuffix.trans (List.suffix_cons _ _)⟩
  · simp only at h
    split at h
    · cases h
    · have hbound := appendDigits_le (Nat.zero_le maxSignificand) (cs.takeWhile isDigit)
      obtain ⟨hfits, hsuffix⟩ := afterWhole_reads hbound _ _ _ _ h
      exact ⟨hfits, hsuffix.trans (List.dropWhile_suffix isDigit)⟩

end Numbers

/-! ## Containers -/

/-- What a reader of values promises: values with a property, and the end of the text, which
    with the texts in the value is no longer than what has been read. -/
def Reads (item : List Char → Reading Json) (P : Json → Prop) : Prop :=
  ∀ cs j rest, item cs = .ok (j, rest) →
    P j ∧ rest <:+ cs ∧ j.room + rest.length ≤ cs.length

/-- An end of what stands behind the first character that is no blank is an end of the text. -/
theorem reads_behind {c : Char} {cs after rest : List Char} (hgap : skipGaps cs = c :: after)
    (hsuffix : rest <:+ after) : rest <:+ cs ∧ after.length < cs.length := by
  have hskip := suffix_of_skipGaps hgap
  have hlength := hskip.length_le
  rw [List.length_cons] at hlength
  exact ⟨hsuffix.trans ((List.suffix_cons c after).trans hskip), hlength⟩

section Containers

variable {item : List Char → Reading Json} {P : Json → Prop}

theorem roomOfItems_append (xs ys : List Json) :
    roomOfItems (xs ++ ys) = roomOfItems xs + roomOfItems ys := by
  induction xs with
  | nil => simp [roomOfItems]
  | cons x xs ih => simp [roomOfItems, ih, Nat.add_assoc]

/-- The items of a list end with its closing bracket. -/
theorem items_reads (hitem : Reads item P) {fuel : Nat} {done : List Json}
    {cs rest : List Char} {j : Json} (hdone : ∀ i ∈ done, P i)
    (h : Json.items item fuel done cs = .ok (j, rest)) :
    ∃ js, j = .arr js ∧ (∀ i ∈ js, P i) ∧ ']' :: rest <:+ cs ∧
      roomOfItems js + rest.length ≤ roomOfItems done.reverse + cs.length := by
  induction fuel generalizing done cs with
  | zero => cases h
  | succ fuel ih =>
    rw [Json.items] at h
    split at h
    · cases h
    next i after hread =>
      obtain ⟨hi, hafter, hroom⟩ := hitem _ _ _ hread
      have hdone' : ∀ k ∈ i :: done, P k := by
        intro k hk
        rcases List.mem_cons.1 hk with rfl | hk
        · exact hi
        · exact hdone k hk
      have hroom' : roomOfItems (i :: done).reverse = roomOfItems done.reverse + i.room := by
        rw [List.reverse_cons, roomOfItems_append]
        simp [roomOfItems]
      split at h
      · cases h
      next hgap =>
        cases h
        have hlt := (reads_behind hgap (List.suffix_refl _)).2
        exact ⟨_, rfl, fun k hk => hdone' k (List.mem_reverse.1 hk),
          (suffix_of_skipGaps hgap).trans hafter, by omega⟩
      next cs' hgap =>
        -- the items behind the comma are read from an end of the text
        obtain ⟨hnext, hlt⟩ := reads_behind hgap (skipGaps_suffix cs')
        have hle := (skipGaps_suffix cs').length_le
        split at h
        · cases h
        · cases h
        · obtain ⟨js, rfl, hjs, hclose, hsize⟩ := ih hdone' h
          exact ⟨js, rfl, hjs, hclose.trans (hnext.trans hafter), by omega⟩
      · cases h

theorem list_reads (hitem : Reads item P) {cs rest : List Char} {j : Json}
    (h : list item cs = .ok (j, rest)) :
    ∃ js, j = .arr js ∧ (∀ i ∈ js, P i) ∧ ']' :: rest <:+ cs ∧
      roomOfItems js + rest.length ≤ cs.length := by
  have hskip := skipGaps_suffix cs
  have hlength := hskip.length_le
  unfold list at h
  split at h
  · cases h
  next hgap =>
    cases h
    rw [hgap] at hskip hlength
    rw [List.length_cons] at hlength
    exact ⟨[], rfl, fun i hi => (by cases hi), hskip, by simp [roomOfItems]; omega⟩
  · obtain ⟨js, rfl, hjs, hclose, hsize⟩ := items_reads hitem (fun i hi => by cases hi) h
    simp only [List.reverse_nil, roomOfItems] at hsize
    exact ⟨js, rfl, hjs, hclose.trans hskip, by omega⟩

theorem mem_insert {key : String} {j : Json} {ms : Members} {m : String × Json}
    (hm : m ∈ ms.insert key j) : m = (key, j) ∨ m ∈ ms := by
  induction ms with
  | nil => exact .inl (List.mem_singleton.1 hm)
  | cons head rest ih =>
    rw [Members.insert] at hm
    split at hm
    · rcases List.mem_cons.1 hm with hm | hm
      · exact .inl hm
      · exact .inr (List.mem_cons_of_mem _ hm)
    · split at hm
      · exact (List.mem_cons.1 hm).imp_right id
      · rcases List.mem_cons.1 hm with rfl | hm
        · exact .inr List.mem_cons_self
        · exact (ih hm).imp_right (List.mem_cons_of_mem _)

/-- Putting a member keeps members in order. -/
theorem Ordered.insert {ms : Members} (hms : Ordered ms) (key : String) (j : Json) :
    Ordered (ms.insert key j) := by
  unfold Ordered at hms ⊢
  induction ms with
  | nil => exact List.pairwise_singleton _ _
  | cons m rest ih =>
    rw [List.map_cons, List.pairwise_cons] at hms
    rw [Members.insert]
    by_cases heq : key = m.1
    · rw [if_pos heq, List.map_cons, List.pairwise_cons]
      exact ⟨heq ▸ hms.1, hms.2⟩
    rw [if_neg heq]
    by_cases hlt : key < m.1
    · rw [if_pos hlt, List.map_cons, List.map_cons, List.pairwise_cons, List.pairwise_cons]
      refine ⟨fun k hk => ?_, hms⟩
      rcases List.mem_cons.1 hk with rfl | hk
      · exact hlt
      · exact lt_trans hlt (hms.1 k hk)
    · rw [if_neg hlt, List.map_cons, List.pairwise_cons]
      refine ⟨fun k hk => ?_, ih hms.2⟩
      obtain ⟨n, hn, rfl⟩ := List.mem_map.1 hk
      rcases mem_insert hn with rfl | hn
      · exact lt_of_le_of_ne (not_lt.1 hlt) (Ne.symm heq)
      · exact hms.1 _ (List.mem_map_of_mem hn)

theorem roomOfMembers_insert_le (key : String) (j : Json) (ms : Members) :
    roomOfMembers (ms.insert key j) ≤ roomOfMembers ms + j.room := by
  induction ms with
  | nil => simp [Members.insert, roomOfMembers]
  | cons m rest ih =>
    rw [Members.insert]
    split
    · simp only [roomOfMembers]
      omega
    · split <;> simp only [roomOfMembers] <;> omega

theorem member_reads (hitem : Reads item P) {cs rest : List Char} {key : String} {j : Json}
    (h : member item cs = .ok ((key, j), rest)) :
    P j ∧ rest <:+ cs ∧ j.room + rest.length ≤ cs.length := by
  unfold member at h
  split at h
  next cs' =>
    have hquote := List.suffix_cons '"' cs'
    split at h
    · cases h
    next key' after htext =>
      obtain ⟨hafter, hsize⟩ := text_reads htext
      split at h
      next after' hgap =>
        cases hread : item after' with
        | error fault =>
          rw [hread] at h
          cases h
        | ok read =>
          rw [hread] at h
          cases h
          obtain ⟨hj, hsuffix, hroom⟩ := hitem _ _ _ hread
          -- the value stands behind the colon, and the key before it
          obtain ⟨hcolon, hlt⟩ := reads_behind hgap hsuffix
          exact ⟨hj, hcolon.trans (hafter.trans hquote), by simp only [List.length_cons]; omega⟩
      · cases h
      · cases h
  · cases h

/-- The members of an object end with its closing bracket. -/
theorem members_reads (hitem : Reads item P) {fuel : Nat} {done : Members}
    {cs rest : List Char} {j : Json} (hordered : Ordered done) (hdone : ∀ m ∈ done, P m.2)
    (h : Json.members item fuel done cs = .ok (j, rest)) :
    ∃ ms, j = .obj ms ∧ Ordered ms ∧ (∀ m ∈ ms, P m.2) ∧ '\x7d' :: rest <:+ cs ∧
      roomOfMembers ms + rest.length ≤ roomOfMembers done + cs.length := by
  induction fuel generalizing done cs with
  | zero => cases h
  | succ fuel ih =>
    rw [Json.members] at h
    split at h
    · cases h
    next key i after hread =>
      obtain ⟨hi, hafter, hroom⟩ := member_reads hitem hread
      have hordered' := hordered.insert key i
      have hdone' : ∀ m ∈ done.insert key i, P m.2 := by
        intro m hm
        rcases mem_insert hm with rfl | hm
        · exact hi
        · exact hdone m hm
      have hroom' := roomOfMembers_insert_le key i done
      split at h
      · cases h
      next hgap =>
        cases h
        have hlt := (reads_behind hgap (List.suffix_refl _)).2
        exact ⟨_, rfl, hordered', hdone', (suffix_of_skipGaps hgap).trans hafter, by omega⟩
      next cs' hgap =>
        obtain ⟨hnext, hlt⟩ := reads_behind hgap (skipGaps_suffix cs')
        have hle := (skipGaps_suffix cs').length_le
        split at h
        · cases h
        · cases h
        · obtain ⟨ms, rfl, hms, hP, hclose, hsize⟩ := ih hordered' hdone' h
          exact ⟨ms, rfl, hms, hP, hclose.trans (hnext.trans hafter), by omega⟩
      · cases h

theorem objectBody_reads (hitem : Reads item P) {cs rest : List Char} {j : Json}
    (h : objectBody item cs = .ok (j, rest)) :
    ∃ ms, j = .obj ms ∧ Ordered ms ∧ (∀ m ∈ ms, P m.2) ∧ '\x7d' :: rest <:+ cs ∧
      roomOfMembers ms + rest.length ≤ cs.length := by
  have hskip := skipGaps_suffix cs
  have hlength := hskip.length_le
  have hnil : Ordered [] := List.Pairwise.nil
  unfold objectBody at h
  split at h
  · cases h
  next hgap =>
    cases h
    rw [hgap] at hskip hlength
    rw [List.length_cons] at hlength
    exact ⟨[], rfl, hnil, fun m hm => (by cases hm), hskip, by simp [roomOfMembers]; omega⟩
  · obtain ⟨ms, rfl, hms, hP, hclose, hsize⟩ :=
      members_reads hitem hnil (fun m hm => by cases hm) h
    simp only [roomOfMembers] at hsize
    exact ⟨ms, rfl, hms, hP, hclose.trans hskip, by omega⟩

end Containers

/-! ## Values -/

/-- A value that is no object is read if the rest and its texts fit behind its first character. -/
theorem reads_no_object {depth : Nat} {c : Char} {cs after rest : List Char} {j : Json}
    (hgap : skipGaps cs = c :: after) (hj : Readable depth j) (hsuffix : rest <:+ after)
    (hroom : j.room + rest.length ≤ after.length) (hother : ∀ ms, j ≠ .obj ms) :
    (Readable depth j ∧ rest <:+ cs ∧ j.room + rest.length ≤ cs.length) ∧
      ∀ ms, j = .obj ms → '\x7d' :: rest <:+ cs ∧ j.room + rest.length < cs.length := by
  obtain ⟨hbehind, hlt⟩ := reads_behind hgap hsuffix
  exact ⟨⟨hj, hbehind, by omega⟩, fun ms hms => absurd hms (hother ms)⟩

/-- How the reader of a value depends on the reader of the items of containers. An object
    ends with its closing bracket. -/
theorem valueWith_reads {item? : Option (List Char → Reading Json)} {depth : Nat}
    (hitem : ∀ item, item? = some item → ∃ below, depth = below + 1 ∧ Reads item (Readable below))
    {cs rest : List Char} {j : Json} (h : valueWith item? cs = .ok (j, rest)) :
    (Readable depth j ∧ rest <:+ cs ∧ j.room + rest.length ≤ cs.length) ∧
      ∀ ms, j = .obj ms → '\x7d' :: rest <:+ cs ∧ j.room + rest.length < cs.length := by
  unfold valueWith at h
  split at h
  · cases h
  next hgap =>
    obtain ⟨rfl, hword⟩ := word_reads h
    exact reads_no_object hgap (.null depth) hword (by simpa [room] using hword.length_le) (by simp)
  next hgap =>
    obtain ⟨rfl, hword⟩ := word_reads h
    exact reads_no_object hgap (.bool depth true) hword (by simpa [room] using hword.length_le)
      (by simp)
  next hgap =>
    obtain ⟨rfl, hword⟩ := word_reads h
    exact reads_no_object hgap (.bool depth false) hword (by simpa [room] using hword.length_le)
      (by simp)
  next after hgap =>
    cases htext : text after with
    | error fault =>
      rw [htext] at h
      cases h
    | ok read =>
      rw [htext] at h
      cases h
      obtain ⟨hbehind, hsize⟩ := text_reads htext
      exact reads_no_object hgap (.str depth _) hbehind (by simp only [room]; omega) (by simp)
  next after hgap =>
    cases hnumber : number true after with
    | error fault =>
      rw [hnumber] at h
      cases h
    | ok read =>
      rw [hnumber] at h
      cases h
      obtain ⟨hfits, hbehind⟩ := number_reads _ _ _ hnumber
      exact reads_no_object hgap (.num depth hfits) hbehind
        (by simpa [room] using hbehind.length_le) (by simp)
  next after hgap =>
    split at h
    next item =>
      obtain ⟨below, rfl, hreads⟩ := hitem item rfl
      obtain ⟨js, rfl, hjs, hclose, hsize⟩ := list_reads hreads h
      exact reads_no_object hgap (.arr hjs) ((List.suffix_cons _ _).trans hclose)
        (by simp only [room]; omega) (by simp)
    next => cases h
  next after hgap =>
    split at h
    next item =>
      obtain ⟨below, rfl, hreads⟩ := hitem item rfl
      obtain ⟨ms, rfl, hordered, hms, hclose, hsize⟩ := objectBody_reads hreads h
      obtain ⟨hsuffix, hlt⟩ := reads_behind hgap ((List.suffix_cons _ _).trans hclose)
      exact ⟨⟨.obj hordered hms, hsuffix, by simp only [room]; omega⟩,
        fun _ _ => ⟨(reads_behind hgap hclose).1, by simp only [room]; omega⟩⟩
    next => cases h
  next c after _ _ _ _ _ _ _ hgap =>
    have hskip := suffix_of_skipGaps hgap
    -- a number begins with its first digit, which is read again
    split at h
    · cases hnumber : number false (c :: after) with
      | error fault =>
        rw [hnumber] at h
        cases h
      | ok read =>
        rw [hnumber] at h
        cases h
        obtain ⟨hfits, hbehind⟩ := number_reads _ _ _ hnumber
        have hlength := (hbehind.trans hskip).length_le
        exact ⟨⟨.num depth hfits, hbehind.trans hskip, by simp only [room]; omega⟩,
          fun ms hms => by cases hms⟩
    · cases h

/-- A reader of values yields readable values, with no more text than it was given. -/
theorem value_reads (depth : Nat) : Reads (value depth) (Readable depth) := by
  induction depth with
  | zero =>
    intro cs j rest h
    exact (valueWith_reads (fun item hitem => by cases hitem) h).1
  | succ depth ih =>
    intro cs j rest h
    refine (valueWith_reads (fun item hitem => ?_) h).1
    cases hitem
    exact ⟨depth, rfl, ih⟩

/-- What a text is read as. -/
theorem parse_reads {s : String} {j : Json} (h : parse s = .ok j) :
    Readable maxDepth j ∧ j.room ≤ s.length := by
  unfold parse document at h
  split at h
  · cases h
  next i rest hread =>
    obtain ⟨hreadable, -, hroom⟩ := value_reads maxDepth _ _ _ hread
    rw [String.length_toList] at hroom
    split at h
    · cases h
      exact ⟨hreadable, by omega⟩
    · cases h

/-- The text of an object is longer than the texts in it, and ends with its closing bracket
    and blanks. -/
theorem parse_object_reads {s : String} {ms : Members} (h : parse s = .ok (.obj ms)) :
    (∃ rest, (∀ c ∈ rest, isGap c = true) ∧ '\x7d' :: rest <:+ s.toList) ∧
      roomOfMembers ms < s.length := by
  unfold parse document at h
  split at h
  · cases h
  next i rest hread =>
    have hitem : ∀ item, some (value (maxDepth - 1)) = some item →
        ∃ below, maxDepth = below + 1 ∧ Reads item (Readable below) := by
      intro item hitem
      cases hitem
      exact ⟨maxDepth - 1, rfl, value_reads _⟩
    split at h
    next hgaps =>
      cases h
      obtain ⟨hclose, hroom⟩ := (valueWith_reads hitem hread).2 ms rfl
      rw [String.length_toList, room] at hroom
      exact ⟨⟨rest, List.dropWhile_eq_nil_iff.1 hgaps, hclose⟩, by omega⟩
    next => cases h

end AssemblyLinker.Json
