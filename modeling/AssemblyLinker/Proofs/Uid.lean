import AssemblyLinker.Proofs.Text.Payload
import AssemblyLinker.Uid
import Mathlib.Algebra.Group.Nat.Defs
import Mathlib.Data.List.Induction

/-! # Canonical uids are written numbers

    Three checks make a uid canonical: the number of bytes, a reader that takes digits of
    either case, and a look at each byte that lets hyphens pass everywhere.  Of the reader no
    more is assumed than what it accepts among texts of that size (`ReadsHyphenated`).

    * Together the checks leave texts with hyphens at the hyphen places and lower-case digits
      elsewhere (`isCanonical_iff_wellPlaced`).
    * These are the hyphenated rows of 32 digits (`exists_hyphenate`), and each such row is that
      of one number of 128 bits (`exists_digits`, `digits_injective`).

    The main statement, `canonical_iff_written`, puts these together.
-/

namespace AssemblyLinker

namespace Uid

/-! ## Places -/

section Places

variable {α : Type} {isHyphen isDigit : α → Bool} {l g : List α}

theorem wellPlaced_iff {i : Nat} : wellPlaced isHyphen isDigit i l = true ↔
    ∀ (j : Nat) a, l[j]? = some a →
      (if isHyphenPlace (i + j) then isHyphen a else isDigit a) = true := by
  induction l generalizing i with
  | nil => simp [wellPlaced]
  | cons a l ih =>
    simp only [wellPlaced, Bool.and_eq_true, ih]
    constructor
    · rintro ⟨hhead, htail⟩ j b hb
      cases j with
      | zero =>
        cases hb
        exact hhead
      | succ j =>
        have hplace := htail j b hb
        rwa [Nat.add_right_comm, Nat.add_assoc] at hplace
    · intro hall
      refine ⟨hall 0 a rfl, fun j b hb => ?_⟩
      have hplace := hall (j + 1) b hb
      rwa [Nat.add_right_comm, Nat.add_assoc]

theorem wellPlaced_map {β : Type} (f : β → α) : ∀ (l : List β) (i : Nat),
    wellPlaced isHyphen isDigit i (l.map f) =
      wellPlaced (fun x => isHyphen (f x)) (fun x => isDigit (f x)) i l
  | [], _ => rfl
  | x :: l, i => by rw [List.map_cons, wellPlaced, wellPlaced, wellPlaced_map f l]

theorem wellPlaced_append : ∀ (l : List α) (rest : List α) (i : Nat),
    wellPlaced isHyphen isDigit i (l ++ rest) =
      (wellPlaced isHyphen isDigit i l && wellPlaced isHyphen isDigit (i + l.length) rest)
  | [], rest, i => rfl
  | a :: l, rest, i => by
    rw [List.cons_append, wellPlaced, wellPlaced, wellPlaced_append l, List.length_cons,
      Bool.and_assoc, Nat.add_right_comm, Nat.add_assoc]

/-- Between two hyphen places there are digits only. -/
theorem wellPlaced_group {i : Nat} (hgroup : ∀ j < g.length, isHyphenPlace (i + j) = false) :
    wellPlaced isHyphen isDigit i g = g.all isDigit := by
  induction g generalizing i with
  | nil => rfl
  | cons a g ih =>
    have hhead : isHyphenPlace i = false := hgroup 0 (Nat.zero_lt_succ _)
    have htail : ∀ j < g.length, isHyphenPlace (i + 1 + j) = false := by
      intro j hj
      rw [Nat.add_right_comm, Nat.add_assoc]
      exact hgroup (j + 1) (Nat.succ_lt_succ hj)
    rw [wellPlaced, hhead, ih htail, List.all_cons]
    rfl

/-- A group of digits up to the next hyphen place, the item there, and the others. -/
theorem wellPlaced_append_cons {a : α} {rest : List α} {i : Nat}
    (hgroup : ∀ j < g.length, isHyphenPlace (i + j) = false)
    (hplace : isHyphenPlace (i + g.length) = true) :
    wellPlaced isHyphen isDigit i (g ++ a :: rest) =
      (g.all isDigit && (isHyphen a && wellPlaced isHyphen isDigit (i + g.length + 1) rest)) := by
  rw [wellPlaced_append, wellPlaced_group hgroup, wellPlaced, hplace, if_pos rfl]

theorem exists_group {i : Nat} (count : Nat) (hl : wellPlaced isHyphen isDigit i l = true)
    (hlength : count < l.length) (hgroup : ∀ j < count, isHyphenPlace (i + j) = false)
    (hplace : isHyphenPlace (i + count) = true) :
    ∃ g a rest, l = g ++ a :: rest ∧ g.length = count ∧ g.all isDigit = true ∧
      isHyphen a = true ∧ wellPlaced isHyphen isDigit (i + count + 1) rest = true := by
  have hcut : l = l.take count ++ l[count] :: l.drop (count + 1) := by
    rw [List.getElem_cons_drop, List.take_append_drop]
  have hcount : (l.take count).length = count := List.length_take_of_le (Nat.le_of_lt hlength)
  rw [hcut, wellPlaced_append_cons (by rwa [hcount]) (by rwa [hcount]), hcount, Bool.and_eq_true,
    Bool.and_eq_true] at hl
  exact ⟨_, _, _, hcut, hcount, hl.1, hl.2.1, hl.2.2⟩

end Places

/-! ## Characters -/

/-- The lower-case hexadecimal digits. -/
def lowerHexDigits : List Char :=
  ['0', '1', '2', '3', '4', '5', '6', '7', '8', '9', 'a', 'b', 'c', 'd', 'e', 'f']

/-- Does a list of characters have hyphens at the hyphen places and lower-case digits
    elsewhere? -/
def isPlaced (cs : List Char) : Bool := wellPlaced (· = '-') (· ∈ lowerHexDigits) 0 cs

theorem mem_lowerHexDigits_iff {c : Char} : c ∈ lowerHexDigits ↔ ∃ d < 16, Nat.digitChar d = c := by
  have hdigits : lowerHexDigits = (List.range 16).map Nat.digitChar := rfl
  simp only [hdigits, List.mem_map, List.mem_range]

theorem plain_of_mem_lowerHexDigits {c : Char} (hc : c ∈ lowerHexDigits) :
    c ≠ '-' ∧ c.utf8Size = 1 ∧ c.isUpper = false := by
  obtain ⟨d, hd, rfl⟩ := mem_lowerHexDigits_iff.1 hc
  have hall : ∀ d < 16, Nat.digitChar d ≠ '-' ∧ (Nat.digitChar d).utf8Size = 1 ∧
      (Nat.digitChar d).isUpper = false := by decide
  exact hall d hd

/-- Hyphens and lower-case digits are ASCII characters, and their bytes tell them apart. -/
theorem byte_of_ascii : ∀ n < 128, let c := Char.ofNat n
    (decide (UInt8.ofNat c.toNat = 45) = decide (c = '-')) ∧
      isLowerHexByte (UInt8.ofNat c.toNat) = decide (c ∈ lowerHexDigits) := by
  decide

theorem byte_of_utf8Size {c : Char} (hc : c.utf8Size = 1) :
    (decide (UInt8.ofNat c.toNat = 45) = decide (c = '-')) ∧
      isLowerHexByte (UInt8.ofNat c.toNat) = decide (c ∈ lowerHexDigits) := by
  have hlt : c.toNat < 128 :=
    Nat.lt_succ_of_le (UInt32.le_iff_toNat_le.1 (Char.utf8Size_eq_one_iff.1 hc))
  have hbyte := byte_of_ascii c.toNat hlt
  rwa [Char.ofNat_toNat] at hbyte

theorem utf8Size_of_isPlaced {cs : List Char} (hcs : isPlaced cs = true) :
    ∀ c ∈ cs, c.utf8Size = 1 := by
  intro c hc
  obtain ⟨i, hi⟩ := List.mem_iff_getElem?.1 hc
  have hplace := wellPlaced_iff.1 hcs i c hi
  split at hplace
  · rw [of_decide_eq_true hplace]
    rfl
  · exact (plain_of_mem_lowerHexDigits (of_decide_eq_true hplace)).2.1

/-! ## What the three checks leave -/

/-- What is assumed of a reader of uids: among the texts with the number of bytes of a uid it
    accepts those with hyphens at the hyphen places and hexadecimal digits of either case
    elsewhere. -/
def ReadsHyphenated (reads : String → Bool) : Prop :=
  ∀ s, (Utf8.encode s).length = size → (reads s = true ↔
    ∀ (i : Nat) b, (Utf8.encode s)[i]? = some b →
      if isHyphenPlace i then b = 45 else isHexByte b = true)

theorem readsHyphenated_isReadable : ReadsHyphenated isReadable := by
  intro s _
  unfold isReadable
  rw [wellPlaced_iff]
  refine forall₃_congr fun i b _ => ?_
  rw [Nat.zero_add]
  split
  · exact decide_eq_true_iff
  · rfl

/-- A hyphen is no digit, so the reader and the look at the byte leave it at its places only. -/
theorem place_checked_iff (i : Nat) (b : UInt8) :
    ((if isHyphenPlace i then b = 45 else isHexByte b = true) ∧
      (b = 45 ∨ isLowerHexByte b = true)) ↔
        (if isHyphenPlace i then decide (b = 45) else isLowerHexByte b) = true := by
  split
  · rw [decide_eq_true_iff]
    exact and_iff_left_of_imp .inl
  · constructor
    · rintro ⟨hhex, rfl | hlower⟩
      · exact absurd hhex (by decide)
      · exact hlower
    · intro hlower
      exact ⟨by rw [isHexByte, hlower, Bool.true_or], .inr hlower⟩

theorem isCanonical_iff_wellPlaced {reads : String → Bool} (hreads : ReadsHyphenated reads)
    (s : String) : isCanonical s reads = true ↔ (Utf8.encode s).length = size ∧
      wellPlaced (· = 45) isLowerHexByte 0 (Utf8.encode s) = true := by
  unfold isCanonical
  simp only [Bool.and_eq_true, Bool.or_eq_true, decide_eq_true_eq, and_assoc, wellPlaced_iff,
    List.all_eq_true, Nat.zero_add]
  refine and_congr_right fun hsize => ?_
  rw [hreads s hsize]
  constructor
  · rintro ⟨hread, hplain⟩ i b hb
    exact (place_checked_iff i b).1 ⟨hread i b hb, hplain b (List.mem_of_getElem? hb)⟩
  · refine fun hall => ⟨fun i b hb => ((place_checked_iff i b).2 (hall i b hb)).1, fun b hb => ?_⟩
    obtain ⟨i, hi⟩ := List.mem_iff_getElem?.1 hb
    exact ((place_checked_iff i b).2 (hall i b hi)).2

/-- The bytes are in place exactly if the characters are. -/
theorem wellPlaced_encode_iff (s : String) :
    ((Utf8.encode s).length = size ∧ wellPlaced (· = 45) isLowerHexByte 0 (Utf8.encode s) = true) ↔
      s.length = size ∧ isPlaced s.toList = true := by
  -- where the characters are ASCII, each byte is one of them
  have hascii : (∀ c ∈ s.toList, c.utf8Size = 1) → (Utf8.encode s).length = s.length ∧
      wellPlaced (· = 45) isLowerHexByte 0 (Utf8.encode s) = isPlaced s.toList := by
    intro hs
    rw [Utf8.encode_of_ascii hs, List.length_map, String.length_toList, wellPlaced_map]
    refine ⟨rfl, ?_⟩
    rw [isPlaced, Bool.eq_iff_iff, wellPlaced_iff, wellPlaced_iff]
    refine forall₃_congr fun i c hc => ?_
    obtain ⟨hhyphen, hdigit⟩ := byte_of_utf8Size (hs c (List.mem_of_getElem? hc))
    rw [hhyphen, hdigit]
  constructor
  · rintro ⟨hsize, hplaced⟩
    -- bytes of longer characters are neither hyphens nor digits
    have hbytes : ∀ b ∈ Utf8.encode s, b.toNat < 128 := by
      intro b hb
      obtain ⟨i, hi⟩ := List.mem_iff_getElem?.1 hb
      have hplace := wellPlaced_iff.1 hplaced i b hi
      have hall : ∀ n < 256, (if isHyphenPlace (0 + i) then decide (UInt8.ofNat n = 45)
          else isLowerHexByte (UInt8.ofNat n)) = true → n < 128 := by
        cases isHyphenPlace (0 + i) <;> decide +kernel
      exact hall b.toNat b.toNat_lt (by rwa [UInt8.ofNat_toNat])
    obtain ⟨hlength, hsame⟩ := hascii (Utf8.utf8Size_eq_one_of_encode hbytes)
    exact ⟨hlength ▸ hsize, hsame ▸ hplaced⟩
  · rintro ⟨hsize, hplaced⟩
    obtain ⟨hlength, hsame⟩ := hascii (utf8Size_of_isPlaced hplaced)
    exact ⟨hlength.trans hsize, hsame.trans hplaced⟩

/-! ## Rows of digits -/

theorem hyphenate_append {g₁ g₂ g₃ g₄ g₅ : List Char} (h₁ : g₁.length = 8) (h₂ : g₂.length = 4)
    (h₃ : g₃.length = 4) (h₄ : g₄.length = 4) : hyphenate (g₁ ++ (g₂ ++ (g₃ ++ (g₄ ++ g₅)))) =
      g₁ ++ '-' :: (g₂ ++ '-' :: (g₃ ++ '-' :: (g₄ ++ '-' :: g₅))) := by
  simp [hyphenate, List.drop_append, List.drop_eq_nil_of_le, h₁, h₂, h₃, h₄]

/-- Texts with everything in its place are hyphenated rows of 32 digits. -/
theorem exists_hyphenate {cs : List Char} (hlength : cs.length = size) (hcs : isPlaced cs = true) :
    ∃ ds, ds.length = 32 ∧ (∀ d ∈ ds, d ∈ lowerHexDigits) ∧ cs = hyphenate ds := by
  have hsize : cs.length = 36 := hlength
  -- one group after the other comes off, with its hyphen
  obtain ⟨g₁, c₁, r₁, rfl, h₁, hg₁, hc₁, hr₁⟩ :=
    exists_group 8 hcs (by omega) (by decide) (by decide)
  rw [List.length_append, List.length_cons] at hsize
  obtain ⟨g₂, c₂, r₂, rfl, h₂, hg₂, hc₂, hr₂⟩ :=
    exists_group 4 hr₁ (by omega) (by decide) (by decide)
  rw [List.length_append, List.length_cons] at hsize
  obtain ⟨g₃, c₃, r₃, rfl, h₃, hg₃, hc₃, hr₃⟩ :=
    exists_group 4 hr₂ (by omega) (by decide) (by decide)
  rw [List.length_append, List.length_cons] at hsize
  obtain ⟨g₄, c₄, g₅, rfl, h₄, hg₄, hc₄, hg₅⟩ :=
    exists_group 4 hr₃ (by omega) (by decide) (by decide)
  rw [List.length_append, List.length_cons] at hsize
  have h₅ : g₅.length = 12 := by omega
  rw [wellPlaced_group (by rw [h₅]; decide)] at hg₅
  rw [of_decide_eq_true hc₁, of_decide_eq_true hc₂, of_decide_eq_true hc₃, of_decide_eq_true hc₄,
    ← hyphenate_append h₁ h₂ h₃ h₄]
  refine ⟨_, by simp [h₁, h₂, h₃, h₄, h₅], ?_, rfl⟩
  simp only [List.all_eq_true, decide_eq_true_eq] at hg₁ hg₂ hg₃ hg₄ hg₅
  simp only [List.mem_append]
  rintro d (hd | hd | hd | hd | hd)
  · exact hg₁ d hd
  · exact hg₂ d hd
  · exact hg₃ d hd
  · exact hg₄ d hd
  · exact hg₅ d hd

/-- Hyphenated rows of 32 digits have everything in its place. -/
theorem isPlaced_hyphenate {ds : List Char} (hlength : ds.length = 32)
    (hds : ∀ d ∈ ds, d ∈ lowerHexDigits) :
    (hyphenate ds).length = size ∧ isPlaced (hyphenate ds) = true := by
  have hdigits : ∀ {part}, part ⊆ ds → part.all (· ∈ lowerHexDigits) = true := fun hsubset =>
    List.all_eq_true.2 fun d hd => decide_eq_true (hds d (hsubset hd))
  have hfirst : (ds.take 8).length = 8 := by simp [hlength]
  have hlast : (ds.drop 20).length = 12 := by simp [hlength]
  have hmiddle : ∀ {k}, k ≤ 28 → ((ds.drop k).take 4).length = 4 := by
    intro k hk
    rw [List.length_take, List.length_drop, hlength]
    omega
  have hsubset : ∀ k, (ds.drop k).take 4 ⊆ ds := fun k =>
    List.Subset.trans (List.take_subset 4 _) (List.drop_subset k ds)
  -- five groups of digits, with a hyphen behind each of the first four
  have hshape : hyphenate ds = ds.take 8 ++ '-' :: ((ds.drop 8).take 4 ++ '-' ::
      ((ds.drop 12).take 4 ++ '-' :: ((ds.drop 16).take 4 ++ '-' :: ds.drop 20))) := by
    simp only [hyphenate, List.append_assoc, List.cons_append]
  rw [hshape]
  constructor
  · simp [hlength, size]
  · unfold isPlaced
    rw [wellPlaced_append_cons (by rw [hfirst]; decide) (by rw [hfirst]; decide), hfirst]
    iterate 3
      rw [wellPlaced_append_cons (by rw [hmiddle (by decide)]; decide)
        (by rw [hmiddle (by decide)]; decide), hmiddle (by decide)]
    rw [wellPlaced_group (by rw [hlast]; decide), hdigits (List.take_subset 8 ds),
      hdigits (hsubset 8), hdigits (hsubset 12), hdigits (hsubset 16),
      hdigits (List.drop_subset 20 ds)]
    rfl

/-- The digits of a hyphenated row, hyphens dropped. -/
theorem filter_hyphenate (ds : List Char) :
    (hyphenate ds).filter (· ≠ '-') = ds.filter (· ≠ '-') := by
  have hsplit : ∀ k n, ((ds.drop k).take n).filter (· ≠ '-') ++ (ds.drop (k + n)).filter (· ≠ '-') =
      (ds.drop k).filter (· ≠ '-') := by
    intro k n
    rw [← List.filter_append, ← List.drop_drop, List.take_append_drop]
  have hcons : ∀ rest : List Char, ('-' :: rest).filter (· ≠ '-') = rest.filter (· ≠ '-') :=
    fun _ => rfl
  rw [hyphenate]
  simp only [List.append_assoc, List.cons_append, List.filter_append, hcons]
  rw [hsplit 16 4, hsplit 12 4, hsplit 8 4]
  exact hsplit 0 8

/-- Rows of digits with one hyphenated form are the same. -/
theorem hyphenate_inj {ds es : List Char} (hds : ∀ d ∈ ds, d ∈ lowerHexDigits)
    (hes : ∀ d ∈ es, d ∈ lowerHexDigits) (h : hyphenate ds = hyphenate es) : ds = es := by
  have hkept : ∀ {row : List Char}, (∀ d ∈ row, d ∈ lowerHexDigits) →
      row.filter (· ≠ '-') = row := fun hrow =>
    List.filter_eq_self.2 fun d hd =>
      decide_eq_true (plain_of_mem_lowerHexDigits (hrow d hd)).1
  -- hyphens can be dropped again, since digits are none
  calc ds = (hyphenate ds).filter (· ≠ '-') := ((filter_hyphenate ds).trans (hkept hds)).symm
    _ = (hyphenate es).filter (· ≠ '-') := by rw [h]
    _ = es := (filter_hyphenate es).trans (hkept hes)

/-! ## Digits of a number -/

theorem length_digits (base : Nat) : ∀ count n, (digits base count n).length = count
  | 0, _ => rfl
  | count + 1, n => by rw [digits, List.length_append, length_digits, List.length_singleton]

theorem mem_digits {c : Char} : ∀ {count n : Nat}, c ∈ digits 16 count n → c ∈ lowerHexDigits
  | 0, _, h => absurd h List.not_mem_nil
  | _ + 1, n, h => by
    rcases List.mem_append.1 h with h | h
    · exact mem_digits h
    · rw [List.mem_singleton.1 h]
      exact mem_lowerHexDigits_iff.2 ⟨n % 16, Nat.mod_lt n (by decide), rfl⟩

/-- Each row of digits is that of a number. -/
theorem exists_digits {ds : List Char} (hds : ∀ d ∈ ds, d ∈ lowerHexDigits) :
    ∃ n < 16 ^ ds.length, digits 16 ds.length n = ds := by
  -- the last digit is the remainder, and those before it are the quotient
  induction ds using List.reverseRecOn with
  | nil => exact ⟨0, Nat.one_pos, rfl⟩
  | append_singleton ds c ih =>
    obtain ⟨n, hn, hdigits⟩ := ih fun d hd => hds d (List.mem_append_left _ hd)
    obtain ⟨v, hv, rfl⟩ := mem_lowerHexDigits_iff.1 (hds c (by simp))
    have hdiv : (16 * n + v) / 16 = n := by omega
    have hmod : (16 * n + v) % 16 = v := by omega
    rw [List.length_append, List.length_singleton]
    refine ⟨16 * n + v, ?_, by rw [digits, hdiv, hmod, hdigits]⟩
    rw [Nat.pow_succ]
    omega

/-- Numbers with the same digits are the same. -/
theorem digits_injective : ∀ {count n m : Nat}, n < 16 ^ count → m < 16 ^ count →
    digits 16 count n = digits 16 count m → n = m
  | 0, n, m, hn, hm, _ => by
    rw [Nat.pow_zero] at hn hm
    omega
  | count + 1, n, m, hn, hm, h => by
    obtain ⟨hfront, hlast⟩ := List.append_inj h (by rw [length_digits, length_digits])
    rw [Nat.pow_succ] at hn hm
    have hdiv : n / 16 = m / 16 := digits_injective (by omega) (by omega) hfront
    have hchars : ∀ v < 16, ∀ w < 16, Nat.digitChar v = Nat.digitChar w → v = w := by decide
    have hmod : n % 16 = m % 16 := hchars _ (Nat.mod_lt n (by decide)) _ (Nat.mod_lt m (by decide))
      (List.singleton_inj.1 hlast)
    omega

/-! ## Written numbers -/

theorem isCanonical_iff_isPlaced {reads : String → Bool} (hreads : ReadsHyphenated reads)
    (s : String) : isCanonical s reads = true ↔ s.length = size ∧ isPlaced s.toList = true :=
  (isCanonical_iff_wellPlaced hreads s).trans (wellPlaced_encode_iff s)

theorem isPlaced_iff {cs : List Char} : isPlaced cs = true ↔
    ∀ (i : Nat) c, cs[i]? = some c → if isHyphenPlace i then c = '-' else c ∈ lowerHexDigits := by
  rw [isPlaced, wellPlaced_iff]
  refine forall₃_congr fun i c _ => ?_
  rw [Nat.zero_add]
  split
  · exact decide_eq_true_iff
  · exact decide_eq_true_iff

/-- The texts with everything in its place are the numbers of 128 bits, written. -/
theorem isPlaced_iff_exists_ofNat (s : String) :
    (s.length = size ∧ isPlaced s.toList = true) ↔ ∃ n < 2 ^ 128, s = ofNat n := by
  have hpow : 16 ^ 32 = 2 ^ 128 := by decide
  constructor
  · rintro ⟨hlength, hplaced⟩
    obtain ⟨ds, hds, hdigits, hhyphenate⟩ :=
      exists_hyphenate ((String.length_toList).trans hlength) hplaced
    obtain ⟨n, hn, hwritten⟩ := exists_digits hdigits
    rw [hds] at hn hwritten
    refine ⟨n, hpow ▸ hn, ?_⟩
    rw [ofNat, hwritten, ← hhyphenate, String.ofList_toList]
  · rintro ⟨n, -, rfl⟩
    rw [← String.length_toList, ofNat, String.toList_ofList]
    exact isPlaced_hyphenate (length_digits 16 32 n) fun _ => mem_digits

theorem ofNat_injective {n m : Nat} (hn : n < 2 ^ 128) (hm : m < 2 ^ 128)
    (h : ofNat n = ofNat m) : n = m := by
  have hpow : 2 ^ 128 = 16 ^ 32 := by decide
  exact digits_injective (hpow ▸ hn) (hpow ▸ hm)
    (hyphenate_inj (fun _ => mem_digits) (fun _ => mem_digits) (String.ofList_injective h))

/-- A text is a canonical uid exactly if it is some number of 128 bits, written in lower-case
    hexadecimal in groups of 8, 4, 4, 4 and 12 digits.  Whatever reader is taken for the second
    check, as long as it reads hyphenated texts:

    * the number is the only one with that text;
    * these are the texts of 36 characters with hyphens at offsets 8, 13, 18 and 23 and lower-case
      digits elsewhere;
    * one character of more than a byte, one upper-case letter or one hyphen in the wrong place is
      enough for a text to be rejected, and so is one other character in the place of a hyphen. -/
theorem canonical_iff_written {reads : String → Bool} (hreads : ReadsHyphenated reads)
    (s : String) :
    (isCanonical s reads = true ↔ ∃! v : BitVec 128, s = ofNat v.toNat) ∧
      (isCanonical s reads = true ↔ s.length = 36 ∧ ∀ (i : Nat) c, s.toList[i]? = some c →
        if i ∈ [8, 13, 18, 23] then c = '-' else c ∈ lowerHexDigits) ∧
      (∀ (i : Nat) c, s.toList[i]? = some c →
        c.utf8Size ≠ 1 ∨ c.isUpper = true ∨ ¬ (c = '-' ↔ i ∈ [8, 13, 18, 23]) →
        isCanonical s reads = false) := by
  have hplaces : ∀ i : Nat, isHyphenPlace i = true ↔ i ∈ [8, 13, 18, 23] := by
    intro i
    simp [isHyphenPlace, or_assoc]
  have hform : isCanonical s reads = true ↔ s.length = 36 ∧ ∀ (i : Nat) c,
      s.toList[i]? = some c → if i ∈ [8, 13, 18, 23] then c = '-' else c ∈ lowerHexDigits := by
    rw [isCanonical_iff_isPlaced hreads, isPlaced_iff]
    simp only [hplaces, size]
  refine ⟨?_, hform, fun i c hc hwrong => ?_⟩
  · rw [isCanonical_iff_isPlaced hreads, isPlaced_iff_exists_ofNat]
    constructor
    · rintro ⟨n, hn, rfl⟩
      refine ⟨BitVec.ofNatLT n hn, rfl, fun v hv => ?_⟩
      exact BitVec.eq_of_toNat_eq (ofNat_injective v.isLt hn hv.symm)
    · rintro ⟨v, rfl, -⟩
      exact ⟨v.toNat, v.isLt, rfl⟩
  · -- what is in its place is a hyphen or a digit, and neither is any of these
    rw [Bool.eq_false_iff]
    intro hcanonical
    have hplace := (hform.1 hcanonical).2 i c hc
    split at hplace
    next hi =>
      have hplain : ('-').utf8Size = 1 ∧ ('-').isUpper = false := by decide
      subst hplace
      simp [hi, hplain] at hwrong
    next hi =>
      obtain ⟨hne, hbyte, hlower⟩ := plain_of_mem_lowerHexDigits hplace
      simp [hbyte, hlower, hi, hne] at hwrong

/-! ### A text that a reader of either case accepts -/

/-- Of two spellings of one number the reader takes both, and the lower-case one is canonical. -/
theorem lower_case_is_canonical :
    isReadable "0000000A-0000-4000-8000-00000000002A" = true ∧
      ReadsHyphenated isReadable ∧
      (∃! v : BitVec 128, "0000000a-0000-4000-8000-00000000002a" = ofNat v.toNat) ∧
      isCanonical "0000000A-0000-4000-8000-00000000002A" = false :=
  ⟨by rfl, readsHyphenated_isReadable,
    (canonical_iff_written readsHyphenated_isReadable _).1.1 (by rfl), by rfl⟩

end Uid

end AssemblyLinker
