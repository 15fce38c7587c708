import AssemblyLinker.Json.Parser
import AssemblyLinker.Json.Printer
import AssemblyLinker.Proofs.Binary64.Shortest

/-! # Numbers read back

    The text of a number is digits, perhaps with a point and an exponent, and the reader
    takes it apart as it was put together: the digits before the point, those behind it,
    and the exponent each have a lemma, and the two layouts of a floating-point number are
    assembled from them.

    A whole number is read back as it is.  A floating-point number need not be: what is
    read is rounded up to three times.  But it is read as some number (`exists_reading`),
    which is called `Number.reread`.
-/

namespace AssemblyLinker

namespace Json

/-! ## Digits -/

/-- What may stand behind a number: nothing that would carry it on. -/
def EndsNumber (rest : List Char) : Prop :=
  ∀ c, rest.head? = some c → isDigit c = false ∧ c ≠ '.' ∧ c ≠ 'e' ∧ c ≠ 'E'

theorem isDigit_of_mem_toDigits {n : Nat} {c : Char} (hc : c ∈ Nat.toDigits 10 n) :
    isDigit c = true := by
  have h := Nat.isDigit_of_mem_toDigits (by decide) (by decide) hc
  simpa [isDigit, Char.isDigit, Char.le_def] using h

/-- A nonempty sequence of digits, where nothing but the end follows. -/
theorem takeWhile_digits {ds rest : List Char} (hds : ∀ c ∈ ds, isDigit c = true)
    (hrest : ∀ c, rest.head? = some c → isDigit c = false) :
    (ds ++ rest).takeWhile isDigit = ds ∧ (ds ++ rest).dropWhile isDigit = rest := by
  have htail : rest.takeWhile isDigit = [] ∧ rest.dropWhile isDigit = rest := by
    cases rest with
    | nil => exact ⟨rfl, rfl⟩
    | cons c rest => simp [hrest c rfl]
  rw [List.takeWhile_append_of_pos hds, List.dropWhile_append_of_pos hds, htail.1, htail.2]
  exact ⟨List.append_nil ds, rfl⟩

theorem le_ofDigitChars (ds : List Char) (n : Nat) : n ≤ Nat.ofDigitChars 10 ds n := by
  rw [Nat.ofDigitChars_eq_ofDigitChars_zero]
  have := Nat.le_mul_of_pos_left n (Nat.pow_pos (n := ds.length) (by decide : 0 < 10))
  omega

/-- Digits are all appended as long as the number they make is within the bound. -/
theorem appendDigits_of_le {bound n : Nat} {ds : List Char}
    (h : Nat.ofDigitChars 10 ds n ≤ bound) :
    appendDigits bound n ds = (Nat.ofDigitChars 10 ds n, []) := by
  induction ds generalizing n with
  | nil => rfl
  | cons d ds ih =>
    have hstep : 10 * n + (d.toNat - '0'.toNat) = n * 10 + digitValue d := by
      rw [Nat.mul_comm]
      rfl
    rw [Nat.ofDigitChars_cons, hstep] at h ⊢
    have hle := Nat.le_trans (le_ofDigitChars ds _) h
    rw [appendDigits, if_neg (Nat.not_lt.2 hle)]
    exact ih h

/-! ## Parts of a number -/

section Parts

variable {negative : Bool} {rest : List Char}

/-- Do digits stand for a number as a number of JSON writes them? -/
structure IsWhole (ds : List Char) : Prop where
  nonempty : ds ≠ []
  digits : ∀ c ∈ ds, isDigit c = true
  leading : ds.head? = some '0' → ds = ['0']

theorem isWhole_toDigits (n : Nat) : IsWhole (Nat.toDigits 10 n) := by
  refine ⟨Nat.toDigits_ne_nil, fun c hc => isDigit_of_mem_toDigits hc, fun h => ?_⟩
  induction n using Nat.base_induction 10 (by decide) with
  | single m hm =>
    rw [Nat.toDigits_of_lt_base hm] at h ⊢
    simpa using h
  | digit m k hk hm ih =>
    rw [← Nat.toDigits_append_toDigits (by decide) hm hk] at h
    rw [List.head?_append, Option.or_of_isSome (by simp)] at h
    have hzero := congrArg (Nat.ofDigitChars 10 · 0) (ih h)
    simp [Nat.ofDigitChars_cons] at hzero
    omega

/-- The digits before the point are read as they stand. -/
theorem number_whole {ds : List Char} (hds : IsWhole ds)
    (hle : Nat.ofDigitChars 10 ds 0 ≤ maxSignificand)
    (hrest : ∀ c, rest.head? = some c → isDigit c = false) :
    number negative (ds ++ rest) = afterWhole negative (Nat.ofDigitChars 10 ds 0) 0 rest := by
  obtain ⟨htake, hdrop⟩ := takeWhile_digits hds.digits hrest
  cases ds with
  | nil => exact absurd rfl hds.nonempty
  | cons d ds =>
    by_cases hd : d = '0'
    · subst hd
      obtain rfl : ds = [] := by simpa using hds.leading rfl
      have hhead : (rest.head?.map isDigit).getD false = false := by
        cases hcase : rest.head? with
        | none => rfl
        | some c => simpa using hrest c hcase
      simp [number, hhead, Nat.ofDigitChars_cons]
    · rw [List.cons_append] at htake hdrop ⊢
      unfold number
      split
      next h => cases h
      next h => exact absurd (List.cons.inj h).1 hd
      next => simp [htake, hdrop, appendDigits_of_le hle]

/-- The digits behind the point belong to the significand. -/
theorem fractionPart_digits {significand : Nat} {start : Int} {ds : List Char}
    (hne : ds ≠ []) (hds : ∀ c ∈ ds, isDigit c = true)
    (hle : Nat.ofDigitChars 10 ds significand ≤ maxSignificand)
    (hrest : ∀ c, rest.head? = some c → isDigit c = false) :
    fractionPart negative significand start (ds ++ rest) =
      afterDigits negative (Nat.ofDigitChars 10 ds significand) (start - ds.length) rest := by
  obtain ⟨htake, hdrop⟩ := takeWhile_digits hds hrest
  simp [fractionPart, htake, hdrop, hne, appendDigits_of_le hle]

/-- The digits of an exponent. -/
theorem exponentPart_digits {significand : Nat} {start : Int} {ds : List Char} (down : Bool)
    (hne : ds ≠ []) (hds : ∀ c ∈ ds, isDigit c = true)
    (hle : Nat.ofDigitChars 10 ds 0 ≤ maxExponent)
    (hrest : ∀ c, rest.head? = some c → isDigit c = false) :
    exponentPart negative significand start ((if down then '-' else '+') :: (ds ++ rest)) =
      scaled negative significand
        (if down then start - Nat.ofDigitChars 10 ds 0 else start + Nat.ofDigitChars 10 ds 0)
        rest := by
  obtain ⟨htake, hdrop⟩ := takeWhile_digits hds hrest
  cases down <;>
    simp [exponentPart, exponentSign, htake, hdrop, hne, appendDigits_of_le hle]

/-- Where nothing follows, the digits make the number. -/
theorem afterDigits_end {significand : Nat} {exponent : Int} (hrest : EndsNumber rest) :
    afterDigits negative significand exponent rest =
      scaled negative significand exponent rest := by
  unfold afterDigits
  split
  next => exact absurd rfl (hrest _ rfl).2.2.1
  next => exact absurd rfl (hrest _ rfl).2.2.2
  next => rfl

theorem afterWhole_end {significand : Nat} (hrest : EndsNumber rest) :
    afterWhole negative significand 0 rest = wholeNumber negative significand rest := by
  unfold afterWhole
  split
  next => exact absurd rfl (hrest _ rfl).2.1
  next =>
    have he : rest.head? ≠ some 'e' := fun h => absurd rfl (hrest _ h).2.2.1
    have hE : rest.head? ≠ some 'E' := fun h => absurd rfl (hrest _ h).2.2.2
    simp [he, hE]

end Parts

/-! ## Whole numbers -/

/-- The whole numbers that are read as such. -/
def IsInteger (n : Int) : Prop := -2 ^ 63 ≤ n ∧ n < 2 ^ 64

theorem number_toDigits {n : Int} (hn : IsInteger n) {rest : List Char}
    (hrest : EndsNumber rest) :
    number (n < 0) (Nat.toDigits 10 n.natAbs ++ rest) = .ok (.whole n, rest) := by
  obtain ⟨hlow, hhigh⟩ := hn
  have hle : Nat.ofDigitChars 10 (Nat.toDigits 10 n.natAbs) 0 ≤ maxSignificand := by
    rw [Nat.ofDigitChars_ten_toDigits]
    have : maxSignificand = 2 ^ 64 - 1 := rfl
    omega
  rw [number_whole (isWhole_toDigits _) hle fun c hc => (hrest c hc).1,
    Nat.ofDigitChars_ten_toDigits, afterWhole_end hrest]
  unfold wholeNumber
  by_cases hneg : n < 0
  · have hbound : 0 < n.natAbs ∧ n.natAbs ≤ Nat.pow 2 63 := by
      have : Nat.pow 2 63 = 2 ^ 63 := rfl
      omega
    have habs : -(n.natAbs : Int) = n := by omega
    rw [if_neg (by simpa using hneg), if_pos hbound, habs]
  · have habs : (n.natAbs : Int) = n := by omega
    rw [if_pos (by simpa using hneg), habs]

/-! ## Floating-point numbers -/

section Scaled

variable {negative : Bool} {significand : Nat} {exponent : Int}

theorem scaled_of_some {x : Binary64}
    (hx : Binary64.ofDecimal? significand exponent = some x) (cs : List Char) :
    scaled negative significand exponent cs = .ok (.float (x.signed negative), cs) := by
  unfold scaled
  simp only [hx]

theorem scaled_of_none (hx : Binary64.ofDecimal? significand exponent = none)
    (cs : List Char) :
    scaled negative significand exponent cs = .error (.before .numberOutOfRange cs) := by
  unfold scaled
  simp only [hx]

end Scaled

/-- A text is read as a number that is scaled, whatever its sign. -/
structure Writes (body : List Char) (n : Nat) (e : Int) : Prop where
  leading : ∃ c rest, body = c :: rest ∧ isDigit c = true
  read : ∀ negative rest, EndsNumber rest →
    number negative (body ++ rest) = scaled negative n e rest

/-- Digits, the first of them not zero. -/
structure Significant (ds : List Char) : Prop where
  nonempty : ds ≠ []
  digits : ∀ c ∈ ds, isDigit c = true
  leading : ds.head? ≠ some '0'

theorem isDigit_zero : isDigit '0' = true := by decide

theorem mem_replicate_zero {k : Nat} {c : Char} (hc : c ∈ List.replicate k '0') :
    isDigit c = true := by
  rw [List.eq_of_mem_replicate hc]
  exact isDigit_zero

section Writes

variable {ds : List Char}

theorem Significant.isWhole (hds : Significant ds) : IsWhole ds :=
  ⟨hds.nonempty, hds.digits, fun h => absurd h hds.leading⟩

theorem IsWhole.exists_cons (hds : IsWhole ds) :
    ∃ c rest, ds = c :: rest ∧ isDigit c = true := by
  obtain ⟨c, rest, rfl⟩ := List.exists_cons_of_ne_nil hds.nonempty
  exact ⟨c, rest, rfl, hds.digits c List.mem_cons_self⟩

theorem not_isDigit_head {c : Char} (hc : isDigit c = false) (rest : List Char) :
    ∀ d, (c :: rest).head? = some d → isDigit d = false := by
  intro d hd
  obtain rfl : c = d := by simpa using hd
  exact hc

/-- Digits on both sides of a point. -/
theorem writes_point {fs : List Char} (hds : IsWhole ds) (hne : fs ≠ [])
    (hfs : ∀ c ∈ fs, isDigit c = true)
    (hle : Nat.ofDigitChars 10 fs (Nat.ofDigitChars 10 ds 0) ≤ maxSignificand) :
    Writes (ds ++ '.' :: fs) (Nat.ofDigitChars 10 (ds ++ fs) 0) (-fs.length) := by
  obtain ⟨c, cs, hcons, hdigit⟩ := hds.exists_cons
  refine ⟨⟨c, cs ++ '.' :: fs, by rw [hcons]; rfl, hdigit⟩, fun negative rest hrest => ?_⟩
  have hwhole : Nat.ofDigitChars 10 ds 0 ≤ maxSignificand :=
    Nat.le_trans (le_ofDigitChars fs _) hle
  have hpoint := not_isDigit_head (by decide : isDigit '.' = false) (fs ++ rest)
  rw [List.append_assoc, List.cons_append, number_whole hds hwhole hpoint]
  show fractionPart negative (Nat.ofDigitChars 10 ds 0) 0 (fs ++ rest) = _
  rw [fractionPart_digits hne hfs hle fun c hc => (hrest c hc).1, afterDigits_end hrest,
    Nat.ofDigitChars_append, Int.zero_sub]

/-- The exponent behind digits. -/
theorem writes_exponent {body : List Char} {n : Nat} {start lead : Int}
    (hleading : ∃ c rest, body = c :: rest ∧ isDigit c = true)
    (hbody : ∀ negative rest,
      number negative (body ++ 'e' :: rest) = exponentPart negative n start rest)
    (hlead : lead.natAbs ≤ maxExponent) :
    Writes (body ++ 'e' :: (if lead < 0 then '-' else '+') :: Nat.toDigits 10 lead.natAbs) n
      (start + lead) := by
  refine ⟨?_, fun negative rest hrest => ?_⟩
  · obtain ⟨c, cs, rfl, hdigit⟩ := hleading
    exact ⟨c, _, rfl, hdigit⟩
  have hdigits : ∀ c ∈ Nat.toDigits 10 lead.natAbs, isDigit c = true := fun c hc =>
    isDigit_of_mem_toDigits hc
  have hle : Nat.ofDigitChars 10 (Nat.toDigits 10 lead.natAbs) 0 ≤ maxExponent := by
    rwa [Nat.ofDigitChars_ten_toDigits]
  have hexponent := @exponentPart_digits negative rest n start _ (decide (lead < 0))
    Nat.toDigits_ne_nil hdigits hle fun c hc => (hrest c hc).1
  rw [Nat.ofDigitChars_ten_toDigits] at hexponent
  rw [List.append_assoc, List.cons_append, hbody, List.cons_append]
  -- the sign is written apart from the digits
  by_cases hneg : lead < 0
  · have habs : start - lead.natAbs = start + lead := by omega
    rw [← habs]
    simpa only [hneg, decide_true, if_true] using hexponent
  · have habs : start + lead.natAbs = start + lead := by omega
    rw [← habs]
    simpa only [hneg, decide_false, if_false, Bool.false_eq_true] using hexponent

theorem ofDigitChars_lt (ds : List Char) (hds : ∀ c ∈ ds, isDigit c = true) (n : Nat) :
    Nat.ofDigitChars 10 ds n < 10 ^ ds.length * (n + 1) := by
  induction ds generalizing n with
  | nil => simp
  | cons d ds ih =>
    have hd : d.toNat - '0'.toNat < 10 := by
      have h := hds d List.mem_cons_self
      simp only [isDigit, Bool.and_eq_true, decide_eq_true_eq, Char.le_def] at h
      have h9 : d.toNat ≤ 57 := h.2
      have h0 : '0'.toNat = 48 := rfl
      omega
    have hrest := ih (fun c hc => hds c (List.mem_cons_of_mem d hc)) (10 * n + (d.toNat - '0'.toNat))
    rw [Nat.ofDigitChars_cons, List.length_cons, Nat.pow_succ, Nat.mul_assoc]
    exact Nat.lt_of_lt_of_le hrest (Nat.mul_le_mul_left _ (by omega))

theorem ofDigitChars_append_zeros (ds : List Char) (k : Nat) :
    Nat.ofDigitChars 10 (ds ++ List.replicate k '0') 0 =
      Nat.ofDigitChars 10 ds 0 * 10 ^ k := by
  rw [Nat.ofDigitChars_append, Nat.ofDigitChars_replicate_zero, Nat.mul_comm]

theorem Significant.append (hds : Significant ds) {fs : List Char}
    (hfs : ∀ c ∈ fs, isDigit c = true) : Significant (ds ++ fs) := by
  obtain ⟨d, ds, rfl⟩ := List.exists_cons_of_ne_nil hds.nonempty
  refine ⟨by simp, fun c hc => ?_, hds.leading⟩
  rcases List.mem_append.1 hc with hc | hc
  · exact hds.digits c hc
  · exact hfs c hc

theorem Significant.lt_pow (hds : Significant ds) {k : Nat} (hlength : ds.length ≤ k) :
    Nat.ofDigitChars 10 ds 0 < 10 ^ k := by
  have hlt := ofDigitChars_lt ds hds.digits 0
  have hpow : 10 ^ ds.length ≤ 10 ^ k := Nat.pow_le_pow_right (by decide) hlength
  omega

theorem pow_le_maxSignificand : 10 ^ 17 ≤ maxSignificand := by decide

/-- A decimal below one. -/
theorem writes_behind_point (hds : Significant ds) (hlength : ds.length ≤ 17) (zeros : Nat) :
    ∃ n e, n ≤ 10 ^ 17 ∧ e < 0 ∧
      Writes ('0' :: '.' :: List.replicate zeros '0' ++ ds) n e := by
  have hpos : 0 < ds.length := List.length_pos_iff.2 hds.nonempty
  have hlt := hds.lt_pow hlength
  have hmax := pow_le_maxSignificand
  have hzeros : ∀ c ∈ List.replicate zeros '0' ++ ds, isDigit c = true := by
    intro c hc
    rcases List.mem_append.1 hc with hc | hc
    · exact mem_replicate_zero hc
    · exact hds.digits c hc
  -- zeros in front of its digits leave a number as it is
  have hvalue : ∀ start, start = 0 → Nat.ofDigitChars 10 (List.replicate zeros '0' ++ ds) start =
      Nat.ofDigitChars 10 ds 0 := by
    rintro start rfl
    rw [Nat.ofDigitChars_append, Nat.ofDigitChars_replicate_zero, Nat.mul_zero]
  have hwhole : IsWhole ['0'] := ⟨by simp, by simp [isDigit_zero], fun _ => rfl⟩
  have hle : Nat.ofDigitChars 10 (List.replicate zeros '0' ++ ds) (Nat.ofDigitChars 10 ['0'] 0) ≤
      maxSignificand := by
    rw [hvalue (Nat.ofDigitChars 10 ['0'] 0) rfl]
    omega
  have hwrites := writes_point hwhole (by simp [hds.nonempty]) hzeros hle
  refine ⟨_, _, ?_, ?_, hwrites⟩
  · have happend : Nat.ofDigitChars 10 (['0'] ++ (List.replicate zeros '0' ++ ds)) 0 =
        Nat.ofDigitChars 10 ds 0 := hvalue _ rfl
    omega
  · simp only [List.length_append]
    omega

/-- A decimal with zeros between its digits and the point. -/
theorem writes_before_point (hds : Significant ds) {zeros : Nat}
    (hlength : ds.length + zeros ≤ 16) :
    ∃ n e, n ≤ 10 ^ 17 ∧ e < 0 ∧
      Writes (ds ++ List.replicate zeros '0' ++ ['.', '0']) n e := by
  have hmax := pow_le_maxSignificand
  have hsig : Significant (ds ++ List.replicate zeros '0') :=
    hds.append fun c hc => mem_replicate_zero hc
  have hlt := hsig.lt_pow (k := 16) (by simpa using hlength)
  have hzero : ∀ n, Nat.ofDigitChars 10 ['0'] n = 10 * n := by
    intro n
    simp [Nat.ofDigitChars_cons]
  have hle : Nat.ofDigitChars 10 ['0'] (Nat.ofDigitChars 10 (ds ++ List.replicate zeros '0') 0) ≤
      maxSignificand := by
    rw [hzero]
    omega
  refine ⟨_, _, ?_, by decide, writes_point hsig.isWhole (by simp) (by simp [isDigit_zero]) hle⟩
  rw [Nat.ofDigitChars_append, hzero]
  omega

/-- A decimal with the point between its digits. -/
theorem writes_around_point (hds : Significant ds) (hlength : ds.length ≤ 17) {whole : Nat}
    (hpos : 0 < whole) (hwhole : whole < ds.length) :
    ∃ n e, n ≤ 10 ^ 17 ∧ e < 0 ∧ Writes (ds.take whole ++ '.' :: ds.drop whole) n e := by
  have hlt := hds.lt_pow hlength
  have hmax := pow_le_maxSignificand
  have hsplit : ds.take whole ++ ds.drop whole = ds := List.take_append_drop _ ds
  have htake : IsWhole (ds.take whole) := by
    obtain ⟨d, fs, rfl⟩ := List.exists_cons_of_ne_nil hds.nonempty
    obtain ⟨k, rfl⟩ := Nat.exists_eq_add_of_lt hpos
    have hfirst : Significant ((d :: fs).take (0 + k + 1)) :=
      ⟨by simp, fun c hc => hds.digits c (List.mem_of_mem_take hc), by simpa using hds.leading⟩
    exact hfirst.isWhole
  have hle : Nat.ofDigitChars 10 (ds.drop whole) (Nat.ofDigitChars 10 (ds.take whole) 0) ≤
      maxSignificand := by
    rw [← Nat.ofDigitChars_append, hsplit]
    omega
  have hlen : (ds.drop whole).length = ds.length - whole := List.length_drop
  refine ⟨_, _, ?_, by omega, writes_point htake (List.ne_nil_of_length_pos (by omega))
    (fun c hc => hds.digits c (List.mem_of_mem_drop hc)) hle⟩
  rw [hsplit]
  omega

/-- The decimals that are written without an exponent. -/
theorem writes_positional (hds : Significant ds) (hlength : ds.length ≤ 17) {lead : Int}
    (hlead : lead ≤ 15) :
    ∃ n e, n ≤ 10 ^ 17 ∧ e < 0 ∧ Writes (Binary64.positional ds lead) n e := by
  unfold Binary64.positional
  by_cases hneg : lead < 0
  · rw [if_pos hneg]
    exact writes_behind_point hds hlength _
  · rw [if_neg hneg]
    simp only
    split
    next hle => exact writes_before_point hds (by omega)
    next hgt => exact writes_around_point hds hlength (Nat.succ_pos _) (by omega)

/-- The decimals that are written with an exponent. -/
theorem writes_scientific (hds : Significant ds) (hlength : ds.length ≤ 17) {lead : Int}
    (hlead : lead.natAbs ≤ maxExponent) :
    Writes (Binary64.scientific ds lead) (Nat.ofDigitChars 10 ds 0)
      (lead - (ds.length - 1 : Nat)) := by
  have hlt := hds.lt_pow hlength
  have hmax := pow_le_maxSignificand
  obtain ⟨d, fs, rfl⟩ := List.exists_cons_of_ne_nil hds.nonempty
  have hd := hds.digits d List.mem_cons_self
  have hfs : ∀ c ∈ fs, isDigit c = true := fun c hc => hds.digits c (List.mem_cons_of_mem d hc)
  have hwhole : IsWhole [d] := ⟨by simp, by simpa using hd, by simp⟩
  have hdone : Nat.ofDigitChars 10 [d] 0 ≤ maxSignificand :=
    Nat.le_trans (le_ofDigitChars fs _) (by
      rw [← Nat.ofDigitChars_append, List.singleton_append]
      omega)
  have hmark := not_isDigit_head (by decide : isDigit 'e' = false)
  have hexponent : lead - ((d :: fs).length - 1 : Nat) = -(fs.length : Int) + lead := by
    simp only [List.length_cons]
    omega
  rw [hexponent]
  unfold Binary64.scientific
  simp only [List.take_succ_cons, List.take_zero, List.drop_succ_cons, List.drop_zero]
  -- a single digit is written without a point
  cases fs with
  | nil =>
    refine writes_exponent ⟨d, [], rfl, hd⟩ (fun negative rest => ?_) hlead
    rw [List.isEmpty_nil, if_pos rfl, List.append_nil, number_whole hwhole hdone (hmark rest)]
    rfl
  | cons f fs =>
    refine writes_exponent ⟨d, _, rfl, hd⟩ (fun negative rest => ?_) hlead
    have hpoint := not_isDigit_head (by decide : isDigit '.' = false)
    rw [List.isEmpty_cons, if_neg (by simp)]
    show number negative ([d] ++ '.' :: (f :: fs ++ 'e' :: rest)) = _
    rw [number_whole hwhole hdone (hpoint _)]
    show fractionPart negative (Nat.ofDigitChars 10 [d] 0) 0 (f :: fs ++ 'e' :: rest) = _
    rw [fractionPart_digits (by simp) hfs (by
      rw [← Nat.ofDigitChars_append, List.singleton_append]
      omega) (hmark rest), ← Nat.ofDigitChars_append, Int.zero_sub]
    rfl

end Writes

/-- The digits of a decimal, without the zeros at their end. -/
theorem significant_toDigits {d : Binary64.Decimal} (hpos : 0 < d.digits) :
    Significant d.significant ∧ ∃ k, Nat.toDigits 10 d.digits =
      d.significant ++ List.replicate k '0' := by
  have hsplit : Nat.toDigits 10 d.digits = d.significant ++
      List.replicate ((Nat.toDigits 10 d.digits).reverse.takeWhile (· = '0')).length '0' := by
    have hzeros := List.eq_replicate_of_mem (fun c hc => by
      simpa using List.all_eq_true.1 List.all_takeWhile c hc :
      ∀ c ∈ (Nat.toDigits 10 d.digits).reverse.takeWhile (· = '0'), c = '0')
    rw [Binary64.Decimal.significant, ← List.reverse_replicate, ← hzeros, ← List.reverse_append,
      List.takeWhile_append_dropWhile, List.reverse_reverse]
  generalize ((Nat.toDigits 10 d.digits).reverse.takeWhile (· = '0')).length = k at hsplit
  have hvalue : Nat.ofDigitChars 10 (d.significant ++ List.replicate k '0') 0 = d.digits := by
    rw [← hsplit, Nat.ofDigitChars_ten_toDigits]
  -- zeros alone would make up zero
  have hne : d.significant ≠ [] := by
    intro hnil
    rw [hnil, List.nil_append, Nat.ofDigitChars_replicate_zero] at hvalue
    omega
  refine ⟨⟨hne, fun c hc => ?_, fun hhead => ?_⟩, k, hsplit⟩
  · refine isDigit_of_mem_toDigits (n := d.digits) ?_
    rw [hsplit]
    exact List.mem_append_left _ hc
  · have hzero := (isWhole_toDigits d.digits).leading (by
      rw [hsplit, List.head?_append, hhead]
      rfl)
    have := congrArg (Nat.ofDigitChars 10 · 0) hzero
    simp [Nat.ofDigitChars_cons] at this
    omega

/-- A decimal that can be written is at most 17 digits that count, and zeros behind them. -/
theorem exists_zeros {d : Binary64.Decimal} (hd : d.Writable) :
    Significant d.significant ∧ d.significant.length ≤ 17 ∧ ∃ k : Nat,
      d.digits = Nat.ofDigitChars 10 d.significant 0 * 10 ^ k ∧
      d.leadingExponent = (d.significant.length + k : Nat) - 1 + d.exponent ∧
      d.significant.length + k ≤ 18 := by
  obtain ⟨hsig, k, hsplit⟩ := significant_toDigits hd.pos
  have hvalue : d.digits = Nat.ofDigitChars 10 d.significant 0 * 10 ^ k := by
    rw [← ofDigitChars_append_zeros, ← hsplit, Nat.ofDigitChars_ten_toDigits]
  have hlength : (Nat.toDigits 10 d.digits).length = d.significant.length + k := by
    rw [hsplit, List.length_append, List.length_replicate]
  have hdigits : d.digits ≤ 10 ^ 17 := hd.digits_le
  -- a power of ten has one digit that counts, and smaller numbers have few digits at all
  have hseventeen : d.significant.length ≤ 17 := by
    rcases Nat.eq_or_lt_of_le hdigits with heq | hlt
    · have hone : d.significant = ['1'] := by
        rw [Binary64.Decimal.significant, heq]
        decide
      rw [hone]
      decide
    · have hfew := (Nat.length_toDigits_le_iff (by decide) (by decide)).2 hlt
      omega
  have htotal : (Nat.toDigits 10 d.digits).length ≤ 18 := by
    rw [Nat.length_toDigits_le_iff (by decide) (by decide)]
    omega
  refine ⟨hsig, hseventeen, k, hvalue, ?_, hlength ▸ htotal⟩
  rw [Binary64.Decimal.leadingExponent, hlength]

/-- The digits that count have a number in the range, with the zeros behind them moved into the
    exponent. -/
theorem ofDecimal?_significant {d : Binary64.Decimal} (hd : d.Writable) {k : Nat}
    (hvalue : d.digits = Nat.ofDigitChars 10 d.significant 0 * 10 ^ k) :
    (Binary64.ofDecimal? (Nat.ofDigitChars 10 d.significant 0) (d.exponent + k)).isSome := by
  have hpow : ∀ m, Binary64.pow10 m = 10 ^ m := fun m => rfl
  have hdigits : d.digits ≤ 10 ^ 17 := hd.digits_le
  have htens : 1 ≤ 10 ^ k := Nat.one_le_pow _ _ (by decide)
  have hle : Nat.ofDigitChars 10 d.significant 0 ≤ Binary64.pow10 17 := by
    have hmul := Nat.le_mul_of_pos_right (Nat.ofDigitChars 10 d.significant 0) htens
    rw [hpow]
    omega
  refine Binary64.ofDecimal?_isSome hle (fun h => ?_) (.inl ?_) (fun hn he => ?_)
  · rcases lt_or_ge d.exponent 0 with hneg | hnonneg
    -- the value is below that of the digits alone
    · have hle' : Binary64.pow10 (d.exponent + k).toNat ≤ 10 ^ k := Binary64.pow10_le (by omega)
      have htop := Binary64.pow10_lt_top (e := 17) (by decide)
      rw [hpow] at htop
      calc Nat.ofDigitChars 10 d.significant 0 * Binary64.pow10 (d.exponent + k).toNat
          ≤ Nat.ofDigitChars 10 d.significant 0 * 10 ^ k := Nat.mul_le_mul_left _ hle'
        _ = d.digits := hvalue.symm
        _ ≤ Binary64.top := Nat.le_trans hdigits (Nat.le_of_lt htop)
    · have hsum : (d.exponent + k).toNat = k + d.exponent.toNat := by omega
      have htop := hd.le_top hnonneg
      rwa [hsum, Binary64.pow10_add, ← Nat.mul_assoc, hpow k, ← hvalue]
  · have hdpos := hd.pos
    rw [hvalue] at hdpos
    exact Nat.pos_of_mul_pos_right hdpos
  · -- no zero can be missing from a decimal with that many digits
    rcases Nat.eq_zero_or_pos k with rfl | hk
    · rw [Nat.pow_zero, Nat.mul_one] at hvalue
      exact hd.ne (hvalue.trans hn) (by omega)
    · have hten : 10 ≤ 10 ^ k := Nat.le_self_pow (by omega) 10
      rw [hn] at hvalue
      omega

/-- The text of a positive number without its sign. -/
theorem writes_decimal {d : Binary64.Decimal} (hd : d.Writable) :
    ∃ n e, (Binary64.ofDecimal? n e).isSome ∧
      Writes (if Binary64.isPositional d.leadingExponent then
        Binary64.positional d.significant d.leadingExponent
      else Binary64.scientific d.significant d.leadingExponent) n e := by
  obtain ⟨hsig, hseventeen, k, hvalue, hleading, htotal⟩ := exists_zeros hd
  split
  next hpositional =>
    have hlead : d.leadingExponent ≤ 15 := by
      simp only [Binary64.isPositional, Bool.and_eq_true, decide_eq_true_eq] at hpositional
      exact hpositional.2
    obtain ⟨n, e, hn, he, hwrites⟩ := writes_positional hsig hseventeen hlead
    -- a negative exponent leaves no number out of the range
    refine ⟨n, e, Binary64.ofDecimal?_isSome hn (fun h => ?_) (.inr he) (fun _ h => ?_), hwrites⟩ <;>
      omega
  next =>
    have hpos : 0 < d.significant.length := List.length_pos_iff.2 hsig.nonempty
    have hlow := hd.exponent_low
    have hhigh := hd.exponent_high
    have hlead : d.leadingExponent.natAbs ≤ maxExponent := by
      have hmax : maxExponent = 2 ^ 31 - 1 := rfl
      omega
    have hexponent : d.leadingExponent - (d.significant.length - 1 : Nat) = d.exponent + k := by
      omega
    refine ⟨_, _, ?_, writes_scientific hsig hseventeen hlead⟩
    rw [hexponent]
    exact ofDecimal?_significant hd hvalue

theorem writes_zero : Writes ['0', '.', '0'] 0 (-1) := by
  have hwhole : IsWhole ['0'] := ⟨by simp, by simp [isDigit_zero], fun _ => rfl⟩
  exact writes_point hwhole (by simp) (by simp [isDigit_zero]) (by decide)

/-- The text of a number of the format: a sign, and a decimal that is in range. -/
theorem writes_text {x : Binary64} (hx : x.InFormat) :
    ∃ body n e, x.text = (if x.negative then '-' :: body else body) ∧
      (Binary64.ofDecimal? n e).isSome ∧ Writes body n e := by
  have hzero : (Binary64.ofDecimal? 0 (-1)).isSome :=
    Binary64.ofDecimal?_isSome (Nat.zero_le _) (fun h => absurd h (by decide))
      (.inr (by decide)) (fun h => absurd h (by decide))
  unfold Binary64.text
  by_cases hsignificand : x.significand = 0
  · rw [if_pos hsignificand]
    exact ⟨_, 0, -1, rfl, hzero, writes_zero⟩
  · rw [if_neg hsignificand]
    rcases Binary64.shortest_writable hx (Nat.pos_of_ne_zero hsignificand) with hd | hd
    · obtain ⟨n, e, hrange, hwrites⟩ := writes_decimal hd
      exact ⟨_, n, e, rfl, hrange, hwrites⟩
    · rw [hd]
      exact ⟨_, 0, -1, rfl, hzero, writes_zero⟩

end Json

/-! ## Numbers read back -/

/-- The number that is read for the text of a number. -/
def Number.reread (n : Number) : Number :=
  let reading :=
    match n.text with
    | '-' :: cs => Json.number true cs
    | cs => Json.number false cs
  match reading with
  | .ok (m, _) => m
  | .error _ => n

/-- A number that a text may stand for: a whole one that fits 64 bits, or one of the
    format. -/
def Number.Readable : Number → Prop
  | .whole n => Json.IsInteger n
  | .float x => x.InFormat

namespace Json

theorem ne_minus_of_isDigit {c : Char} (hc : isDigit c = true) : c ≠ '-' := by
  rintro rfl
  exact absurd hc (by decide)

/-- What is read for the text of a number. -/
theorem reread_eq {n m : Number} {negative : Bool} {c : Char} {cs : List Char}
    (hdigit : isDigit c = true) (htext : n.text = (if negative then '-' :: c :: cs else c :: cs))
    (hread : number negative (c :: cs) = .ok (m, [])) : n.reread = m := by
  unfold Number.reread
  rw [htext]
  cases negative with
  | true => simp [hread]
  | false =>
    -- a digit is not taken for the sign
    have hsign := ne_minus_of_isDigit hdigit
    simp only [Bool.false_eq_true, if_false]
    split
    next h =>
      split at h
      next heq => exact absurd (List.cons.inj heq).1 hsign
      next =>
        rw [hread] at h
        cases h
        rfl
    next h =>
      split at h
      next heq => exact absurd (List.cons.inj heq).1 hsign
      next =>
        rw [hread] at h
        cases h

/-- The text of a number is a sign and digits, or digits, and is read back whatever ends
    it. -/
theorem exists_reading {n : Number} (hn : n.Readable) :
    ∃ negative c cs, isDigit c = true ∧
      n.text = (if negative then '-' :: c :: cs else c :: cs) ∧
      ∀ rest, EndsNumber rest → number negative (c :: cs ++ rest) = .ok (n.reread, rest) := by
  -- it is enough to know one number that is read, whatever ends the text
  suffices h : ∃ negative c cs m, isDigit c = true ∧
      n.text = (if negative then '-' :: c :: cs else c :: cs) ∧
      ∀ rest, EndsNumber rest → number negative (c :: cs ++ rest) = .ok (m, rest) by
    obtain ⟨negative, c, cs, m, hdigit, htext, hread⟩ := h
    have halone := hread [] fun c hc => by cases hc
    rw [List.append_nil] at halone
    exact ⟨negative, c, cs, hdigit, htext, reread_eq hdigit htext halone ▸ hread⟩
  cases n with
  | whole n =>
    obtain ⟨c, cs, hcons, hdigit⟩ := (isWhole_toDigits n.natAbs).exists_cons
    refine ⟨n < 0, c, cs, .whole n, hdigit, by simp [Number.text, hcons], fun rest hrest => ?_⟩
    rw [← hcons]
    exact number_toDigits hn hrest
  | float x =>
    obtain ⟨body, n, e, htext, hrange, ⟨c, cs, rfl, hdigit⟩, hread⟩ := writes_text hn
    obtain ⟨y, hy⟩ := Option.isSome_iff_exists.1 hrange
    refine ⟨x.negative, c, cs, .float (y.signed x.negative), hdigit, htext,
      fun rest hrest => ?_⟩
    rw [hread _ _ hrest, scaled_of_some hy]

/-- A whole number is read back as it is. -/
theorem reread_whole {n : Int} (hn : IsInteger n) : (Number.whole n).reread = .whole n := by
  obtain ⟨c, cs, hcons, hdigit⟩ := (isWhole_toDigits n.natAbs).exists_cons
  have hnil : EndsNumber [] := fun c hc => by cases hc
  have hread := number_toDigits hn hnil
  rw [List.append_nil, hcons] at hread
  exact reread_eq hdigit (by simp [Number.text, hcons]) hread

end Json

end AssemblyLinker
