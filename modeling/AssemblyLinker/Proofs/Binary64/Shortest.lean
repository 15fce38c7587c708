import AssemblyLinker.Binary64.Shortest
import AssemblyLinker.Proofs.Binary64.Decimals

/-! # The decimals that numbers are written with

    The search for the shortest decimal looks at the two decimals of a grid that enclose a
    number, first on the coarsest grid.  On the grid for `count` digits both have that many
    digits, but for a carry, and the one that is chosen lies within half a step of the
    number.  So it lies below the end of the range, and never where rounding would carry
    it over.
-/

namespace AssemblyLinker

namespace Binary64

/-- The number of decimal digits of the whole part in the finest unit. -/
def fineDigits (x : Binary64) : Nat :=
  (Nat.toDigits 10 (x.units * pow10 places / pow2 1074)).length

theorem decimalExponent_eq (x : Binary64) :
    x.decimalExponent = (x.fineDigits : Int) - 1 - places := rfl

/-- The decimal of a grid that is nearest to a number. -/
def decimalOn? (x : Binary64) (exponent : Int) : Option Decimal :=
  let step := 4 * pow2 1074 * pow10 (exponent + places).toNat
  let below := x.magnitude / step
  let rest := x.magnitude % step
  let above := below + 1
  match x.readsBack (below * step), x.readsBack (above * step) with
  | true, true =>
    if 2 * rest < step ∨ (2 * rest = step ∧ below % 2 = 0) then some ⟨below, exponent⟩
    else some ⟨above, exponent⟩
  | true, false => some ⟨below, exponent⟩
  | false, true => some ⟨above, exponent⟩
  | false, false => none

theorem decimalOfLength?_eq (x : Binary64) (count : Nat) :
    x.decimalOfLength? count = x.decimalOn? (x.decimalExponent - count + 1) := by
  unfold decimalOfLength? decimalOn?
  rfl

/-- The two decimals of a grid that enclose a number: one of them is chosen, and it reads
    back. -/
theorem decimalOn?_eq_some {x : Binary64} {exponent : Int} {d : Decimal}
    (h : x.decimalOn? exponent = some d) :
    d.exponent = exponent ∧
      (d.digits = x.magnitude / (4 * pow2 1074 * pow10 (exponent + places).toNat) ∨
        d.digits = x.magnitude / (4 * pow2 1074 * pow10 (exponent + places).toNat) + 1) ∧
      x.readsBack (d.digits * (4 * pow2 1074 * pow10 (exponent + places).toNat)) = true := by
  unfold decimalOn? at h
  generalize 4 * pow2 1074 * pow10 (exponent + places).toNat = step at h ⊢
  -- it is the multiple of the step below the number, or the next one
  simp only at h
  split at h
  next hbelow habove =>
    split at h
    · cases h
      exact ⟨rfl, .inl rfl, hbelow⟩
    · cases h
      exact ⟨rfl, .inr rfl, habove⟩
  next hbelow _ =>
    cases h
    exact ⟨rfl, .inl rfl, hbelow⟩
  next _ habove =>
    cases h
    exact ⟨rfl, .inr rfl, habove⟩
  next => cases h

/-- The sizes of the powers that the bounds below compare, and the one decimal that is
    looked at by itself: that of the largest number. -/
theorem powers_of_the_grid :
    pow10 26 * pow2 1074 ≤ pow10 places ∧
      (pow2 precision - 1) * pow2 maxScale * pow10 places < pow10 700 * pow2 1074 ∧
      pow2 precision * pow2 (maxScale - 1) < 17976931348623157 * (pow2 1074 * pow10 292) ∧
      (pow2 precision - 2) * pow2 maxScale < 17976931348623157 * (pow2 1074 * pow10 292) ∧
      ∀ negative, decimalOn? ⟨negative, pow2 precision - 1, maxScale⟩ 292 =
        some ⟨17976931348623157, 292⟩ := by
  decide +kernel

/-! ## How large the decimals are -/

section Bounds

variable {x : Binary64}

theorem units_pos (hpos : 0 < x.significand) : 0 < x.units :=
  Nat.mul_pos hpos (pow2_pos x.scale)

theorem InFormat.units_le (hx : x.InFormat) :
    x.units ≤ (pow2 precision - 1) * pow2 maxScale := by
  have hsignificand := hx.1
  exact Nat.mul_le_mul (by omega) (pow2_le hx.2)

theorem lt_fineDigits_iff {k : Nat} (hk : 0 < k) :
    k < x.fineDigits ↔ pow10 k ≤ x.units * pow10 places / pow2 1074 := by
  have hiff := Nat.length_toDigits_le_iff (n := x.units * pow10 places / pow2 1074)
    (by decide : 1 < 10) hk
  have hpow : pow10 k = 10 ^ k := rfl
  rw [fineDigits, hpow]
  omega

theorem fineDigits_gt (hpos : 0 < x.significand) : 26 < x.fineDigits := by
  rw [lt_fineDigits_iff (by decide), Nat.le_div_iff_mul_le (pow2_pos 1074)]
  exact Nat.le_trans powers_of_the_grid.1 (Nat.le_mul_of_pos_left _ (units_pos hpos))

theorem InFormat.fineDigits_le (hx : x.InFormat) : x.fineDigits ≤ 700 := by
  rw [← Nat.not_lt, lt_fineDigits_iff (by decide), Nat.not_le,
    Nat.div_lt_iff_lt_mul (pow2_pos 1074)]
  have hle := Nat.mul_le_mul_right (pow10 places) hx.units_le
  obtain ⟨-, hconst, -⟩ := powers_of_the_grid
  exact Nat.lt_of_le_of_lt hle hconst

theorem magnitude_div (k : Nat) : x.magnitude / (4 * pow2 1074 * pow10 k) =
    x.units * pow10 places / pow2 1074 / pow10 k := by
  rw [← Nat.div_div_eq_div_mul, magnitude, Nat.mul_assoc,
    Nat.mul_div_mul_left _ _ (by decide : 0 < 4)]

/-- A decimal with `count` digits is written for a number, or the power of ten that follows
    them. -/
theorem digits_of_decimalOfLength? {count : Nat} {d : Decimal} (hpos : 0 < x.significand)
    (hcount : 0 < count) (hle : count ≤ maxDigits) (h : x.decimalOfLength? count = some d) :
    0 < d.digits ∧ d.digits ≤ pow10 count ∧
      d.exponent = (x.fineDigits : Int) - places - count := by
  rw [decimalOfLength?_eq, decimalExponent_eq] at h
  obtain ⟨hexponent, hdigits, -⟩ := decimalOn?_eq_some h
  have hmany := fineDigits_gt hpos
  have hmax : maxDigits = 17 := rfl
  have hgrid : ((x.fineDigits : Int) - 1 - places - count + 1 + places).toNat =
      x.fineDigits - count := by omega
  rw [hgrid, magnitude_div] at hdigits
  -- the number lies between two powers of ten, and so do its digits on the coarser grid
  have hlow : pow10 (x.fineDigits - count) ≤ x.units * pow10 places / pow2 1074 := by
    rw [← lt_fineDigits_iff (by omega)]
    omega
  have hhigh : x.units * pow10 places / pow2 1074 < pow10 count * pow10 (x.fineDigits - count) := by
    have hsum : pow10 count * pow10 (x.fineDigits - count) = pow10 x.fineDigits := by
      rw [← pow10_add]
      congr 1
      omega
    rw [hsum, ← Nat.not_le, ← lt_fineDigits_iff (by omega)]
    exact Nat.lt_irrefl _
  have hbelow := Nat.div_pos hlow (pow10_pos _)
  have habove := (Nat.div_lt_iff_lt_mul (pow10_pos _)).2 hhigh
  refine ⟨?_, ?_, by omega⟩ <;> rcases hdigits with hdigits | hdigits <;> omega

/-- A decimal that reads back is not above the range. -/
theorem le_top_of_readsBack (hx : x.InFormat) {n k : Nat}
    (h : x.readsBack (n * (4 * pow2 1074 * pow10 (k + places))) = true) :
    n * pow10 k ≤ top := by
  have hhigh : n * (4 * pow2 1074 * pow10 (k + places)) ≤ x.magnitude + x.halfGapAbove := by
    unfold readsBack at h
    simp only at h
    split at h <;> simp only [Bool.and_eq_true, decide_eq_true_eq] at h <;> omega
  have hsignificand := hx.1
  have hscale := pow2_le hx.2
  have htop := two_mul_top
  -- both sides as multiples of the finest grid
  have hgap : x.magnitude + x.halfGapAbove =
      2 * pow10 places * ((2 * x.significand + 1) * pow2 x.scale) := by
    rw [magnitude, halfGapAbove, units]
    ring
  have hstep : n * (4 * pow2 1074 * pow10 (k + places)) =
      2 * pow10 places * (2 * (pow2 1074 * (n * pow10 k))) := by
    rw [pow10_add]
    ring
  have hnumber : (2 * x.significand + 1) * pow2 x.scale ≤
      (2 * (pow2 precision - 1) + 1) * pow2 maxScale :=
    Nat.mul_le_mul (by omega) hscale
  rw [hgap, hstep] at hhigh
  have hhigh' := Nat.le_of_mul_le_mul_left hhigh (Nat.mul_pos (by decide) (pow10_pos places))
  rw [Nat.one_mul] at htop
  have htwice : pow2 1074 * (n * pow10 k) ≤ pow2 1074 * top := by omega
  exact Nat.le_of_mul_le_mul_left htwice (pow2_pos 1074)

/-- The decimal between the largest number and the end of the range is not written. -/
theorem decimalOn?_ne (hx : x.InFormat) :
    x.decimalOn? 292 ≠ some ⟨17976931348623158, 292⟩ := by
  intro h
  obtain ⟨-, hdigits, -⟩ := decimalOn?_eq_some h
  have hgrid : ((292 : Int) + places).toNat = 642 := by decide
  rw [hgrid] at hdigits
  simp only at hdigits
  have hstep : 0 < 4 * pow2 1074 * pow10 642 :=
    Nat.mul_pos (Nat.mul_pos (by decide) (pow2_pos _)) (pow10_pos _)
  -- only the largest number is that near
  have hlarge : 17976931348623157 * (4 * pow2 1074 * pow10 642) ≤ x.magnitude := by
    rw [← Nat.le_div_iff_mul_le hstep]
    omega
  have hpow : pow10 642 = pow10 292 * pow10 places := pow10_add 292 places
  obtain ⟨-, -, hbinade, hbelow, hnearest⟩ := powers_of_the_grid
  have hunits : 17976931348623157 * (pow2 1074 * pow10 292) ≤ x.units := by
    have hsplit : 17976931348623157 * (4 * pow2 1074 * pow10 642) =
        17976931348623157 * (pow2 1074 * pow10 292) * (4 * pow10 places) := by
      rw [hpow]
      ring
    have hmagnitude : x.magnitude = x.units * (4 * pow10 places) := by
      rw [magnitude]
      ring
    rw [hsplit, hmagnitude] at hlarge
    exact Nat.le_of_mul_le_mul_right hlarge (Nat.mul_pos (by decide) (pow10_pos _))
  have hscale : x.scale = maxScale := by
    by_contra hne
    have hle : pow2 x.scale ≤ pow2 (maxScale - 1) := pow2_le (by have := hx.2; omega)
    have hmul := Nat.mul_le_mul (Nat.le_of_lt hx.1) hle
    rw [units] at hunits
    omega
  have hsignificand : x.significand = pow2 precision - 1 := by
    by_contra hne
    have hle : x.significand ≤ pow2 precision - 2 := by have := hx.1; omega
    have hmul := Nat.mul_le_mul_right (pow2 maxScale) hle
    rw [units, hscale] at hunits
    omega
  obtain ⟨negative, significand, scale⟩ := x
  simp only at hscale hsignificand
  subst hscale hsignificand
  rw [hnearest] at h
  cases h

end Bounds

/-! ## The shortest decimal -/

/-- The shortest decimal of a number is positive and has a number itself; it is written
    with at most 17 digits, and its exponent is small. -/
structure Decimal.Writable (d : Decimal) : Prop where
  pos : 0 < d.digits
  digits_le : d.digits ≤ pow10 maxDigits
  exponent_low : -400 ≤ d.exponent
  exponent_high : d.exponent ≤ 400
  le_top : 0 ≤ d.exponent → d.digits * pow10 d.exponent.toNat ≤ top
  ne : d.digits = 17976931348623158 → d.exponent ≠ 292

theorem shortest_writable {x : Binary64} (hx : x.InFormat) (hpos : 0 < x.significand) :
    x.shortest.Writable ∨ x.shortest = ⟨0, 0⟩ := by
  unfold shortest
  cases hfind : (List.range maxDigits).findSome? fun i => x.decimalOfLength? (i + 1) with
  | none => exact .inr rfl
  | some d =>
    obtain ⟨i, hi, hd⟩ := List.exists_of_findSome?_eq_some hfind
    have hcount : i + 1 ≤ maxDigits := List.mem_range.1 hi
    obtain ⟨hdpos, hdle, hexponent⟩ :=
      digits_of_decimalOfLength? hpos (Nat.succ_pos i) hcount hd
    -- the exponent is as far from zero as the number has digits on the finest grid
    have hmany := fineDigits_gt hpos
    have hfew := hx.fineDigits_le
    have hplaces : places = 350 := rfl
    have hmax : maxDigits = 17 := rfl
    rw [decimalOfLength?_eq] at hd
    obtain ⟨hgrid, -, hreads⟩ := decimalOn?_eq_some hd
    rw [← hgrid] at hd hreads
    rw [Option.getD_some]
    refine .inl ⟨hdpos, Nat.le_trans hdle (pow10_le hcount), by omega, by omega,
      fun he => ?_, fun hdigits he => ?_⟩
    · have hnat : (d.exponent + places).toNat = d.exponent.toNat + places := by omega
      rw [hnat] at hreads
      exact le_top_of_readsBack hx hreads
    -- the one decimal in question is not that of any number
    · obtain ⟨digits, exponent⟩ := d
      simp only at hdigits he hd
      subst hdigits he
      exact decimalOn?_ne hx hd

end Binary64
end AssemblyLinker
