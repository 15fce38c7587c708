import AssemblyLinker.Binary64.Shortest
import AssemblyLinker.Proofs.Binary64.Rounding

/-! # Decimals in range

    A decimal is rounded up to three times on its way to a number, so that one below the
    largest number may still have no number to go to.  The decimals that a number is written
    with always have one.  All of them but the ones of the largest numbers are far from the
    end of the range, and these are looked at one power of ten after the other.
-/

namespace AssemblyLinker

namespace Binary64

/-- Halfway from the largest number to what would follow it. -/
def top : Nat := pow2 1024 - pow2 970

/-- The sizes of the powers that the bounds below compare, in the units of the format. -/
theorem powers_of_the_range :
    2 * (pow2 1074 * top) = (2 * (pow2 precision - 1) + 1) * (1 * pow2 maxScale) ∧
      pow10 308 < top ∧ top < pow10 309 ∧
      2 * (2 * pow2 1074) * pow2 2000 <
        pow2 1074 * ((2 * (pow2 precision - 1) + 1) * pow2 maxScale) ∧
      2 * pow2 1075 ≤ pow2 1074 * pow10 maxPowerOfTen ∧
      2 * pow2 1074 * pow10 17 ≤ pow2 2000 ∧
      2 * pow2 1074 * (2 * (pow2 1074 * pow10 17) * (2 * (pow2 1074 * pow10 290))) <
        (2 * (pow2 precision - 1) + 1) * (pow2 2148 * pow2 maxScale) := by
  decide +kernel

theorem two_mul_top : 2 * (pow2 1074 * top) =
    (2 * (pow2 precision - 1) + 1) * (1 * pow2 maxScale) :=
  powers_of_the_range.1

theorem ofNat?_eq (n : Nat) : ofNat? n = ofUnits? (pow2 1074 * n) 1 := ofRatio?_eq n 1

theorem ofNat?_isSome {n : Nat} (hn : n < top) : (ofNat? n).isSome := by
  rw [ofNat?_eq]
  refine ofUnits?_isSome Nat.one_pos ?_
  rw [← two_mul_top]
  have hlt := Nat.mul_lt_mul_of_pos_left hn (pow2_pos 1074)
  omega

theorem pow10_lt_top {e : Nat} (he : e ≤ maxPowerOfTen) : pow10 e < top := by
  have hle : pow10 e ≤ pow10 308 := pow10_le he
  obtain ⟨-, hlt, -⟩ := powers_of_the_range
  exact Nat.lt_of_le_of_lt hle hlt

/-- The powers of ten up to the largest one have numbers. -/
theorem ofNat?_pow10 {e : Nat} (he : e ≤ maxPowerOfTen) :
    ∃ y, ofNat? (pow10 e) = some y ∧ pow2 1074 * pow10 e ≤ 2 * y.units ∧
      y.units ≤ 2 * (pow2 1074 * pow10 e) := by
  obtain ⟨y, hy⟩ := Option.isSome_iff_exists.1 (ofNat?_isSome (pow10_lt_top he))
  have hunits := ofNat?_eq _ ▸ hy
  have hle := units_mul_le hunits
  exact ⟨y, hy, le_units hunits, by omega⟩

/-! ## Division by powers of ten -/

section Division

variable {x : Binary64} {e : Nat}

/-- A number that is divided by one no smaller than one half stays in range. -/
theorem div?_isSome {y : Binary64} (hx : x.units ≤ pow2 2000)
    (hy : pow2 1074 ≤ 2 * y.units) : (div? x y).isSome := by
  rw [div?, ofRatio?_eq]
  have hpos := pow2_pos 1074
  refine ofUnits?_isSome (by omega) ?_
  have hx' := Nat.mul_le_mul_left (2 * (2 * pow2 1074)) hx
  have hy' := Nat.mul_le_mul_right ((2 * (pow2 precision - 1) + 1) * pow2 maxScale) hy
  obtain ⟨-, -, -, hconst, -⟩ := powers_of_the_range
  generalize (2 * (pow2 precision - 1) + 1) = w at *
  generalize pow2 maxScale = z at *
  generalize pow2 1074 = u at *
  generalize pow2 2000 = v at *
  nlinarith

/-- Division by ten or more makes no number larger. -/
theorem units_div?_le {y z : Binary64} (hz : div? x y = some z)
    (hy : pow2 1075 ≤ y.units) : z.units ≤ x.units := by
  rw [div?, ofRatio?_eq] at hz
  have hle := units_mul_le hz
  have hpos := pow2_pos 1074
  have hone : pow2 1 = 2 := by decide
  have htwo : pow2 1075 = pow2 1 * pow2 1074 := pow2_add 1 1074
  rw [htwo, hone] at hy
  generalize pow2 1074 = u at *
  by_contra hlt
  have hy' := Nat.mul_le_mul_left z.units hy
  have hx' : (x.units + 1) * (2 * u) ≤ z.units * (2 * u) :=
    Nat.mul_le_mul_right _ (by omega)
  nlinarith

theorem divPowerOfTen?_isSome (hx : x.units ≤ pow2 2000) : (divPowerOfTen? x e).isSome := by
  induction x, e using divPowerOfTen?.induct with
  | case1 x e he =>
    obtain ⟨y, hy, hlow, -⟩ := ofNat?_pow10 he
    rw [divPowerOfTen?, if_pos he, hy, Option.bind_eq_bind, Option.bind_some]
    have hpos := Nat.le_mul_of_pos_right (pow2 1074) (pow10_pos e)
    exact div?_isSome hx (Nat.le_trans hpos hlow)
  | case2 x e he hzero =>
    rw [divPowerOfTen?, if_neg he, if_pos hzero, Option.isSome_some]
  | case3 x e he hzero ih =>
    obtain ⟨y, hy, hlow, -⟩ := ofNat?_pow10 (Nat.le_refl maxPowerOfTen)
    have hten : pow2 1075 ≤ y.units := by
      obtain ⟨-, -, -, -, hconst, -⟩ := powers_of_the_range
      omega
    have hone : pow2 1074 ≤ 2 * y.units := by
      have hconst : pow2 1074 ≤ pow2 1075 := pow2_le (by decide)
      omega
    obtain ⟨z, hz⟩ := Option.isSome_iff_exists.1 (div?_isSome hx hone)
    rw [divPowerOfTen?, if_neg he, if_neg hzero, hy, Option.bind_eq_bind, Option.bind_some, hz,
      Option.bind_some]
    exact ih z (Nat.le_trans (units_div?_le hz hten) hx)

end Division

/-! ## Multiplication by powers of ten -/

section Multiplication

variable {x y : Binary64}

theorem mul?_isSome (h : 2 * (pow2 1074 * (x.units * y.units)) <
    (2 * (pow2 precision - 1) + 1) * (pow2 2148 * pow2 maxScale)) : (mul? x y).isSome := by
  rw [mul?, ofRatio?_eq]
  exact ofUnits?_isSome (pow2_pos 2148) h

/-- A whole number of the format times a power of ten is not too large. -/
def withinRange (m e : Nat) : Bool :=
  pow2 1074 * m % pow2 (scaleOf (pow2 1074 * m) 1) = 0 &&
    (ofNat? (pow10 e)).any fun y =>
      2 * (pow2 1074 * (pow2 1074 * m * y.units)) <
        (2 * (pow2 precision - 1) + 1) * (pow2 2148 * pow2 maxScale)

/-- Up to a number of the format, products with a power of ten are in range if that of the
    number is. -/
theorem mulPowerOfTen?_isSome_of_withinRange {n m e : Nat} (h : withinRange m e = true)
    (he : e ≤ maxPowerOfTen) (hn : n ≤ m) (hx : ofNat? n = some x) :
    (mulPowerOfTen? x e).isSome := by
  rw [withinRange, Bool.and_eq_true, decide_eq_true_eq] at h
  obtain ⟨hdvd, hrange⟩ := h
  have hunits : x.units ≤ pow2 1074 * m :=
    units_le (ofNat?_eq n ▸ hx) (Nat.mul_le_mul_left _ hn) (Nat.dvd_of_mod_eq_zero hdvd)
  obtain ⟨y, hy, -⟩ := ofNat?_pow10 he
  rw [hy, Option.any_some, decide_eq_true_eq] at hrange
  rw [mulPowerOfTen?, if_pos he, hy, Option.bind_eq_bind, Option.bind_some]
  refine mul?_isSome (Nat.lt_of_le_of_lt ?_ hrange)
  exact Nat.mul_le_mul_left 2 (Nat.mul_le_mul_left _ (Nat.mul_le_mul_right _ hunits))

/-- Below the last powers of ten there is room enough. -/
theorem mulPowerOfTen?_isSome_of_lt {n e : Nat} (hn : n ≤ pow10 17) (he : e ≤ 290)
    (hx : ofNat? n = some x) : (mulPowerOfTen? x e).isSome := by
  have he' : e ≤ maxPowerOfTen := Nat.le_trans he (by decide)
  obtain ⟨y, hy, -, hhigh⟩ := ofNat?_pow10 he'
  rw [mulPowerOfTen?, if_pos he', hy, Option.bind_eq_bind, Option.bind_some]
  refine mul?_isSome ?_
  have hxunits : x.units ≤ 2 * (pow2 1074 * pow10 17) := by
    have hle := units_mul_le (ofNat?_eq n ▸ hx)
    have hmul := Nat.mul_le_mul_left (pow2 1074) hn
    omega
  have hyunits : y.units ≤ 2 * (pow2 1074 * pow10 290) := by
    have hpow : pow10 e ≤ pow10 290 := pow10_le he
    have hmul := Nat.mul_le_mul_left (pow2 1074) hpow
    omega
  have hmul := Nat.mul_le_mul_left (2 * pow2 1074) (Nat.mul_le_mul hxunits hyunits)
  obtain ⟨-, -, -, -, -, -, hconst⟩ := powers_of_the_range
  rw [← Nat.mul_assoc]
  exact Nat.lt_of_le_of_lt hmul hconst

/-- The largest decimals of 17 digits are looked at one power of ten after the other.  The
    power 292 has the exception: there the decimal of the largest number is rounded down. -/
theorem largest_decimals :
    (∀ i < 18, i ≠ 1 →
      withinRange (min (pow10 17) (top / pow10 (291 + i))) (291 + i) = true) ∧
      top / pow10 292 = 17976931348623158 ∧
      withinRange 17976931348623156 292 = true ∧
      ofNat? 17976931348623157 = some ⟨false, 8988465674311578, 1075⟩ ∧
      (mulPowerOfTen? ⟨false, 8988465674311578, 1075⟩ 292).isSome := by
  decide +kernel

end Multiplication

/-- A decimal of at most 17 digits that is not above the range has a number.  There is one
    exception, which lies between the largest number and the end of the range. -/
theorem ofDecimal?_isSome {n : Nat} {e : Int} (hn : n ≤ pow10 17)
    (htop : 0 ≤ e → n * pow10 e.toNat ≤ top) (hpos : 0 < n ∨ e < 0)
    (hne : n = 17976931348623158 → e ≠ 292) : (ofDecimal? n e).isSome := by
  have hlt : n < top := Nat.lt_of_le_of_lt hn (pow10_lt_top (by decide))
  obtain ⟨x, hx⟩ := Option.isSome_iff_exists.1 (ofNat?_isSome hlt)
  rw [ofDecimal?, hx, Option.bind_eq_bind, Option.bind_some]
  split
  next he =>
    refine divPowerOfTen?_isSome ?_
    have hle := units_mul_le (ofNat?_eq n ▸ hx)
    have hmul := Nat.mul_le_mul_left (2 * pow2 1074) hn
    obtain ⟨-, -, -, -, -, hconst, -⟩ := powers_of_the_range
    rw [Nat.mul_one, ← Nat.mul_assoc] at hle
    omega
  next he =>
    have he' : 0 ≤ e := not_lt.1 he
    have hnatAbs : e.natAbs = e.toNat := by omega
    have hbound := htop he'
    have hn0 : 0 < n := hpos.resolve_right he
    rw [hnatAbs]
    have hcast : (e.toNat : Int) = e := Int.toNat_of_nonneg he'
    generalize e.toNat = k at *
    -- the exponent is at most the largest power of ten
    have hk : k ≤ 308 := by
      by_contra hlt
      have hpow : pow10 309 ≤ pow10 k := pow10_le (by omega)
      obtain ⟨-, -, hconst, -⟩ := powers_of_the_range
      have := Nat.le_mul_of_pos_left (pow10 k) hn0
      omega
    by_cases hsmall : k ≤ 290
    · exact mulPowerOfTen?_isSome_of_lt hn hsmall hx
    · have hdiv : n ≤ top / pow10 k := (Nat.le_div_iff_mul_le (pow10_pos k)).2 hbound
      obtain ⟨hwithin, hmax, hrange, hlargest, hdown⟩ := largest_decimals
      by_cases h292 : k = 292
      · subst h292
        have hne' := fun h => hne h hcast.symm
        rcases Nat.lt_or_ge n 17976931348623157 with hlt | hge
        · exact mulPowerOfTen?_isSome_of_withinRange hrange hk (by omega) hx
        -- the decimal of the largest number is rounded down
        · obtain rfl : n = 17976931348623157 := by omega
          obtain rfl : ⟨false, 8988465674311578, 1075⟩ = x := Option.some.inj (hlargest ▸ hx)
          exact hdown
      · obtain ⟨i, rfl⟩ : ∃ i, k = 291 + i := ⟨k - 291, by omega⟩
        exact mulPowerOfTen?_isSome_of_withinRange (hwithin i (by omega) (by omega)) hk
          (Nat.le_min.2 ⟨hn, hdiv⟩) hx

/-! ## The results are numbers of the format -/

theorem ofRatio?_inFormat {num den : Nat} {x : Binary64} (h : ofRatio? num den = some x) :
    x.InFormat := ofUnits?_inFormat (ofRatio?_eq num den ▸ h)

theorem divPowerOfTen?_inFormat {x y : Binary64} {e : Nat} (hx : x.InFormat)
    (h : divPowerOfTen? x e = some y) : y.InFormat := by
  induction x, e using divPowerOfTen?.induct with
  | case1 x e he =>
    rw [divPowerOfTen?, if_pos he] at h
    obtain ⟨z, -, hdiv⟩ := Option.bind_eq_some_iff.1 h
    exact ofRatio?_inFormat hdiv
  | case2 x e he hzero =>
    rw [divPowerOfTen?, if_neg he, if_pos hzero] at h
    exact Option.some.inj h ▸ hx
  | case3 x e he hzero ih =>
    rw [divPowerOfTen?, if_neg he, if_neg hzero] at h
    obtain ⟨z, -, hrest⟩ := Option.bind_eq_some_iff.1 h
    obtain ⟨q, hq, hrest⟩ := Option.bind_eq_some_iff.1 hrest
    exact ih q (ofRatio?_inFormat hq) hrest

theorem mulPowerOfTen?_inFormat {x y : Binary64} {e : Nat} (hx : x.InFormat)
    (h : mulPowerOfTen? x e = some y) : y.InFormat := by
  rw [mulPowerOfTen?] at h
  split at h
  · obtain ⟨z, -, hmul⟩ := Option.bind_eq_some_iff.1 h
    exact ofRatio?_inFormat hmul
  · split at h
    · exact Option.some.inj h ▸ hx
    · cases h

theorem ofDecimal?_inFormat {n : Nat} {e : Int} {x : Binary64} (h : ofDecimal? n e = some x) :
    x.InFormat := by
  rw [ofDecimal?, Option.bind_eq_bind, Option.bind_eq_some_iff] at h
  obtain ⟨y, hy, h⟩ := h
  have hformat : y.InFormat := ofUnits?_inFormat (ofNat?_eq n ▸ hy)
  split at h
  · exact divPowerOfTen?_inFormat hformat h
  · exact mulPowerOfTen?_inFormat hformat h

end Binary64

end AssemblyLinker
