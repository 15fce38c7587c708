import AssemblyLinker.Binary64.Basic
import Mathlib.Tactic.Linarith
import Mathlib.Tactic.Ring

/-! # Rounding to the format

    A quotient is rounded once, and the result is a number of the format or there is none.
    What later proofs need of it are bounds: a number is at most twice the quotient it
    stands for, a whole number of units grows by one part in `2 ^ 53` at most, and there is
    a result for every quotient that is nearer to the largest number than to what would
    follow it.
-/

namespace AssemblyLinker

namespace Binary64

/-! ## Rounded quotients -/

theorem pow2_pos (n : Nat) : 0 < pow2 n := Nat.pow_pos (by decide)

theorem pow10_pos (n : Nat) : 0 < pow10 n := Nat.pow_pos (by decide)

theorem pow2_add (m n : Nat) : pow2 (m + n) = pow2 m * pow2 n := Nat.pow_add 2 m n

theorem pow10_add (m n : Nat) : pow10 (m + n) = pow10 m * pow10 n := Nat.pow_add 10 m n

theorem pow2_le {m n : Nat} (h : m ≤ n) : pow2 m ≤ pow2 n := Nat.pow_le_pow_right (by decide) h

theorem pow10_le {m n : Nat} (h : m ≤ n) : pow10 m ≤ pow10 n :=
  Nat.pow_le_pow_right (by decide) h

theorem log2_lt {n k : Nat} (hn : 0 < n) (h : n < pow2 k) : n.log2 < k :=
  (Nat.log2_lt (Nat.ne_of_gt hn)).2 h

theorem log2_le {m n : Nat} (h : m ≤ n) : m.log2 ≤ n.log2 := by
  rcases Nat.eq_zero_or_pos m with rfl | hm
  · rw [Nat.log2_zero]
    exact Nat.zero_le _
  · have hne : n ≠ 0 := by omega
    exact (Nat.le_log2 hne).2 (Nat.le_trans (Nat.log2_self_le (Nat.ne_of_gt hm)) h)

/-- A quotient that is nearer to `k` than to `k + 1` is not rounded to more than `k`. -/
theorem roundDiv_le {num den k : Nat} (h : 2 * num < (2 * k + 1) * den) :
    roundDiv num den ≤ k := by
  have hden : 0 < den := by
    rcases Nat.eq_zero_or_pos den with rfl | hden
    · simp at h
    · exact hden
  have hdiv := Nat.div_add_mod num den
  have hmod := Nat.mod_lt num hden
  unfold roundDiv
  simp only
  generalize num / den = q at hdiv
  generalize num % den = r at hdiv hmod
  have hq : q ≤ k := by
    by_contra hlt
    have : den * (k + 1) ≤ den * q := Nat.mul_le_mul_left den (by omega)
    nlinarith
  split
  next hup =>
    -- rounding up to `k + 1` would need at least half of the denominator
    rcases Nat.eq_or_lt_of_le hq with rfl | hlt
    · exfalso
      have : 2 * r < den := by nlinarith
      omega
    · omega
  next => exact hq

/-- A quotient is at most doubled by rounding. -/
theorem roundDiv_mul_le (num den : Nat) : roundDiv num den * den ≤ 2 * num := by
  have hdiv := Nat.div_add_mod num den
  unfold roundDiv
  simp only
  generalize num / den = q at hdiv
  generalize num % den = r at hdiv
  split
  next hup =>
    have : den ≤ 2 * r := by omega
    nlinarith
  next => nlinarith

/-- Rounding takes away half of the denominator at most. -/
theorem le_roundDiv_mul_add (num : Nat) {den : Nat} (hden : 0 < den) :
    2 * num ≤ 2 * (roundDiv num den * den) + den := by
  have hdiv := Nat.div_add_mod num den
  have hmod := Nat.mod_lt num hden
  unfold roundDiv
  simp only
  generalize num / den = q at hdiv
  generalize num % den = r at hdiv hmod
  split
  next hup => nlinarith
  next hdown =>
    have : 2 * r ≤ den := by omega
    nlinarith

/-! ## Numbers of the format -/

/-- Is a magnitude one of the format? -/
def InFormat (x : Binary64) : Prop := x.significand < pow2 precision ∧ x.scale ≤ maxScale

theorem zero_inFormat : zero.InFormat := ⟨pow2_pos _, Nat.zero_le _⟩

theorem InFormat.signed {x : Binary64} (h : x.InFormat) (negative : Bool) :
    (x.signed negative).InFormat := h

theorem ofRatio?_eq (num den : Nat) : ofRatio? num den = ofUnits? (pow2 1074 * num) den := by
  rw [ofRatio?]

section Units

variable {num den : Nat} {x : Binary64}

/-- A quotient fits the significand at its scale. -/
theorem lt_of_scaleOf (hden : 0 < den) :
    num < pow2 precision * (den * pow2 (scaleOf num den)) := by
  have hlog : num / den < 2 ^ ((num / den).log2 + 1) := Nat.lt_log2_self
  have hle : pow2 ((num / den).log2 + 1) ≤ pow2 (precision + scaleOf num den) :=
    pow2_le (by unfold scaleOf; omega)
  have h := (Nat.div_lt_iff_lt_mul hden).1 (Nat.lt_of_lt_of_le hlog hle)
  rw [pow2_add] at h
  calc num < pow2 precision * pow2 (scaleOf num den) * den := h
    _ = pow2 precision * (den * pow2 (scaleOf num den)) := by ring

theorem rounded_le (num den : Nat) : rounded num den ≤ pow2 precision := by
  rcases Nat.eq_zero_or_pos den with rfl | hden
  · have hle : roundDiv num 0 ≤ 1 := by
      unfold roundDiv
      simp only [Nat.div_zero]
      split <;> omega
    rw [rounded, Nat.zero_mul]
    exact Nat.le_trans hle (pow2_pos _)
  · refine roundDiv_le ?_
    have h := @lt_of_scaleOf num den hden
    have hpos : 0 < den * pow2 (scaleOf num den) := Nat.mul_pos hden (pow2_pos _)
    nlinarith

theorem ofUnits?_inFormat (h : ofUnits? num den = some x) : x.InFormat := by
  have hle := rounded_le num den
  unfold ofUnits? at h
  split at h
  · split at h
    next hscale =>
      obtain rfl := Option.some.inj h
      exact ⟨(by decide : pow2 52 < pow2 53), hscale⟩
    next => cases h
  next hne =>
    split at h
    next hscale =>
      obtain rfl := Option.some.inj h
      exact ⟨Nat.lt_of_le_of_ne hle hne, hscale⟩
    next => cases h

/-- The units of the number that a quotient is rounded to. -/
theorem ofUnits?_units (h : ofUnits? num den = some x) :
    x.units = rounded num den * pow2 (scaleOf num den) := by
  unfold ofUnits? at h
  split at h
  next hcarry =>
    split at h
    · obtain rfl := Option.some.inj h
      have hdouble : pow2 precision = pow2 (precision - 1) * pow2 1 := pow2_add 52 1
      rw [hcarry, units, Nat.add_comm, pow2_add, hdouble, Nat.mul_assoc]
    · cases h
  next =>
    split at h
    · obtain rfl := Option.some.inj h
      rfl
    · cases h

/-- Rounding at most doubles a quotient. -/
theorem units_mul_le (h : ofUnits? num den = some x) : x.units * den ≤ 2 * num := by
  have hle := roundDiv_mul_le num (den * pow2 (scaleOf num den))
  calc x.units * den = rounded num den * (den * pow2 (scaleOf num den)) := by
        rw [ofUnits?_units h]
        ring
    _ ≤ 2 * num := hle

/-- Where bits are lost, there are at least 53 bits left. -/
theorem pow2_scaleOf_le (hscale : 0 < scaleOf num 1) :
    pow2 (precision - 1) * pow2 (scaleOf num 1) ≤ num := by
  have hprecision : precision = 53 := rfl
  have hlog : (num / 1).log2 = precision - 1 + scaleOf num 1 := by
    unfold scaleOf at hscale ⊢
    omega
  rw [Nat.div_one] at hlog
  have hne : num ≠ 0 := by
    rintro rfl
    rw [Nat.log2_zero] at hlog
    omega
  rw [← pow2_add, ← hlog]
  exact Nat.log2_self_le hne

theorem units_eq (h : ofUnits? num 1 = some x) :
    x.units = roundDiv num (pow2 (scaleOf num 1)) * pow2 (scaleOf num 1) := by
  rw [ofUnits?_units h, rounded, Nat.one_mul]

/-- Rounding takes away half of a whole number of units at most. -/
theorem le_units (h : ofUnits? num 1 = some x) : num ≤ 2 * x.units := by
  have hround := le_roundDiv_mul_add num (pow2_pos (scaleOf num 1))
  rw [← units_eq h] at hround
  rcases Nat.eq_zero_or_pos (scaleOf num 1) with hscale | hscale
  · have hone : pow2 (scaleOf num 1) = 1 := congrArg pow2 hscale
    omega
  · have hbits := pow2_scaleOf_le hscale
    have htwo : 2 ≤ pow2 (precision - 1) := by decide
    nlinarith

/-- A whole number of units is not rounded up beyond a number of the format. -/
theorem units_le {bound : Nat} (h : ofUnits? num 1 = some x) (hle : num ≤ bound)
    (hbound : pow2 (scaleOf bound 1) ∣ bound) : x.units ≤ bound := by
  have hscale : scaleOf num 1 ≤ scaleOf bound 1 := by
    unfold scaleOf
    rw [Nat.div_one, Nat.div_one]
    have := log2_le hle
    omega
  -- the bound is a multiple of what the number is rounded to
  obtain ⟨k, hk⟩ : pow2 (scaleOf num 1) ∣ bound :=
    Nat.dvd_trans (Nat.pow_dvd_pow 2 hscale) hbound
  have hpos := pow2_pos (scaleOf num 1)
  have hround : roundDiv num (pow2 (scaleOf num 1)) ≤ k := by
    refine roundDiv_le ?_
    nlinarith
  calc x.units = roundDiv num (pow2 (scaleOf num 1)) * pow2 (scaleOf num 1) := units_eq h
    _ ≤ k * pow2 (scaleOf num 1) := Nat.mul_le_mul_right _ hround
    _ = bound := by rw [hk, Nat.mul_comm]

/-- Whatever is not too large can be rounded. -/
theorem ofUnits?_isSome (hden : 0 < den)
    (hlt : 2 * num < (2 * (pow2 precision - 1) + 1) * (den * pow2 maxScale)) :
    (ofUnits? num den).isSome := by
  have hscale : scaleOf num den ≤ maxScale := by
    have hq : num / den < pow2 (precision + maxScale) := by
      rw [Nat.div_lt_iff_lt_mul hden, pow2_add]
      have hpos : 0 < den * pow2 maxScale := Nat.mul_pos hden (pow2_pos _)
      have hprecision : 0 < pow2 precision := pow2_pos _
      have hsub : pow2 precision - 1 + 1 = pow2 precision := by omega
      nlinarith
    have hlog : (num / den).log2 < precision + maxScale ∨ num / den = 0 := by
      rcases Nat.eq_zero_or_pos (num / den) with hzero | hpos
      · exact .inr hzero
      · exact .inl (log2_lt hpos hq)
    unfold scaleOf
    rcases hlog with hlog | hzero
    · omega
    · rw [hzero, Nat.log2_zero]
      decide
  rw [ofUnits?]
  by_cases hcarry : rounded num den = pow2 precision
  · rw [if_pos hcarry]
    -- a significand that is full at the largest scale would be above the bound
    have hne : scaleOf num den ≠ maxScale := by
      intro heq
      have hle : rounded num den ≤ pow2 precision - 1 := by
        unfold rounded
        rw [heq]
        exact roundDiv_le hlt
      have := pow2_pos precision
      omega
    rw [if_pos (by omega)]
    rfl
  · rw [if_neg hcarry, if_pos hscale]
    rfl

end Units

end Binary64

end AssemblyLinker
