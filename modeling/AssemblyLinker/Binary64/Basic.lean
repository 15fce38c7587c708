/-! # Finite binary floating-point numbers of 64 bits

    A magnitude is a whole number of at most 53 bits times a power of two, counted from
    the least one, `2 ^ -1074`. The arithmetic is exact on naturals: a quotient is
    rounded once, to the nearest number of the format, and of two equally near ones to
    the one with the even significand. A result beyond the largest number is absent.
-/

namespace AssemblyLinker

/-- The magnitude `significand * 2 ^ scale / 2 ^ 1074` with a sign. Of the forms of one
    magnitude, `Binary64.ofRatio?` yields the one with 53 bits, or with scale zero. -/
structure Binary64 where
  negative : Bool
  significand : Nat
  scale : Nat
  deriving DecidableEq, Repr

namespace Binary64

/-- A power of two. -/
def pow2 (n : Nat) : Nat := Nat.pow 2 n

/-- A power of ten. -/
def pow10 (n : Nat) : Nat := Nat.pow 10 n

/-- Zero, positive. -/
def zero : Binary64 := ⟨false, 0, 0⟩

/-- The quotient rounded to the nearest natural number, a half to the even one. -/
def roundDiv (num den : Nat) : Nat :=
  let q := num / den
  let r := num % den
  if den < 2 * r ∨ (den = 2 * r ∧ q % 2 = 1) then q + 1 else q

/-- The number of bits of a significand. -/
def precision : Nat := 53

/-- The scale of the largest numbers. -/
def maxScale : Nat := 2045

/-- The scale of the number nearest to `num / den` units. -/
def scaleOf (num den : Nat) : Nat := (num / den).log2 + 1 - precision

/-- The significand at that scale. It has one bit too many where rounding carries. -/
def rounded (num den : Nat) : Nat := roundDiv num (den * pow2 (scaleOf num den))

/-- The number nearest to `num / den` units of `2 ^ -1074`, if there is one that large. -/
def ofUnits? (num den : Nat) : Option Binary64 :=
  if rounded num den = pow2 precision then
    if scaleOf num den + 1 ≤ maxScale then
      some ⟨false, pow2 (precision - 1), scaleOf num den + 1⟩
    else none
  else if scaleOf num den ≤ maxScale then some ⟨false, rounded num den, scaleOf num den⟩
  else none

/-- The number nearest to `num / den`, if there is one that large. -/
def ofRatio? (num den : Nat) : Option Binary64 := ofUnits? (pow2 1074 * num) den

/-- The magnitude in units of `2 ^ -1074`. -/
def units (x : Binary64) : Nat := x.significand * pow2 x.scale

/-- The product of two magnitudes. -/
def mul? (x y : Binary64) : Option Binary64 := ofRatio? (x.units * y.units) (pow2 2148)

/-- The quotient of two magnitudes. -/
def div? (x y : Binary64) : Option Binary64 := ofRatio? x.units y.units

/-- The number nearest to a natural number. -/
def ofNat? (n : Nat) : Option Binary64 := ofRatio? n 1

/-- The same magnitude with a sign. -/
def signed (negative : Bool) (x : Binary64) : Binary64 := { x with negative }

/-! ## Decimal scaling

    A decimal is read as its significand, rounded to the format, times or divided by a
    power of ten, itself rounded to the format. So it is rounded up to three times, and
    the result may differ from the number nearest to the decimal.
-/

/-- The largest power of ten of the format. -/
def maxPowerOfTen : Nat := 308

/-- Division by a power of ten, in steps by the largest one of the format. -/
def divPowerOfTen? (x : Binary64) (exponent : Nat) : Option Binary64 :=
  if exponent ≤ maxPowerOfTen then do div? x (← ofNat? (pow10 exponent))
  else if x.significand = 0 then some x
  else do divPowerOfTen? (← div? x (← ofNat? (pow10 maxPowerOfTen))) (exponent - maxPowerOfTen)
termination_by exponent
decreasing_by all_goals (simp [maxPowerOfTen] at *; omega)

/-- Multiplication by a power of ten. -/
def mulPowerOfTen? (x : Binary64) (exponent : Nat) : Option Binary64 :=
  if exponent ≤ maxPowerOfTen then do mul? x (← ofNat? (pow10 exponent))
  else if x.significand = 0 then some x
  else none

/-- The number read for `significand * 10 ^ exponent`. -/
def ofDecimal? (significand : Nat) (exponent : Int) : Option Binary64 := do
  let x ← ofNat? significand
  if exponent < 0 then divPowerOfTen? x exponent.natAbs else mulPowerOfTen? x exponent.natAbs

end Binary64

end AssemblyLinker
