import AssemblyLinker.Binary64.Basic

/-! # The shortest decimal of a floating-point number

    A number is written with the fewest significant digits that read back as it, and of
    the decimals with that many digits the nearest one. The decimals that read back are
    those of an interval around the number, halfway to its two neighbours; its ends
    belong to it exactly if the significand is even.

    All magnitudes are whole numbers of one small unit, `1 / Binary64.one`, which is fine
    enough for every number of the format, every end of an interval and every grid of
    decimals that is searched.
-/

namespace AssemblyLinker.Binary64

/-- How many decimal places the common unit allows for. -/
def places : Nat := 350

/-- The number one in the common unit. -/
def one : Nat := 4 * pow2 1074 * pow10 places

/-- The magnitude of a number in the common unit. -/
def magnitude (x : Binary64) : Nat := 4 * x.units * pow10 places

/-- Half of the distance to the next number above. -/
def halfGapAbove (x : Binary64) : Nat := 2 * pow2 x.scale * pow10 places

/-- Half of the distance to the next number below. It is smaller where the number is the
    least of its scale. -/
def halfGapBelow (x : Binary64) : Nat :=
  if x.significand = pow2 (precision - 1) ∧ 0 < x.scale then pow2 x.scale * pow10 places
  else x.halfGapAbove

/-- Does a magnitude in the common unit read back as the number? -/
def readsBack (x : Binary64) (m : Nat) : Bool :=
  let low := x.magnitude - x.halfGapBelow
  let high := x.magnitude + x.halfGapAbove
  if x.significand % 2 = 0 then low ≤ m && m ≤ high else low < m && m < high

/-- `digits * 10 ^ exponent`. -/
structure Decimal where
  digits : Nat
  exponent : Int
  deriving DecidableEq, Repr

/-- The exponent of the first significant digit of a positive number. -/
def decimalExponent (x : Binary64) : Int :=
  (Nat.toDigits 10 (x.units * pow10 places / pow2 1074)).length - 1 - (places : Int)

/-- The decimal with `count` digits that is nearest to a positive number, if one of the
    two that enclose it reads back. Of two equally near ones, the even one. -/
def decimalOfLength? (x : Binary64) (count : Nat) : Option Decimal :=
  let exponent := x.decimalExponent - count + 1
  let step := 4 * pow2 1074 * pow10 (exponent + places).toNat
  let below := x.magnitude / step
  let rest := x.magnitude % step
  let above := below + 1
  match x.readsBack (below * step), x.readsBack (above * step) with
  | true, true =>
    if 2 * rest < step ∨ (2 * rest = step ∧ below % 2 = 0) then some ⟨below, exponent⟩
    else some ⟨above, exponent⟩
  | true, false => some ⟨below, exponent⟩
  | false, true => some ⟨above, exponent⟩
  | false, false => none

/-- Seventeen digits always suffice. -/
def maxDigits : Nat := 17

/-- The shortest decimal that reads back as a positive number. -/
def shortest (x : Binary64) : Decimal :=
  ((List.range maxDigits).findSome? fun i => x.decimalOfLength? (i + 1)).getD ⟨0, 0⟩

/-! ## Layout -/

/-- The significant digits of a decimal, without the zeros at their end. -/
def Decimal.significant (d : Decimal) : List Char :=
  ((Nat.toDigits 10 d.digits).reverse.dropWhile (· = '0')).reverse

/-- The exponent of the first digit of a decimal. -/
def Decimal.leadingExponent (d : Decimal) : Int :=
  (Nat.toDigits 10 d.digits).length - 1 + d.exponent

/-- A decimal with a point and no exponent, with at least one digit on either side. -/
def positional (digits : List Char) (exponent : Int) : List Char :=
  if exponent < 0 then
    '0' :: '.' :: List.replicate (exponent.natAbs - 1) '0' ++ digits
  else
    let whole := exponent.natAbs + 1
    if digits.length ≤ whole then
      digits ++ List.replicate (whole - digits.length) '0' ++ ['.', '0']
    else digits.take whole ++ '.' :: digits.drop whole

/-- A decimal with one digit before the point and a signed exponent. -/
def scientific (digits : List Char) (exponent : Int) : List Char :=
  let fraction := digits.drop 1
  digits.take 1 ++ (if fraction.isEmpty then [] else '.' :: fraction) ++
    'e' :: (if exponent < 0 then '-' else '+') :: Nat.toDigits 10 exponent.natAbs

/-- The exponents of the first digit that are written without an exponent. -/
def isPositional (exponent : Int) : Bool := -5 ≤ exponent && exponent ≤ 15

/-- The text of a number. -/
def text (x : Binary64) : List Char :=
  let body :=
    if x.significand = 0 then ['0', '.', '0']
    else
      let d := x.shortest
      if isPositional d.leadingExponent then positional d.significant d.leadingExponent
      else scientific d.significant d.leadingExponent
  if x.negative then '-' :: body else body

end AssemblyLinker.Binary64
