-- The arithmetic that parameters and pixels are computed in. Formulas are
-- written once over any `Scalar`. The machine numbers are two instances; the
-- real numbers, where nothing is rounded, can be another.

namespace ColorPipeline

/-- The operations of pixel and parameter formulas. No law is asked for: a
machine number keeps few of them. -/
class Scalar (R : Type) extends Add R, Sub R, Mul R, Div R, Neg R, LT R, LE R, BEq R where
  /-- The number nearest to a natural number. -/
  ofNat : Nat → R
  /-- The number nearest to a decimal: its digits, whether the exponent is
  negative, and the size of the exponent. -/
  ofDecimal : Nat → Bool → Nat → R
  decLt : (a b : R) → Decidable (a < b)
  decLe : (a b : R) → Decidable (a ≤ b)
  abs : R → R
  floor : R → R
  /-- The nearest whole number, a half away from zero. -/
  round : R → R
  sqrt : R → R
  cbrt : R → R
  pow : R → R → R
  ln : R → R
  log2 : R → R
  /-- The angle of a point, from its second and its first coordinate. -/
  atan2 : R → R → R
  /-- One with the sign of the argument, also for a zero that has one. -/
  signum : R → R
  isNaN : R → Bool
  isFinite : R → Bool
  /-- Above every finite number, where there is such a value. -/
  infinity : R
  /-- The whole part as a natural number: 0 below zero and for NaN, and at most
  what the machine counts with. -/
  toNat : R → Nat

namespace Scalar

variable {R : Type} [Scalar R]

instance (a b : R) : Decidable (a < b) := Scalar.decLt a b

instance (a b : R) : Decidable (a ≤ b) := Scalar.decLe a b

/-- A numeral is the number nearest to it. -/
scoped instance instNumeral (n : Nat) : OfNat R n := ⟨Scalar.ofNat n⟩

/-- A decimal literal is the number nearest to it. -/
scoped instance instDecimal : OfScientific R := ⟨Scalar.ofDecimal⟩

/-- The larger number; the other one where one is NaN. -/
def maxNum (a b : R) : R :=
  if isNaN a then b else if isNaN b then a else if b < a then a else b

/-- The smaller number; the other one where one is NaN. -/
def minNum (a b : R) : R :=
  if isNaN a then b else if isNaN b then a else if a < b then a else b

/-- The nearest number of an interval. NaN stays NaN. -/
def clamp (v lo hi : R) : R :=
  if v < lo then lo else if hi < v then hi else v

end Scalar

/-- Parameters are rounded to samples to render with them, and samples are
widened to parameters without loss. -/
class Precision (P S : Type) where
  narrow : P → S
  widen : S → P

end ColorPipeline
