-- Numbers up to the signs of zeros. What is computed from numbers that differ in such signs
-- differs in such signs at most, as long as nothing is divided by a zero. A sum whose first
-- number is not a negative zero does not even show the sign of the second.
import ColorPipeline.Image.Pixel
import ColorPipeline.Number.Scalar
import Mathlib.Tactic.SplitIfs

open scoped ColorPipeline.Scalar

namespace ColorPipeline

variable {R : Type} [Scalar R] {a b c d : R}

/-- The same number, or two zeros, whose signs may differ. -/
def Alike (a b : R) : Prop := a = b ∨ (a == 0) = true ∧ (b == 0) = true

namespace Alike

theorem refl (a : R) : Alike a a := .inl rfl

theorem symm (h : Alike a b) : Alike b a := h.imp Eq.symm And.symm

/-- Numbers that are alike are equal where they are not zero. -/
theorem eq_of_ne (h : Alike a b) (ha : ¬ (a == 0) = true) : a = b :=
  h.resolve_right fun hzero => ha hzero.1

end Alike

/-- Arithmetic that shows the sign of a zero only where it is divided by. -/
class SignlessZeros (R : Type) [Scalar R] : Prop where
  alike_of_beq {a b : R} : a == b → Alike a b
  /-- Numbers are equal where nothing is between them. -/
  alike_of_sub {a b : R} : Scalar.isFinite a → Scalar.isFinite b → a - b == 0 → Alike a b
  add_zero {a b : R} : Alike a b → a + 0 = b + 0
  add {a b c d : R} : Alike a b → Alike c d → Alike (a + c) (b + d)
  sub {a b c d : R} : Alike a b → Alike c d → Alike (a - c) (b - d)
  mul {a b c d : R} : Alike a b → Alike c d → Alike (a * c) (b * d)
  div {a b : R} (c : R) : Alike a b → Alike (a / c) (b / c)
  neg {a b : R} : Alike a b → Alike (-a) (-b)
  abs {a b : R} : Alike a b → Alike (Scalar.abs a) (Scalar.abs b)
  sqrt {a b : R} : Alike a b → Alike (Scalar.sqrt a) (Scalar.sqrt b)
  lt_iff {a b c d : R} : Alike a b → Alike c d → (a < c ↔ b < d)
  le_iff {a b c d : R} : Alike a b → Alike c d → (a ≤ c ↔ b ≤ d)
  beq_eq {a b c d : R} : Alike a b → Alike c d → (a == c) = (b == d)
  isNaN_eq {a b : R} : Alike a b → Scalar.isNaN a = Scalar.isNaN b
  le_self {a : R} : Scalar.isFinite a → a ≤ a
  abs_zero : Scalar.abs (0 : R) = 0
  decimal_pos (places : Nat) : places ≤ 10 → (0 : R) < Scalar.ofDecimal 1 true places

/-- Adding zero leaves any number as it is but a negative zero. -/
def IsPlain (a : R) : Prop := a + 0 = a

/-- Sums that are a negative zero only where all of their numbers are. -/
class PlainSums (R : Type) [Scalar R] : Prop extends SignlessZeros R where
  add_eq {a b c : R} : IsPlain a → Alike b c → a + b = a + c
  isPlain_add {a : R} (b : R) : IsPlain a → IsPlain (a + b)
  isPlain_ofNat (n : Nat) : IsPlain (Scalar.ofNat n : R)
  isPlain_mul_inverse (m n : Nat) : IsPlain (Scalar.ofNat m * (1 / Scalar.ofNat n) : R)

namespace Alike

variable [SignlessZeros R]

/-- Quotients are alike where nothing is divided by zero. The sign of a zero would show there. -/
theorem div_of_ne (hab : Alike a b) (hcd : Alike c d) (hc : ¬ (c == 0) = true) :
    Alike (a / c) (b / d) := by
  rw [← hcd.eq_of_ne hc]
  exact SignlessZeros.div c hab

/-- The larger one of two numbers does not show the sign of a zero. -/
theorem maxNum (hab : Alike a b) (hcd : Alike c d) :
    Alike (Scalar.maxNum a c) (Scalar.maxNum b d) := by
  unfold Scalar.maxNum
  simp only [SignlessZeros.isNaN_eq hab, SignlessZeros.isNaN_eq hcd, SignlessZeros.lt_iff hcd hab]
  split_ifs <;> assumption

theorem minNum (hab : Alike a b) (hcd : Alike c d) :
    Alike (Scalar.minNum a c) (Scalar.minNum b d) := by
  unfold Scalar.minNum
  simp only [SignlessZeros.isNaN_eq hab, SignlessZeros.isNaN_eq hcd, SignlessZeros.lt_iff hab hcd]
  split_ifs <;> assumption

end Alike

theorem IsPlain.clamp [PlainSums R] {v : R} (h : IsPlain v) : IsPlain (Scalar.clamp v 0 1) := by
  unfold Scalar.clamp
  split_ifs
  · exact PlainSums.isPlain_ofNat 0
  · exact PlainSums.isPlain_ofNat 1
  · exact h

/-! ## Colours -/

/-- Colours that are alike in each channel. -/
def Rgb.Alike (p q : Rgb R) : Prop := ∀ c, ColorPipeline.Alike (p.get c) (q.get c)

theorem Rgb.Alike.refl (p : Rgb R) : p.Alike p := fun _ => .refl _

theorem Rgb.alike_iff {p q : Rgb R} : p.Alike q ↔
    ColorPipeline.Alike p.red q.red ∧ ColorPipeline.Alike p.green q.green ∧
      ColorPipeline.Alike p.blue q.blue := by
  constructor
  · exact fun h => ⟨h .red, h .green, h .blue⟩
  · rintro ⟨hred, hgreen, hblue⟩ c
    cases c <;> assumption

end ColorPipeline
