-- Arithmetic that rounds nothing. A finite number stands for a real number, and
-- what a formula makes of finite numbers stands for what it makes of those.
-- Of NaN and the infinities nothing is asked.
import ColorPipeline.Number.Stored
import Mathlib.Analysis.SpecialFunctions.Complex.Arg
import Mathlib.Analysis.SpecialFunctions.Log.Base
import Mathlib.Analysis.SpecialFunctions.Pow.Real

namespace ColorPipeline

/-- Numbers whose arithmetic is exact where it is finite. -/
class ExactScalar (R : Type) [Scalar R] where
  /-- The number stands for a real number. -/
  Is : R → ℝ → Prop
  isFinite_iff (a : R) : Scalar.isFinite a ↔ ∃ x, Is a x
  ofNat (n : Nat) : Is (Scalar.ofNat n) n
  ofDecimal (digits : Nat) (negative : Bool) (exponent : Nat) :
    Is (Scalar.ofDecimal digits negative exponent)
      (if negative then digits / 10 ^ exponent else digits * 10 ^ exponent)
  add {a b : R} {x y : ℝ} : Is a x → Is b y → Is (a + b) (x + y)
  sub {a b : R} {x y : ℝ} : Is a x → Is b y → Is (a - b) (x - y)
  mul {a b : R} {x y : ℝ} : Is a x → Is b y → Is (a * b) (x * y)
  div {a b : R} {x y : ℝ} : Is a x → Is b y → y ≠ 0 → Is (a / b) (x / y)
  lt_iff {a b : R} {x y : ℝ} : Is a x → Is b y → (a < b ↔ x < y)
  le_iff {a b : R} {x y : ℝ} : Is a x → Is b y → (a ≤ b ↔ x ≤ y)

/-- Samples that become parameters stand for the same real numbers. -/
class ExactPrecision (P S : Type) [Scalar P] [Scalar S] [Precision P S] [ExactScalar P]
    [ExactScalar S] : Prop where
  widen {a : S} {x : ℝ} : ExactScalar.Is a x → ExactScalar.Is (Precision.widen a : P) x

namespace Scalar

variable {R : Type} [Scalar R] {a b v lo hi : R}

theorem isFinite_maxNum (ha : Scalar.isFinite a) (hb : Scalar.isFinite b) :
    Scalar.isFinite (Scalar.maxNum a b) := by
  unfold Scalar.maxNum
  split_ifs <;> assumption

theorem isFinite_minNum (ha : Scalar.isFinite a) (hb : Scalar.isFinite b) :
    Scalar.isFinite (Scalar.minNum a b) := by
  unfold Scalar.minNum
  split_ifs <;> assumption

/-- What lies between finite limits is finite. -/
theorem isFinite_clamp (hv : Scalar.isFinite v) (hlo : Scalar.isFinite lo)
    (hhi : Scalar.isFinite hi) : Scalar.isFinite (Scalar.clamp v lo hi) := by
  unfold Scalar.clamp
  split_ifs <;> assumption

end Scalar

namespace ExactScalar

open scoped ColorPipeline.Scalar

variable {R : Type} [Scalar R] [ExactScalar R]

theorem isFinite {a : R} {x : ℝ} (h : Is a x) : Scalar.isFinite a :=
  (isFinite_iff a).mpr ⟨x, h⟩

theorem isFinite_numeral (n : Nat) : Scalar.isFinite (OfNat.ofNat n : R) := isFinite (ofNat n)

/-- Exact arithmetic on finite numbers stays finite. -/
theorem isFinite_add {a b : R} (ha : Scalar.isFinite a) (hb : Scalar.isFinite b) :
    Scalar.isFinite (a + b) := by
  obtain ⟨x, hx⟩ := (isFinite_iff a).mp ha
  obtain ⟨y, hy⟩ := (isFinite_iff b).mp hb
  exact isFinite (add hx hy)

theorem isFinite_sub {a b : R} (ha : Scalar.isFinite a) (hb : Scalar.isFinite b) :
    Scalar.isFinite (a - b) := by
  obtain ⟨x, hx⟩ := (isFinite_iff a).mp ha
  obtain ⟨y, hy⟩ := (isFinite_iff b).mp hb
  exact isFinite (sub hx hy)

theorem isFinite_mul {a b : R} (ha : Scalar.isFinite a) (hb : Scalar.isFinite b) :
    Scalar.isFinite (a * b) := by
  obtain ⟨x, hx⟩ := (isFinite_iff a).mp ha
  obtain ⟨y, hy⟩ := (isFinite_iff b).mp hb
  exact isFinite (mul hx hy)

theorem zero_lt_one : (0 : R) < 1 := by
  refine (lt_iff (ofNat 0) (ofNat 1)).mpr ?_
  norm_num

/-- What is below a finite number is not above it. -/
theorem not_le_of_lt {a b : R} (ha : Scalar.isFinite a) (hb : Scalar.isFinite b) (h : a < b) :
    ¬ b ≤ a := by
  obtain ⟨x, hx⟩ := (isFinite_iff a).mp ha
  obtain ⟨y, hy⟩ := (isFinite_iff b).mp hb
  rw [lt_iff hx hy] at h
  rw [le_iff hy hx]
  exact not_le_of_gt h

theorem not_lt_of_le {a b : R} (ha : Scalar.isFinite a) (hb : Scalar.isFinite b) (h : a ≤ b) :
    ¬ b < a := by
  obtain ⟨x, hx⟩ := (isFinite_iff a).mp ha
  obtain ⟨y, hy⟩ := (isFinite_iff b).mp hb
  rw [le_iff hx hy] at h
  rw [lt_iff hy hx]
  exact not_lt_of_ge h

end ExactScalar

/-! ## The real numbers -/

namespace RealScalar

/-- A real number is written down as the double next to it. What is cut off below the last
place of all doubles is noted in one bit more. -/
noncomputable scoped instance : Stored ℝ where
  format := .double
  bits x :=
    let places : Nat := ⌊|x| * 2 ^ 1100⌋₊
    let rest := if (places : ℝ) = |x| * 2 ^ 1100 then 0 else 1
    BinaryFormat.double.encode (.finite (decide (x < 0)) (2 * places + rest) (-1101))
  ofBits n :=
    match BinaryFormat.double.decode n with
    | .finite negative m e => (if negative then -1 else 1) * m * (2 : ℝ) ^ e
    | _ => 0

/-- The real numbers, all of them finite. Every partial function has the value there that
it has for Mathlib, and nothing is above all numbers. -/
noncomputable scoped instance : Scalar ℝ where
  beq x y := decide (x = y)
  ofNat n := n
  ofDecimal digits negative exponent :=
    if negative then digits / 10 ^ exponent else digits * 10 ^ exponent
  decLt := Real.decidableLT
  decLe := Real.decidableLE
  abs x := |x|
  floor x := ⌊x⌋
  round x := if x < 0 then ⌈x - 1 / 2⌉ else ⌊x + 1 / 2⌋
  sqrt := Real.sqrt
  cbrt x := if x < 0 then -(-x) ^ (1 / 3 : ℝ) else x ^ (1 / 3 : ℝ)
  pow x y := x ^ y
  ln := Real.log
  log2 := Real.logb 2
  atan2 y x := Complex.arg ⟨x, y⟩
  signum x := if x < 0 then -1 else 1
  isNaN _ := false
  isFinite _ := true
  infinity := 0
  toNat x := ⌊x⌋₊

-- Scalars divide too, and which of the two divisions a formula means would depend on the
-- order of imports.
noncomputable scoped instance instDivReal : Div ℝ := DivInvMonoid.toDiv

scoped instance : Precision ℝ ℝ where
  narrow := id
  widen := id

scoped instance : ExactScalar ℝ where
  Is a x := a = x
  isFinite_iff a := ⟨fun _ => ⟨a, rfl⟩, fun _ => rfl⟩
  ofNat _ := rfl
  ofDecimal _ _ _ := rfl
  add := by
    rintro a b x y rfl rfl
    rfl
  sub := by
    rintro a b x y rfl rfl
    rfl
  mul := by
    rintro a b x y rfl rfl
    rfl
  div := by
    rintro a b x y rfl rfl _
    rfl
  lt_iff := by
    rintro a b x y rfl rfl
    rfl
  le_iff := by
    rintro a b x y rfl rfl
    rfl

scoped instance : ExactPrecision ℝ ℝ where
  widen h := h

/-- A decimal with places after the point is a fraction. -/
theorem ofDecimal_eq (digits places : ℕ) :
    (Scalar.ofDecimal digits true places : ℝ) = digits / 10 ^ places := if_pos rfl

@[simp] theorem beq_iff (a b : ℝ) : Scalar.toBEq.beq a b = true ↔ a = b := decide_eq_true_iff

@[simp] theorem maxNum_eq (a b : ℝ) : Scalar.maxNum a b = max a b := by
  have h : Scalar.maxNum a b = if b < a then a else b := rfl
  rw [h]
  split
  · rename_i hlt
    exact (max_eq_left (le_of_lt hlt)).symm
  · rename_i hle
    exact (max_eq_right (not_lt.mp hle)).symm

@[simp] theorem minNum_eq (a b : ℝ) : Scalar.minNum a b = min a b := by
  have h : Scalar.minNum a b = if a < b then a else b := rfl
  rw [h]
  split
  · rename_i hlt
    exact (min_eq_left (le_of_lt hlt)).symm
  · rename_i hle
    exact (min_eq_right (not_lt.mp hle)).symm

theorem clamp_eq {v lo hi : ℝ} (h : lo ≤ hi) : Scalar.clamp v lo hi = min (max v lo) hi := by
  have hclamp : Scalar.clamp v lo hi = if v < lo then lo else if hi < v then hi else v := rfl
  rw [hclamp]
  split
  · rename_i hlow
    rw [max_eq_right (le_of_lt hlow), min_eq_left h]
  · rename_i hlow
    rw [max_eq_left (not_lt.mp hlow)]
    split
    · rename_i hhigh
      exact (min_eq_right (le_of_lt hhigh)).symm
    · rename_i hhigh
      exact (min_eq_left (not_lt.mp hhigh)).symm

/-- The limits of the unit interval are written as numerals in the model. -/
theorem clamp_unit (v : ℝ) :
    Scalar.clamp v ((0 : ℕ) : ℝ) ((1 : ℕ) : ℝ) = min (max v 0) 1 := by
  rw [Nat.cast_zero, Nat.cast_one, clamp_eq zero_le_one]

theorem decimal_half : ((5 : ℕ) : ℝ) / ((10 : ℕ) : ℝ) ^ 1 = 1 / 2 := by norm_num

end RealScalar

end ColorPipeline
