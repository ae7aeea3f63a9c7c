-- The samples that ops are rendered with. The checks of an op look at its parameters, and only
-- its renderer rounds them to samples. There large ones become infinite, and a base close to 1
-- becomes 1.
import ColorPipeline.Proofs.Checks
import ColorPipeline.Proofs.Fingerprints
import ColorPipeline.Proofs.MachineValues
import ColorPipeline.Render.Renderer

open scoped ColorPipeline.Scalar

namespace ColorPipeline

open Float.Model

/-! ## NaN -/

namespace Packed

variable {R : Type} [Scalar R] [Packed R] {a b : R}

theorem isNaN_iff : Scalar.isNaN a ↔ unpack a = .notANumber := by
  rw [isNaN_eq]
  exact UnpackedFloat.isNaN_iff

theorem unpack_pack_nan : unpack (pack .notANumber : R) = .notANumber := by
  rw [unpack_pack]
  exact UnpackedFloat.unpack_packedNaN

theorem isNaN_add_left (b : R) (h : Scalar.isNaN a) : Scalar.isNaN (a + b) := by
  rw [isNaN_iff] at h ⊢
  rw [add_eq, h]
  exact unpack_pack_nan

theorem isNaN_add_right (a : R) (h : Scalar.isNaN b) : Scalar.isNaN (a + b) := by
  rw [isNaN_iff] at h ⊢
  have hsum : UnpackedFloat.add (format R) (unpack a) .notANumber = .notANumber := by
    cases unpack a <;> rfl
  rw [add_eq, h, hsum]
  exact unpack_pack_nan

/-- A number times zero is a zero, but for the infinities. -/
theorem unpack_mul_zero (h : Scalar.isFinite a) : ∃ s, unpack (a * 0) = .zero s := by
  rw [isFinite_eq] at h
  rw [mul_eq, unpack_zero]
  generalize unpack a = u at h ⊢
  cases u with
  | notANumber => cases h
  | infinity s => cases h
  | zero s => exact ⟨_, unpack_pack_zero _⟩
  | finite s m e hm => exact ⟨_, unpack_pack_zero _⟩

/-- Numbers that are not finite show in a product with zero. -/
theorem isNaN_mul_zero (h : ¬ Scalar.isFinite a) : Scalar.isNaN (a * 0) := by
  rw [isFinite_eq] at h
  rw [isNaN_iff, mul_eq, unpack_zero]
  generalize unpack a = u at h ⊢
  cases u with
  | notANumber => exact unpack_pack_nan
  | infinity s => exact unpack_pack_nan
  | zero s => exact absurd rfl h
  | finite s m e hm => exact absurd rfl h

theorem zero_mul_eq (a : R) : 0 * a = a * 0 := by
  rw [mul_eq, mul_eq, unpack_zero]
  rcases unpack a with (_ | _) | _ | (_ | _) | ⟨_ | _, m, e, hm⟩ <;> rfl

theorem isNaN_zero_mul_iff : Scalar.isNaN (0 * a) ↔ ¬ Scalar.isFinite a := by
  rw [zero_mul_eq]
  constructor
  · intro hnan hfinite
    obtain ⟨s, hs⟩ := unpack_mul_zero hfinite
    cases hs.symm.trans (isNaN_iff.mp hnan)
  · exact isNaN_mul_zero

theorem unpack_add_zeros (ha : ∃ s, unpack a = .zero s) (hb : ∃ s, unpack b = .zero s) :
    ∃ s, unpack (a + b) = .zero s := by
  obtain ⟨s, hs⟩ := ha
  obtain ⟨t, ht⟩ := hb
  rw [add_eq, hs, ht]
  cases s <;> cases t <;> exact ⟨_, unpack_pack_zero _⟩

theorem isNaN_zero_add (ha : ∃ s, unpack a = .zero s) (hb : ¬ Scalar.isNaN b) :
    ¬ Scalar.isNaN (a + b) := by
  obtain ⟨s, hs⟩ := ha
  rw [isNaN_iff] at hb ⊢
  have hsame := unpack_pack_unpack b
  rw [add_eq, hs, unpack_pack]
  rcases hu : unpack b with t | _ | t | ⟨t, n, k, hn⟩
  · rw [hu] at hsame
    intro h
    cases hsame.symm.trans h
  · exact absurd hu hb
  · intro h
    cases s <;> cases t <;> cases UnpackedFloat.unpack_packedZero.symm.trans h
  · rw [hu] at hsame
    intro h
    cases hsame.symm.trans h

end Packed

/-! ## Matrices -/

section Matrices

variable {R : Type} [Scalar R] [Packed R]

/-- A row takes black to its offset, but for an infinite weight, which makes NaN of it. -/
theorem not_isNaN_dot_black_iff (row : Rgba R) {offset : R} (hoffset : ¬ Scalar.isNaN offset) :
    ¬ Scalar.isNaN (Matrix4.dot row ⟨0, 0, 0, 0⟩ + offset) ↔ row.IsFinite := by
  unfold Matrix4.dot
  constructor
  · intro h
    refine ⟨?_, ?_, ?_, ?_⟩ <;> by_contra hinfinite <;>
      have hnan := Packed.isNaN_mul_zero hinfinite <;> refine h (Packed.isNaN_add_left _ ?_)
    · exact Packed.isNaN_add_left _ (Packed.isNaN_add_left _ (Packed.isNaN_add_left _ hnan))
    · exact Packed.isNaN_add_left _ (Packed.isNaN_add_left _ (Packed.isNaN_add_right _ hnan))
    · exact Packed.isNaN_add_left _ (Packed.isNaN_add_right _ hnan)
    · exact Packed.isNaN_add_right _ hnan
  · rintro ⟨hred, hgreen, hblue, halpha⟩
    refine Packed.isNaN_zero_add ?_ hoffset
    exact Packed.unpack_add_zeros (Packed.unpack_add_zeros (Packed.unpack_add_zeros
      (Packed.unpack_mul_zero hred) (Packed.unpack_mul_zero hgreen))
      (Packed.unpack_mul_zero hblue)) (Packed.unpack_mul_zero halpha)

/-- Black pixels are rendered soundly by a matrix exactly where all of its weights are finite. -/
theorem matrix_black_iff (weights : Matrix4 R) {offset : Rgba R}
    (hoffset : offset.All fun v => ¬ Scalar.isNaN v) :
    ((Renderer.matrix weights offset).apply ⟨0, 0, 0, 0⟩).All (fun v => ¬ Scalar.isNaN v) ↔
      Matrix4.IsFinite weights := by
  obtain ⟨hred, hgreen, hblue, halpha⟩ := hoffset
  exact and_congr (not_isNaN_dot_black_iff _ hred) (and_congr
    (not_isNaN_dot_black_iff _ hgreen) (and_congr (not_isNaN_dot_black_iff _ hblue)
      (not_isNaN_dot_black_iff _ halpha)))

end Matrices

/-! ## Ranges -/

/-- All numbers of a clamped affine map have a property. -/
def ClampedAffine.All {P : Type} (p : P → Prop) (a : ClampedAffine P) : Prop :=
  p a.scale ∧ p a.offset ∧ (∀ v ∈ a.lower, p v) ∧ ∀ v ∈ a.upper, p v

namespace Renderer

/-- What is limited from above is not NaN, which stands for the highest value there is. -/
theorem not_isNaN_atMost {S : Type} [Scalar S] {upper : Option S}
    (hhighest : ¬ Scalar.isNaN (Scalar.infinity : S)) (hupper : ∀ hi ∈ upper, ¬ Scalar.isNaN hi)
    (v : S) : ¬ Scalar.isNaN (atMost upper v) := by
  unfold atMost
  cases upper with
  | none =>
    dsimp only
    split_ifs with hv
    · exact hhighest
    · exact hv
  | some hi =>
    dsimp only [Scalar.minNum]
    split_ifs with hv <;> first | exact hupper hi rfl | exact hv

end Renderer

theorem RangeOp.upper_mem_bounds {P : Type} [Scalar P] (r : RangeOp P) :
    ∀ v ∈ r.affine.upper, v ∈ r.bounds := by
  obtain ⟨minIn, maxIn, minOut, maxOut⟩ := r
  unfold affine
  dsimp only
  split <;> simp [bounds]

/-! ## Surrounds -/

namespace Surround

variable {S : Type} [Scalar S]

/-- What the Rec.2100 surround of a direction multiplies black with. -/
def blackFactorOf (gamma : S) : Direction → S
  | .forward => factor2100 gamma floor2100 0
  | .inverse => factor2100 (1 / gamma) (outputFloor2100 gamma) 0

end Surround

/-! ## Machine numbers -/

section Constants

open Stored (toRat?_of_value)

theorem toRat?_one_double : Stored.toRat? (1 : Float) = some 1 :=
  toRat?_of_value (m := 4503599627370496) (e := -52) (by decide +kernel) (by norm_num)

theorem toRat?_zero_single : Stored.toRat? (0 : Float32) = some 0 :=
  toRat?_of_value (m := 0) (e := -149) (by decide +kernel) (by norm_num)

theorem toRat?_one_single : Stored.toRat? (1 : Float32) = some 1 :=
  toRat?_of_value (m := 8388608) (e := -23) (by decide +kernel) (by norm_num)

theorem toRat?_lowest :
    Stored.toRat? (ExponentOp.lowest : Float) = some (5764607523034235 / 2 ^ 59) :=
  toRat?_of_value (m := 5764607523034235) (e := -59) (by decide +kernel) (by norm_num)

theorem toRat?_highest : Stored.toRat? (ExponentOp.highest : Float) = some 100 :=
  toRat?_of_value (m := 7036874417766400) (e := -46) (by decide +kernel) (by norm_num)

end Constants

section Machine

variable {v : Float} {x : ℚ}

/-- A positive number that neither vanishes nor overflows is a positive sample. -/
theorem finite_pos_narrowed (hx : Stored.toRat? v = some x) (hlow : 1 / 2 ^ 150 < x)
    (hhigh : x < 2 ^ 128 - 2 ^ 103) : Scalar.isFinite (narrowed v) ∧ 0 < narrowed v := by
  have hfits : |x| < 2 ^ 128 - 2 ^ 103 := by
    rw [abs_of_pos ((by positivity : (0 : ℚ) < 1 / 2 ^ 150).trans hlow)]
    exact hhigh
  obtain ⟨y, hy, hrounds⟩ := exists_rounds hx hfits
  exact ⟨isFinite_narrowed_iff.mpr ⟨x, hx, hfits⟩,
    (LawfulValues.lt_iff toRat?_zero_single hy).mpr (hrounds.pos_iff.mpr hlow)⟩

/-- What is within the bounds of exponents is narrowed to a positive sample. -/
theorem finite_pos_of_bounds (hnan : ¬ Scalar.isNaN v) (hlow : ¬ v < ExponentOp.lowest)
    (hhigh : ¬ ExponentOp.highest < v) : Scalar.isFinite (narrowed v) ∧ 0 < narrowed v := by
  obtain ⟨x, hx, hlow', hhigh'⟩ :=
    LawfulValues.exists_between toRat?_lowest toRat?_highest hnan hlow hhigh
  exact finite_pos_narrowed hx (lt_of_lt_of_le (by norm_num) hlow') (hhigh'.trans_lt (by norm_num))

theorem rec2100_black (gamma floor : Float32) :
    Surround.rec2100 gamma floor ⟨0, 0, 0⟩ =
      Rgb.gray (0 * Surround.factor2100 gamma floor 0) := by
  have hluminance : Scalar.abs (Surround.luminance Surround.weights2100 ⟨0, 0, 0⟩) =
      (0 : Float32) := Float32.toBits_inj.mp (by decide +kernel)
  unfold Surround.rec2100
  rw [hluminance]
  rfl

/-- A base that has a logarithm other than zero. -/
structure UsableBase (b : Float32) : Prop where
  finite : Scalar.isFinite b
  pos : 0 < b
  ne_one : ¬ b == 1

/-- A base whose logarithm is far enough from zero to be divided by. -/
structure SteadyBase (b : Float32) : Prop extends UsableBase b where
  log_far : ∃ y : ℚ, Stored.toRat? b = some y ∧ 1 / 2 ^ 24 ≤ |Real.log y|

/-- The bases that are rounded to usable ones. -/
def usableBases : Set ℚ :=
  Set.Ioo (1 / 2 ^ 150) (1 - 1 / 2 ^ 25) ∪ Set.Ioo (1 + 1 / 2 ^ 24) (2 ^ 128 - 2 ^ 103)

/-- A base can be used where the number it is rounded to is positive and not one. -/
theorem usableBase_iff (hx : Stored.toRat? v = some x) :
    UsableBase (narrowed v) ↔ x ∈ usableBases := by
  have hsplit : x ∈ usableBases ↔ (1 / 2 ^ 150 < x ∧ x < 2 ^ 128 - 2 ^ 103) ∧
      ¬ (1 - 1 / 2 ^ 25 ≤ x ∧ x ≤ 1 + 1 / 2 ^ 24) := by
    have hlow : (1 / 2 ^ 150 : ℚ) < 1 + 1 / 2 ^ 24 := by norm_num
    have hhigh : (1 - 1 / 2 ^ 25 : ℚ) < 2 ^ 128 - 2 ^ 103 := by norm_num
    rw [not_and_or, not_le, not_le]
    constructor
    · rintro (⟨h, h'⟩ | ⟨h, h'⟩)
      · exact ⟨⟨h, h'.trans hhigh⟩, .inl h'⟩
      · exact ⟨⟨hlow.trans h, h'⟩, .inr h⟩
    · rintro ⟨⟨h, h'⟩, hgap | hgap⟩
      · exact .inl ⟨h, hgap⟩
      · exact .inr ⟨hgap, h'⟩
  rw [hsplit]
  constructor
  · rintro ⟨hfinite, hpos, hone⟩
    obtain ⟨hfits, y, hy, hrounds⟩ := exists_rounds_of_isFinite hx hfinite
    rw [LawfulValues.lt_iff toRat?_zero_single hy, hrounds.pos_iff] at hpos
    rw [LawfulValues.beq_iff hy toRat?_one_single, hrounds.one_iff] at hone
    exact ⟨⟨hpos, (abs_lt.mp hfits).2⟩, hone⟩
  · rintro ⟨⟨hlow, hhigh⟩, hgap⟩
    obtain ⟨hfinite, hpos⟩ := finite_pos_narrowed hx hlow hhigh
    obtain ⟨-, y, hy, hrounds⟩ := exists_rounds_of_isFinite hx hfinite
    rw [← hrounds.one_iff, ← LawfulValues.beq_iff hy toRat?_one_single] at hgap
    exact ⟨hfinite, hpos, hgap⟩

/-- Samples lie so far apart that a usable base is not close to 1. -/
theorem UsableBase.steady (h : UsableBase (narrowed v)) : SteadyBase (narrowed v) := by
  refine ⟨h, ?_⟩
  obtain ⟨hfinite, hpos, hone⟩ := h
  obtain ⟨x, hx, hfits⟩ := isFinite_narrowed_iff.mp hfinite
  obtain ⟨y, hy, hrounds⟩ := exists_rounds hx hfits
  rw [LawfulValues.lt_iff toRat?_zero_single hy] at hpos
  rw [LawfulValues.beq_iff hy toRat?_one_single] at hone
  have hpos' : (0 : ℝ) < y := Rat.cast_pos.mpr hpos
  refine ⟨y, hy, ?_⟩
  rcases hrounds.gap hpos hone with hbelow | habove
  · have hbelow' := (Rat.cast_le (K := ℝ)).mpr hbelow
    have hlog := Real.log_le_sub_one_of_pos hpos'
    push_cast at hbelow'
    rw [le_abs]
    exact .inr (by linarith)
  · have habove' := (Rat.cast_le (K := ℝ)).mpr habove
    have hlog := Real.one_sub_inv_le_log_of_pos hpos'
    push_cast at habove'
    have hinverse : (y : ℝ)⁻¹ ≤ (1 + 1 / 2 ^ 23)⁻¹ := inv_anti₀ (by positivity) habove'
    have hnext : (1 + 1 / 2 ^ 23 : ℝ)⁻¹ ≤ 1 - 1 / 2 ^ 24 := by norm_num
    rw [le_abs]
    exact .inl (by linarith)

/-! ## Kinds of ops -/

/-- The samples that an op is rendered with are finite, and they do not make NaN by themselves: a
matrix or a surround makes none of black and a range none of any pixel, exponents and gammas are
positive, and the logarithm of a base can be divided by. Tables are rendered with the samples that
they hold. -/
def OpData.RendersSoundly (d : OpData Float Float32) : Prop :=
  match d with
  | .matrix _ => ∃ weights offset, Renderer.ofData d = .ok (.matrix weights offset) ∧
      Matrix4.IsFinite weights ∧ offset.IsFinite ∧
      ((Renderer.matrix weights offset).apply ⟨0, 0, 0, 0⟩).All fun v => ¬ Scalar.isNaN v
  | .range _ => ∃ scale offset lower upper,
      Renderer.ofData d = .ok (.range scale offset lower upper) ∧
      ClampedAffine.All (fun v => Scalar.isFinite v) ⟨scale, offset, lower, upper⟩ ∧
      ∀ p, ∀ v ∈ ((Renderer.range scale offset lower upper).apply p).rgb.toList,
        ¬ Scalar.isNaN v
  | .exponent e => ∃ powers, Renderer.ofData d = .ok (.exponent powers e.style) ∧
      powers.All fun v => Scalar.isFinite v ∧ 0 < v
  | .fixedFunction f => ∃ gamma, Renderer.ofData d = .ok (.fixedFunction f.style gamma) ∧
      Scalar.isFinite gamma ∧ 0 < gamma ∧ (f.isSurround →
        ((Renderer.fixedFunction f.style gamma).apply ⟨0, 0, 0, 0⟩).All fun v => ¬ Scalar.isNaN v)
  | .log l => (Renderer.ofData d = .ok (match l.direction with
        | .forward => .logarithm (1 / Scalar.ln (narrowed l.base))
        | .inverse => .antilogarithm (narrowed l.base))) ∧
      SteadyBase (narrowed l.base)
  | .lut1D _ => True
  | .lut3D _ => True

/-- The parameters of an op that its renderer rounds are not too large, and a base is not too close
to 0 or to 1. Exponents and gammas have bounds of their own, but a power of a surround can be too
large. -/
def OpData.FitsSamples : OpData Float Float32 → Prop
  | .matrix m => (m.matrix.All fun row => row.All FitsSample) ∧ m.offset.All FitsSample
  | .range r => r.affine.All FitsSample
  | .exponent _ => True
  | .fixedFunction f => f.isSurround →
      Scalar.isFinite (Surround.blackFactorOf (narrowed f.gamma) f.style.direction)
  | .log l => ∃ x ∈ usableBases, Stored.toRat? l.base = some x
  | .lut1D _ => True
  | .lut3D _ => True

theorem isFinite_map_narrowed (row : Rgba Float) :
    (row.map narrowed).IsFinite ↔ row.All FitsSample :=
  and_congr isFinite_narrowed_iff (and_congr isFinite_narrowed_iff
    (and_congr isFinite_narrowed_iff isFinite_narrowed_iff))

theorem isFinite_map_map_narrowed (m : Matrix4 Float) :
    Matrix4.IsFinite (m.map fun row => row.map narrowed) ↔
      m.All fun row => row.All FitsSample :=
  and_congr (isFinite_map_narrowed _) (and_congr (isFinite_map_narrowed _)
    (and_congr (isFinite_map_narrowed _) (isFinite_map_narrowed _)))

/-- A matrix renders soundly where its numbers fit into samples. -/
theorem matrix_rendersSoundly_iff {m : MatrixOp Float} (h : m.validate = .ok ()) :
    OpData.RendersSoundly (.matrix m) ↔ OpData.FitsSamples (.matrix m) := by
  have hoffset : (m.offset.map narrowed).All fun v => ¬ Scalar.isNaN v :=
    ((MatrixOp.validate_iff m).mp h).2.map fun _ => not_isNaN_narrowed
  constructor
  · rintro ⟨weights, offset, hrenderer, hweights, hfinite, -⟩
    obtain ⟨rfl, rfl⟩ := Renderer.matrix.inj (Except.ok.inj hrenderer)
    exact ⟨(isFinite_map_map_narrowed _).mp hweights, (isFinite_map_narrowed _).mp hfinite⟩
  · rintro ⟨hmatrix, hfits⟩
    have hweights := (isFinite_map_map_narrowed _).mpr hmatrix
    exact ⟨_, _, rfl, hweights, (isFinite_map_narrowed _).mpr hfits,
      (matrix_black_iff _ hoffset).mpr hweights⟩

theorem range_rendersSoundly_iff {r : RangeOp Float} (h : r.validate = .ok ()) :
    OpData.RendersSoundly (.range r) ↔ OpData.FitsSamples (.range r) := by
  have hlimits : ∀ limit : Option Float, (∀ v ∈ limit.map narrowed, Scalar.isFinite v) ↔
      ∀ v ∈ limit, FitsSample v := by
    intro limit
    simp only [Option.mem_map, forall_exists_index, and_imp, forall_apply_eq_imp_iff₂,
      isFinite_narrowed_iff]
  have hsamples : ClampedAffine.All (fun v => Scalar.isFinite v)
      ⟨narrowed r.affine.scale, narrowed r.affine.offset, r.affine.lower.map narrowed,
        r.affine.upper.map narrowed⟩ ↔ r.affine.All FitsSample :=
    and_congr isFinite_narrowed_iff (and_congr isFinite_narrowed_iff
      (and_congr (hlimits _) (hlimits _)))
  have hupper : ∀ v ∈ r.affine.upper.map narrowed, ¬ Scalar.isNaN v := by
    intro v hv
    obtain ⟨w, hw, rfl⟩ := Option.mem_map.mp hv
    exact not_isNaN_narrowed (((RangeOp.validate_iff r).mp h).finite w (r.upper_mem_bounds w hw))
  have hhighest : ¬ Scalar.isNaN (Scalar.infinity : Float32) := by decide +kernel
  constructor
  · rintro ⟨scale, offset, lower, upper, hrenderer, hfinite, -⟩
    obtain ⟨rfl, rfl, rfl, rfl⟩ := Renderer.range.inj (Except.ok.inj hrenderer)
    exact hsamples.mp hfinite
  · intro hfits
    refine ⟨_, _, _, _, rfl, hsamples.mpr hfits, ?_⟩
    intro p
    rw [Rgb.forall_mem_toList]
    intro c
    cases c <;> exact Renderer.not_isNaN_atMost hhighest hupper _

theorem exponent_rendersSoundly {e : ExponentOp Float} (h : e.validate = .ok ()) :
    OpData.RendersSoundly (.exponent e) := by
  refine ⟨_, rfl, ((ExponentOp.validate_iff e).mp h).map ?_⟩
  rintro v ⟨hfinite, hlow, hhigh⟩
  exact finite_pos_of_bounds (LawfulValues.not_isNaN_of_isFinite hfinite) hlow hhigh

/-- The gamma of a fixed function is 1 or within the bounds of gammas. -/
theorem FixedFunctionOp.gamma_of_validate {P : Type} [Scalar P] {f : FixedFunctionOp P}
    (h : f.validate = .ok ()) : f.gamma = 1 ∨
      ¬ Scalar.isNaN f.gamma ∧ ¬ f.gamma < lowest ∧ ¬ highest < f.gamma := by
  unfold validate at h
  unfold gamma
  split at h
  · split at h
    · rename_i v hv
      rw [hv]
      unfold checkGamma at h
      split at h
      · cases h
      · rename_i hlow
        split at h
        · cases h
        · rename_i hhigh
          rw [Bool.or_eq_true, not_or, decide_eq_true_iff] at hlow
          exact .inr ⟨hlow.1, hlow.2, hhigh⟩
    · cases h
  · split at h
    · rename_i hnone
      rw [hnone]
      exact .inl rfl
    · cases h

theorem surround_black_iff {style : FixedFunctionStyle} (h : style.family = .surround2100)
    (gamma : Float32) :
    ((Renderer.fixedFunction style gamma).apply ⟨0, 0, 0, 0⟩).All (fun v => ¬ Scalar.isNaN v) ↔
      Scalar.isFinite (Surround.blackFactorOf gamma style.direction) := by
  have hblack : (Renderer.fixedFunction style gamma).apply ⟨0, 0, 0, 0⟩ =
      Rgba.ofRgb (Rgb.gray (0 * Surround.blackFactorOf gamma style.direction)) 0 := by
    obtain ⟨family, direction⟩ := style
    cases h
    cases direction
    · exact congrArg (Rgba.ofRgb · 0) (rec2100_black gamma Surround.floor2100)
    · exact congrArg (Rgba.ofRgb · 0) (rec2100_black (1 / gamma) (Surround.outputFloor2100 gamma))
  have halpha : ¬ Scalar.isNaN (0 : Float32) := by decide +kernel
  rw [hblack, ← not_iff_not, ← Packed.isNaN_zero_mul_iff]
  constructor
  · intro hall
    by_contra hnan
    exact hall ⟨hnan, hnan, hnan, halpha⟩
  · intro hnan hall
    exact hall.1 hnan

/-- Among the fixed functions only surrounds can be unsound, by a power that is too large. -/
theorem fixedFunction_rendersSoundly_iff {f : FixedFunctionOp Float} (h : f.validate = .ok ()) :
    OpData.RendersSoundly (.fixedFunction f) ↔ OpData.FitsSamples (.fixedFunction f) := by
  have hgamma : Scalar.isFinite (narrowed f.gamma) ∧ 0 < narrowed f.gamma := by
    rcases FixedFunctionOp.gamma_of_validate h with hone | ⟨hnan, hlow, hhigh⟩
    · rw [hone]
      exact finite_pos_narrowed toRat?_one_double (by norm_num) (by norm_num)
    · exact finite_pos_of_bounds hnan hlow hhigh
  constructor
  · rintro ⟨gamma, hrenderer, -, -, hblack⟩ hsurround
    obtain ⟨-, rfl⟩ := Renderer.fixedFunction.inj (Except.ok.inj hrenderer)
    exact (surround_black_iff (beq_iff_eq.mp hsurround) _).mp (hblack hsurround)
  · intro hfits
    refine ⟨_, rfl, hgamma.1, hgamma.2, fun hsurround => ?_⟩
    exact (surround_black_iff (beq_iff_eq.mp hsurround) _).mpr (hfits hsurround)

theorem LogOp.isFinite_of_validate {P : Type} [Scalar P] {l : LogOp P}
    (h : l.validate = .ok ()) : Scalar.isFinite l.base := by
  unfold validate at h
  split at h
  · cases h
  · rename_i hpos
    rw [Bool.or_eq_true, not_or, Bool.not_eq_true', Bool.not_eq_false] at hpos
    exact hpos.1

/-- The base of a logarithm is the parameter that rounding can spoil. -/
theorem log_rendersSoundly_iff {l : LogOp Float} (h : l.validate = .ok ()) :
    OpData.RendersSoundly (.log l) ↔ OpData.FitsSamples (.log l) := by
  obtain ⟨x, hx⟩ := LawfulValues.isFinite_iff.mp (l.isFinite_of_validate h)
  constructor
  · rintro ⟨-, hsteady⟩
    exact ⟨x, (usableBase_iff hx).mp hsteady.toUsableBase, hx⟩
  · rintro ⟨x', hmem, hx'⟩
    refine ⟨?_, ((usableBase_iff hx').mpr hmem).steady⟩
    obtain ⟨base, _ | _⟩ := l <;> rfl

/-- The checks of an op do not see how its parameters are rounded for a renderer: an op that passed
them renders soundly exactly where the rounded parameters fit. -/
theorem a_checked_op_renders_soundly_iff_it_fits (d : OpData Float Float32)
    (h : d.validate = .ok ()) : d.RendersSoundly ↔ d.FitsSamples := by
  cases d with
  | matrix m => exact matrix_rendersSoundly_iff h
  | range r => exact range_rendersSoundly_iff h
  | exponent e => exact iff_of_true (exponent_rendersSoundly h) trivial
  | log l => exact log_rendersSoundly_iff h
  | lut1D l => exact Iff.rfl
  | lut3D l => exact Iff.rfl
  | fixedFunction f => exact fixedFunction_rendersSoundly_iff h

theorem common_ops_render_soundly :
    OpData.RendersSoundly (.matrix .identity) ∧ OpData.RendersSoundly (.range (.clamp 0 1)) ∧
      OpData.RendersSoundly (.exponent ⟨⟨2, 2, 2, 1⟩, .clamp⟩) ∧
      OpData.RendersSoundly (.fixedFunction ⟨⟨.hsv, .forward⟩, []⟩) ∧
      OpData.RendersSoundly (.log ⟨2, .forward⟩) := by
  have hzero : FitsSample 0 := isFinite_narrowed_iff.mp (by decide +kernel)
  have hone : FitsSample 1 := isFinite_narrowed_iff.mp (by decide +kernel)
  have htwo : Stored.toRat? (2 : Float) = some 2 :=
    Stored.toRat?_of_value (m := 4503599627370496) (e := -51) (by decide +kernel) (by norm_num)
  refine ⟨?_, ?_, ?_, ?_, ?_⟩
  · rw [a_checked_op_renders_soundly_iff_it_fits _ (eq_ok_of_isOk (by decide +kernel))]
    exact ⟨⟨⟨hone, hzero, hzero, hzero⟩, ⟨hzero, hone, hzero, hzero⟩,
      ⟨hzero, hzero, hone, hzero⟩, ⟨hzero, hzero, hzero, hone⟩⟩, hzero, hzero, hzero, hzero⟩
  · rw [a_checked_op_renders_soundly_iff_it_fits _ (eq_ok_of_isOk (by decide +kernel))]
    exact ⟨isFinite_narrowed_iff.mp (by decide +kernel),
      isFinite_narrowed_iff.mp (by decide +kernel), fun v hv => Option.some.inj hv ▸ hzero,
      fun v hv => Option.some.inj hv ▸ hone⟩
  · rw [a_checked_op_renders_soundly_iff_it_fits _ (eq_ok_of_isOk (by decide +kernel))]
    trivial
  · rw [a_checked_op_renders_soundly_iff_it_fits _ (eq_ok_of_isOk (by decide +kernel))]
    exact nofun
  · rw [a_checked_op_renders_soundly_iff_it_fits _ (eq_ok_of_isOk (by decide +kernel))]
    exact ⟨2, .inr ⟨by norm_num, by norm_num⟩, htwo⟩

theorem a_base_close_to_one_is_rounded_to_one :
    OpData.validate (.log ⟨1.00000000001, .forward⟩ : OpData Float Float32) = .ok () ∧
    Renderer.ofData (.log ⟨1.00000000001, .forward⟩ : OpData Float Float32) =
      .ok (.logarithm (1 / Scalar.ln 1)) ∧
    ¬ OpData.RendersSoundly (.log ⟨1.00000000001, .forward⟩) := by
  have hbase : narrowed 1.00000000001 = 1 := Float32.toBits_inj.mp (by decide +kernel)
  refine ⟨eq_ok_of_isOk (by decide +kernel), ?_, ?_⟩
  · rw [← hbase]
    rfl
  · rintro ⟨-, hsteady⟩
    refine hsteady.ne_one ?_
    change (narrowed 1.00000000001 == 1) = true
    rw [hbase]
    decide +kernel

end Machine

end ColorPipeline
