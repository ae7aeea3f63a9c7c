-- Powers one after the other, over the real numbers. A power leaves a value on the side of zero
-- that it is on, or has just moved it to zero for good, whatever is done with negative values. So
-- two powers in a row are one power, and its exponent is the product of theirs.
import ColorPipeline.Proofs.Checks
import ColorPipeline.Proofs.Rendering

open scoped ColorPipeline.RealScalar

namespace ColorPipeline

/-! ## Single values -/

namespace Renderer

theorem power_clamp (v e : ℝ) : power .clamp v e = max v 0 ^ e := by
  have h : power .clamp v e = Scalar.maxNum v ((0 : ℕ) : ℝ) ^ e := rfl
  rw [h, Nat.cast_zero, RealScalar.maxNum_eq]

theorem power_mirror (v e : ℝ) : power .mirror v e = (if v < 0 then -1 else 1) * |v| ^ e := rfl

theorem power_passThrough (v e : ℝ) : power .passThrough v e = if v < 0 then v else v ^ e := by
  have h : power .passThrough v e = if v < ((0 : ℕ) : ℝ) then v else v ^ e := rfl
  rw [h, Nat.cast_zero]

/-- Values that are not negative are treated alike in all styles. -/
theorem power_of_nonneg (style : NegativeStyle) {v : ℝ} (hv : 0 ≤ v) (e : ℝ) :
    power style v e = v ^ e := by
  cases style with
  | clamp => rw [power_clamp, max_eq_left hv]
  | mirror => rw [power_mirror, if_neg (not_lt.mpr hv), abs_of_nonneg hv, one_mul]
  | passThrough => rw [power_passThrough, if_neg (not_lt.mpr hv)]

theorem power_mirror_of_neg {v : ℝ} (hv : v < 0) (e : ℝ) : power .mirror v e = -(-v) ^ e := by
  rw [power_mirror, if_pos hv, abs_of_neg hv, neg_one_mul]

theorem power_passThrough_of_neg {v : ℝ} (hv : v < 0) (e : ℝ) : power .passThrough v e = v := by
  rw [power_passThrough, if_pos hv]

/-- Powers of powers multiply their exponents in every style, also at zero and below. -/
theorem power_power (style : NegativeStyle) (v a b : ℝ) :
    power style (power style v a) b = power style v (a * b) := by
  rcases le_or_gt 0 v with hv | hv
  · rw [power_of_nonneg style hv, power_of_nonneg style (Real.rpow_nonneg hv a),
      power_of_nonneg style hv, Real.rpow_mul hv]
  · cases style with
    | clamp =>
      -- what has become zero stays there, as far as a power leaves zero alone
      rw [power_clamp, power_clamp, power_clamp, max_eq_right (le_of_lt hv),
        max_eq_left (Real.rpow_nonneg le_rfl a), Real.rpow_mul le_rfl]
    | mirror =>
      have hpower : 0 < (-v) ^ a := Real.rpow_pos_of_pos (neg_pos.mpr hv) a
      rw [power_mirror_of_neg hv, power_mirror_of_neg (neg_neg_of_pos hpower), neg_neg,
        power_mirror_of_neg hv, Real.rpow_mul (le_of_lt (neg_pos.mpr hv))]
    | passThrough =>
      rw [power_passThrough_of_neg hv, power_passThrough_of_neg hv, power_passThrough_of_neg hv]

/-- Unless negative values are clamped, the exponent 1 leaves all values as they are. -/
theorem power_one {style : NegativeStyle} (hstyle : style ≠ .clamp) (v : ℝ) :
    power style v 1 = v := by
  rcases le_or_gt 0 v with hv | hv
  · rw [power_of_nonneg style hv, Real.rpow_one]
  · cases style with
    | clamp => exact absurd rfl hstyle
    | mirror => rw [power_mirror_of_neg hv, Real.rpow_one, neg_neg]
    | passThrough => exact power_passThrough_of_neg hv 1

end Renderer

/-! ## Pixels -/

namespace ExponentOp

/-- What the op makes of a pixel. -/
noncomputable def onPixel (e : ExponentOp ℝ) (px : Rgba ℝ) : Rgba ℝ :=
  px.zipWith (Renderer.power e.style) e.value

/-- Exponents multiply channel by channel, with that of alpha. -/
theorem onPixel_fuse {e next : ExponentOp ℝ} (hstyle : e.style = next.style) (px : Rgba ℝ) :
    (e.fuse next).onPixel px = next.onPixel (e.onPixel px) := by
  unfold onPixel
  rw [← hstyle]
  simp only [Rgba.zipWith, Renderer.power_power]
  rfl

/-- Exponents of one do nothing, unless negative values are cut off. -/
theorem onPixel_of_ones {e : ExponentOp ℝ} (hstyle : e.style ≠ .clamp)
    (hvalue : e.value.All (· = 1)) (px : Rgba ℝ) : e.onPixel px = px := by
  obtain ⟨hred, hgreen, hblue, halpha⟩ := hvalue
  unfold onPixel
  simp only [Rgba.zipWith, hred, hgreen, hblue, halpha, Renderer.power_one hstyle]

theorem lowest_eq : (lowest : ℝ) = 1 / 100 := by
  refine (RealScalar.ofDecimal_eq 1 2).trans ?_
  norm_num

theorem tolerance_eq : (tolerance : ℝ) = 1 / 10 ^ 9 := by
  refine (RealScalar.ofDecimal_eq 1 9).trans ?_
  norm_num

theorem canFuse_iff {e next : ExponentOp ℝ} : e.canFuse next = true ↔
    e.style = next.style ∧ (e.product next).All fun p => 1 / 100 ≤ p ∧ p ≤ 100 := by
  have hhighest : (highest : ℝ) = 100 := by
    have h : (highest : ℝ) = ((100 : ℕ) : ℝ) := rfl
    rw [h, Nat.cast_ofNat]
  unfold canFuse
  simp only [Bool.and_eq_true, beq_iff_eq, List.all_eq_true, decide_eq_true_eq, Rgba.all_iff,
    lowest_eq, hhighest]

theorem isInverse_iff {e other : ExponentOp ℝ} : e.isInverse other = true ↔
    e.style ≠ .clamp ∧ e.style = other.style ∧
      (e.product other).All fun p => |p - 1| ≤ 1 / 10 ^ 9 := by
  have habs : ∀ p : ℝ, Scalar.abs p = |p| := fun _ => rfl
  unfold isInverse
  simp only [Bool.and_eq_true, bne_iff_ne, beq_iff_eq, List.all_eq_true, decide_eq_true_eq,
    Rgba.all_iff, tolerance_eq, habs, RealScalar.numeral_one, and_assoc]

end ExponentOp

namespace OpData

@[simp] theorem rendered_exponent (e : ExponentOp ℝ) (ds : List (OpData ℝ ℝ)) (px : Rgba ℝ) :
    rendered (.exponent e :: ds) px = rendered ds (e.onPixel px) := rfl

end OpData

/-- Two powers in a row fuse into one that does what they do, in all styles and on all values,
and where a power and the next one count as inverse and their exponents cancel, the two leave
every pixel as it is, which is what the optimizer puts in their place. -/
theorem powers_fuse_and_undo_each_other (a b : ExponentOp ℝ) :
    let first : OpData ℝ ℝ := .exponent a
    let second : OpData ℝ ℝ := .exponent b
    (first.canFuse second = true → ∃ fused : ExponentOp ℝ,
      first.fuse second = .ok [.exponent fused] ∧
        OpData.SameOnPixels [first, second] [.exponent fused]) ∧
      (first.isInverse second = true → (a.product b).All (· = 1) →
        OpData.SameOnPixels [first, second] []) := by
  intro first second
  refine ⟨?_, ?_⟩
  · intro hfuses
    refine ⟨a.fuse b, rfl, ?_⟩
    intro px
    refine ⟨_, rfl, ?_⟩
    rw [OpData.rendered_exponent, ExponentOp.onPixel_fuse (ExponentOp.canFuse_iff.mp hfuses).1]
    rfl
  · intro hinverse hones px
    obtain ⟨hclamp, hstyle, _⟩ := ExponentOp.isInverse_iff.mp hinverse
    refine ⟨px, ?_, rfl⟩
    have hboth := ExponentOp.onPixel_of_ones (e := a.fuse b) hclamp hones px
    rw [OpData.rendered_exponent, OpData.rendered_exponent, ← ExponentOp.onPixel_fuse hstyle, hboth]
    rfl

/-- A square, a cube and a fourth power, and their roots, all with the sign of the value. -/
theorem signed_powers_and_roots_cancel :
    let powers : ExponentOp ℝ := ⟨⟨2, 3, 4, 1⟩, .mirror⟩
    let roots : ExponentOp ℝ := ⟨⟨1 / 2, 1 / 3, 1 / 4, 1⟩, .mirror⟩
    (OpData.exponent powers : OpData ℝ ℝ).canFuse (.exponent roots) = true ∧
      (OpData.exponent powers : OpData ℝ ℝ).isInverse (.exponent roots) = true ∧
      (powers.product roots).All (· = 1) ∧
      (∃ fused : ExponentOp ℝ,
        (OpData.exponent powers : OpData ℝ ℝ).fuse (.exponent roots) = .ok [.exponent fused] ∧
          OpData.SameOnPixels [.exponent powers, .exponent roots]
            ([.exponent fused] : List (OpData ℝ ℝ))) ∧
      OpData.rendered ([.exponent powers, .exponent roots] : List (OpData ℝ ℝ)) ⟨-8, 0, 5, -1⟩ =
        .ok ⟨-8, 0, 5, -1⟩ := by
  intro powers roots
  have hproduct : powers.product roots = ⟨1, 1, 1, 1⟩ := by
    simp only [ExponentOp.product, Rgba.zipWith, powers, roots]
    norm_num
  have hfuses : powers.canFuse roots = true := by
    rw [ExponentOp.canFuse_iff, hproduct]
    refine ⟨rfl, ?_, ?_, ?_, ?_⟩ <;> norm_num
  have hinverse : powers.isInverse roots = true := by
    rw [ExponentOp.isInverse_iff, hproduct]
    refine ⟨nofun, rfl, ?_, ?_, ?_, ?_⟩ <;> norm_num
  have hones : (powers.product roots).All (· = 1) := by
    rw [hproduct]
    exact ⟨rfl, rfl, rfl, rfl⟩
  obtain ⟨hfuse, hundo⟩ := powers_fuse_and_undo_each_other powers roots
  obtain ⟨_, hrendered, hout⟩ := hundo hinverse hones ⟨-8, 0, 5, -1⟩
  exact ⟨hfuses, hinverse, hones, hfuse hfuses, hrendered.trans hout.symm⟩

end ColorPipeline
