-- What ops do to pixels one after the other. Over the real numbers a sample is the parameter
-- itself, so a matrix renders as an affine map of pixels, and a range as one of values that has
-- limits.
import ColorPipeline.Proofs.Exact
import ColorPipeline.Proofs.Results
import ColorPipeline.Render.Renderer

open scoped ColorPipeline.RealScalar

namespace ColorPipeline

/-- What ops with these parameters do to a pixel, the first one first. -/
def OpData.rendered {P S : Type} [Scalar P] [Scalar S] [Precision P S] (ds : List (OpData P S))
    (px : Rgba S) : Except (OpError P) (Rgba S) :=
  ds.foldlM (fun q d => (Renderer.ofData d).map fun r => r.apply q) px

/-- Two lists of ops do the same to every pixel, and neither of them fails. -/
def OpData.SameOnPixels {P S : Type} [Scalar P] [Scalar S] [Precision P S]
    (ds es : List (OpData P S)) : Prop :=
  ∀ px, ∃ out, rendered ds px = .ok out ∧ rendered es px = .ok out

/-! ## Numerals -/

@[simp] theorem RealScalar.numeral_zero : @OfNat.ofNat ℝ 0 (Scalar.instNumeral 0) = 0 :=
  Nat.cast_zero

@[simp] theorem RealScalar.numeral_one : @OfNat.ofNat ℝ 1 (Scalar.instNumeral 1) = 1 :=
  Nat.cast_one

/-- Numerals of the model are the real numbers that they are read as. -/
theorem RealScalar.numeral_eq (n : ℕ) [n.AtLeastTwo] :
    @OfNat.ofNat ℝ n (Scalar.instNumeral n) = OfNat.ofNat n := Nat.cast_ofNat

theorem RealScalar.decimal_eq (digits places : ℕ) :
    @OfScientific.ofScientific ℝ Scalar.instDecimal digits true places = digits / 10 ^ places :=
  RealScalar.ofDecimal_eq digits places

/-! ## Limits -/

namespace Renderer

@[simp] theorem atLeast_none (v : ℝ) : atLeast none v = v := rfl

@[simp] theorem atMost_none (v : ℝ) : atMost none v = v := rfl

/-- A lower limit that is set is a maximum. -/
@[simp] theorem atLeast_some (lo v : ℝ) : atLeast (some lo) v = max v lo :=
  RealScalar.maxNum_eq v lo

@[simp] theorem atMost_some (hi v : ℝ) : atMost (some hi) v = min v hi :=
  RealScalar.minNum_eq v hi

end Renderer

/-! ## Values and pixels -/

/-- What the map makes of a value. -/
noncomputable def ClampedAffine.onValue (a : ClampedAffine ℝ) (v : ℝ) : ℝ :=
  Renderer.atMost a.upper (Renderer.atLeast a.lower (v * a.scale + a.offset))

/-- What the map makes of a pixel. -/
noncomputable def MatrixOp.onPixel (m : MatrixOp ℝ) (px : Rgba ℝ) : Rgba ℝ :=
  (m.matrix.mulVec px).zipWith (· + ·) m.offset

namespace OpData

@[simp] theorem rendered_range (r : RangeOp ℝ) (ds : List (OpData ℝ ℝ)) (px : Rgba ℝ) :
    rendered (.range r :: ds) px =
      rendered ds (px.mapRgb fun c => c.map r.affine.onValue) := by
  have hid : ∀ limit : Option ℝ, limit.map (Precision.narrow : ℝ → ℝ) = limit :=
    congrFun Option.map_id
  unfold rendered
  rw [List.foldlM_cons]
  unfold Renderer.ofData
  simp only [hid]
  rfl

@[simp] theorem rendered_matrix (m : MatrixOp ℝ) (ds : List (OpData ℝ ℝ)) (px : Rgba ℝ) :
    rendered (.matrix m :: ds) px = rendered ds (m.onPixel px) := rfl

end OpData

end ColorPipeline
