-- Matrices one after the other, over the real numbers. A matrix and the next one are their
-- product, with the first offset taken along. The inverse is worked out from eighteen products of
-- two weights each; it is the matrix of minors over the determinant, and so undoes the matrix from
-- both sides.
import ColorPipeline.Proofs.Rendering
import Mathlib.Tactic.Ring

open scoped ColorPipeline.RealScalar

namespace ColorPipeline

/-! ## Rows and columns -/

namespace Matrix4

variable (m n : Matrix4 ℝ)

theorem dot_eq (u v : Rgba ℝ) :
    dot u v = u.red * v.red + u.green * v.green + u.blue * v.blue + u.alpha * v.alpha := rfl

/-- A product of matrices does what its factors do one after the other. -/
theorem mulVec_mul (v : Rgba ℝ) : (m.mul n).mulVec v = m.mulVec (n.mulVec v) := by
  simp only [mulVec, mul, transpose, Rgba.map, dot_eq, Rgba.mk.injEq]
  refine ⟨?_, ?_, ?_, ?_⟩ <;> ring

theorem mulVec_add (u v : Rgba ℝ) :
    m.mulVec (u.zipWith (· + ·) v) = (m.mulVec u).zipWith (· + ·) (m.mulVec v) := by
  simp only [mulVec, Rgba.map, Rgba.zipWith, dot_eq, Rgba.mk.injEq]
  refine ⟨?_, ?_, ?_, ?_⟩ <;> ring

theorem mulVec_neg (v : Rgba ℝ) :
    m.mulVec (v.map fun a => -a) = (m.mulVec v).map fun a => -a := by
  simp only [mulVec, Rgba.map, dot_eq, Rgba.mk.injEq]
  refine ⟨?_, ?_, ?_, ?_⟩ <;> ring

/-- The matrix with all weights multiplied by a number. -/
noncomputable def scaled (s : ℝ) : Matrix4 ℝ := m.map fun row => row.map (· * s)

theorem mul_scaled (s : ℝ) : m.mul (n.scaled s) = (m.mul n).scaled s := by
  have hdot : ∀ u v : Rgba ℝ, dot u (v.map (· * s)) = dot u v * s := by
    intro u v
    simp only [dot_eq, Rgba.map]
    ring
  exact congrArg (fun f => m.map fun row => n.transpose.map (f row)) (funext₂ hdot)

theorem scaled_mul (s : ℝ) : (m.scaled s).mul n = (m.mul n).scaled s := by
  have hdot : ∀ u v : Rgba ℝ, dot (u.map (· * s)) v = dot u v * s := by
    intro u v
    simp only [dot_eq, Rgba.map]
    ring
  exact congrArg (fun f => m.map fun row => n.transpose.map (f row)) (funext₂ hdot)

/-! ## Determinants -/

/-- The determinant of three rows. -/
noncomputable def det3 (u v w : Rgb ℝ) : ℝ :=
  u.red * (v.green * w.blue - v.blue * w.green) - u.green * (v.red * w.blue - v.blue * w.red) +
    u.blue * (v.red * w.green - v.green * w.red)

/-- The minors for one column, which rows have been cut down to leave out: those without the
first row, the second one and so on, with alternating signs. -/
noncomputable def minors (cut : Rgba ℝ → Rgb ℝ) : Rgba ℝ :=
  ⟨det3 (cut m.green) (cut m.blue) (cut m.alpha), -det3 (cut m.red) (cut m.blue) (cut m.alpha),
    det3 (cut m.red) (cut m.green) (cut m.alpha), -det3 (cut m.red) (cut m.green) (cut m.blue)⟩

/-- The minors of all columns, which stand as rows, with alternating signs. -/
noncomputable def adjugate : Matrix4 ℝ :=
  ⟨m.minors fun v => ⟨v.green, v.blue, v.alpha⟩,
    (m.minors fun v => ⟨v.red, v.blue, v.alpha⟩).map fun w => -w,
    m.minors fun v => ⟨v.red, v.green, v.alpha⟩,
    (m.minors fun v => ⟨v.red, v.green, v.blue⟩).map fun w => -w⟩

/-- A matrix times its adjugate has the determinant on its diagonal, which is what the written-out
minors come to. -/
theorem mul_adjugate : m.mul m.adjugate = identity.scaled m.determinant := by
  simp only [mul, transpose, Rgba.map, dot_eq, adjugate, minors, det3, scaled, identity, diagonal,
    determinant, Rgba.mk.injEq, RealScalar.numeral_zero, RealScalar.numeral_one]
  refine ⟨⟨?_, ?_, ?_, ?_⟩, ⟨?_, ?_, ?_, ?_⟩, ⟨?_, ?_, ?_, ?_⟩, ⟨?_, ?_, ?_, ?_⟩⟩ <;> ring

theorem adjugate_mul : m.adjugate.mul m = identity.scaled m.determinant := by
  simp only [mul, transpose, Rgba.map, dot_eq, adjugate, minors, det3, scaled, identity, diagonal,
    determinant, Rgba.mk.injEq, RealScalar.numeral_zero, RealScalar.numeral_one]
  refine ⟨⟨?_, ?_, ?_, ?_⟩, ⟨?_, ?_, ?_, ?_⟩, ⟨?_, ?_, ?_, ?_⟩, ⟨?_, ?_, ?_, ?_⟩⟩ <;> ring

/-- The inverse is the adjugate over the determinant. -/
theorem inverse_eq : m.inverse = m.adjugate.scaled (1 / m.determinant) := by
  unfold inverse
  extract_lets c0 c1 c2 c3 minor fac fac0 fac1 fac2 fac3 fac4 fac5 vec vec0 vec1 vec2 vec3 even odd
    column0 column1 column2 column3 firstRow scale
  have hcolumns : transpose ⟨column0, column1, column2, column3⟩ = m.adjugate := by
    simp only [column0, column1, column2, column3, even, odd, cofactors, vec0, vec1, vec2, vec3,
      vec, fac0, fac1, fac2, fac3, fac4, fac5, fac, minor, c0, c1, c2, c3, transpose, Rgba.map,
      Rgba.zipWith, adjugate, minors, det3, Rgba.mk.injEq]
    refine ⟨⟨?_, ?_, ?_, ?_⟩, ⟨?_, ?_, ?_, ?_⟩, ⟨?_, ?_, ?_, ?_⟩, ⟨?_, ?_, ?_, ?_⟩⟩ <;> ring
  have hfirst : firstRow = m.adjugate.red := congrArg Rgba.red hcolumns
  have hdot : dot c0 firstRow = m.determinant := by
    rw [hfirst]
    simp only [c0, dot_eq, Rgba.map, adjugate, minors, det3, determinant]
    ring
  have hscale : scale = 1 / m.determinant := by
    rw [← hdot, ← RealScalar.numeral_one]
  rw [hcolumns, hscale]
  rfl

variable {m}

theorem scaled_scaled_inv {s : ℝ} (hs : s ≠ 0) : (m.scaled s).scaled (1 / s) = m := by
  have hback : ∀ a : ℝ, a * s * (1 / s) = a := by
    intro a
    rw [mul_assoc, mul_one_div_cancel hs, mul_one]
  simp only [scaled, Rgba.map, hback]

/-- Where the determinant is not zero, the inverse undoes the matrix. -/
theorem mul_inverse (h : m.determinant ≠ 0) : m.mul m.inverse = identity := by
  rw [inverse_eq, mul_scaled, mul_adjugate, scaled_scaled_inv h]

theorem inverse_mul (h : m.determinant ≠ 0) : m.inverse.mul m = identity := by
  rw [inverse_eq, scaled_mul, adjugate_mul, scaled_scaled_inv h]

theorem mulVec_identity (v : Rgba ℝ) : (identity : Matrix4 ℝ).mulVec v = v := by
  simp [mulVec, identity, diagonal, Rgba.map, dot_eq]

end Matrix4

/-! ## Ops -/

namespace MatrixOp

open Matrix4

variable {m next inv : MatrixOp ℝ}

/-- Two ops made into one do what they do one after the other, with the offset of the first turned
by the matrix of the second. -/
theorem onPixel_followedBy (m next : MatrixOp ℝ) (px : Rgba ℝ) :
    (m.followedBy next).onPixel px = next.onPixel (m.onPixel px) := by
  unfold onPixel followedBy
  rw [mulVec_mul, mulVec_add]
  simp only [Rgba.zipWith, add_assoc]

theorem onPixel_identity (px : Rgba ℝ) : (identity : MatrixOp ℝ).onPixel px = px := by
  simp [onPixel, identity, zeroOffset, mulVec_identity, Rgba.zipWith]

theorem tolerance_nonneg : 0 ≤ (tolerance : ℝ) := by
  have h : (tolerance : ℝ) = _ := RealScalar.ofDecimal_eq 1 9
  rw [h]
  positivity

theorem isIdentity_identity : (identity : MatrixOp ℝ).isIdentity = true := by
  have hzero : Scalar.abs (0 : ℝ) ≤ (tolerance : ℝ) := abs_zero.trans_le tolerance_nonneg
  simp [isIdentity, hasIdentityMatrix, identity, zeroOffset, Rgba.zipWith, Rgba.toList, hzero]

/-- A matrix op is inverted where its determinant is not within the tolerance of zero. -/
theorem inverse_eq_ok_iff (m inv : MatrixOp ℝ) :
    m.inverse = .ok inv ↔
      1 / 10 ^ 10 ≤ |m.matrix.determinant| ∧
        inv = ⟨m.matrix.inverse, (m.matrix.inverse.mulVec m.offset).map fun v => -v⟩ := by
  have hinverse : m.inverse =
      if |m.matrix.determinant| < ((1 : ℕ) : ℝ) / ((10 : ℕ) : ℝ) ^ 10 then
        .error (.unsupported (.singularMatrix m.matrix.determinant))
      else .ok ⟨m.matrix.inverse, (m.matrix.inverse.mulVec m.offset).map fun v => -v⟩ := rfl
  rw [hinverse, Nat.cast_one, Nat.cast_ofNat, Except.ite_eq_ok_iff, not_lt]

theorem determinant_ne_zero (h : 1 / 10 ^ 10 ≤ |m.matrix.determinant|) :
    m.matrix.determinant ≠ 0 := by
  intro hzero
  rw [hzero, abs_zero] at h
  norm_num at h

theorem add_neg_offset (v : Rgba ℝ) : v.zipWith (· + ·) (v.map fun a => -a) = zeroOffset := by
  simp [Rgba.zipWith, Rgba.map, zeroOffset]

/-- A matrix and the one that undoes it are the identity. -/
theorem followedBy_inverse (h : m.inverse = .ok inv) :
    m.followedBy inv = identity := by
  obtain ⟨hdet, rfl⟩ := (inverse_eq_ok_iff m inv).mp h
  unfold followedBy identity
  rw [inverse_mul (determinant_ne_zero hdet), add_neg_offset]

theorem inverse_followedBy (h : m.inverse = .ok inv) :
    inv.followedBy m = identity := by
  obtain ⟨hdet, rfl⟩ := (inverse_eq_ok_iff m inv).mp h
  have hoffset : (m.matrix.mulVec ((m.matrix.inverse.mulVec m.offset).map fun v => -v)).zipWith
      (· + ·) m.offset = zeroOffset := by
    rw [mulVec_neg, ← mulVec_mul, mul_inverse (determinant_ne_zero hdet), mulVec_identity]
    simp [Rgba.zipWith, Rgba.map, zeroOffset]
  unfold followedBy identity
  rw [mul_inverse (determinant_ne_zero hdet), hoffset]

end MatrixOp

/-- Two matrices in a row fuse into one that does what they do. A matrix that has an inverse
counts as the inverse of it and the other way round, and the two leave every pixel as it is,
whichever of them comes first. -/
theorem matrices_fuse_and_undo_each_other (m : MatrixOp ℝ) :
    let op : OpData ℝ ℝ := .matrix m
    (∀ next : MatrixOp ℝ, op.canFuse (.matrix next) = true ∧ ∃ fused : MatrixOp ℝ,
      op.fuse (.matrix next) = .ok [.matrix fused] ∧
        OpData.SameOnPixels [op, .matrix next] [.matrix fused]) ∧
      ∀ undoing, op.inverse = .ok undoing →
        op.isInverse undoing = true ∧ undoing.isInverse op = true ∧
          ∀ px, OpData.rendered [op, undoing] px = .ok px ∧
            OpData.rendered [undoing, op] px = .ok px := by
  intro op
  refine ⟨?_, ?_⟩
  · intro next
    refine ⟨rfl, m.followedBy next, rfl, ?_⟩
    intro px
    refine ⟨_, rfl, ?_⟩
    rw [OpData.rendered_matrix, MatrixOp.onPixel_followedBy]
    rfl
  · intro undoing hundoing
    obtain ⟨inv, hinv, rfl⟩ := Except.map_eq_ok_iff.mp hundoing
    have hfirst := MatrixOp.followedBy_inverse hinv
    have hsecond := MatrixOp.inverse_followedBy hinv
    refine ⟨?_, ?_, ?_⟩
    · exact (congrArg MatrixOp.isIdentity hfirst).trans MatrixOp.isIdentity_identity
    · exact (congrArg MatrixOp.isIdentity hsecond).trans MatrixOp.isIdentity_identity
    · intro px
      rw [OpData.rendered_matrix, OpData.rendered_matrix, OpData.rendered_matrix,
        OpData.rendered_matrix, ← MatrixOp.onPixel_followedBy, ← MatrixOp.onPixel_followedBy,
        hfirst, hsecond, MatrixOp.onPixel_identity]
      exact ⟨rfl, rfl⟩

/-- Green becomes red, blue becomes green, red together with alpha becomes blue, and all three
are moved. -/
noncomputable def turnedColors : MatrixOp ℝ where
  matrix := ⟨⟨0, 1, 0, 0⟩, ⟨0, 0, 1, 0⟩, ⟨1, 0, 0, 1⟩, ⟨0, 0, 0, 1⟩⟩
  offset := ⟨1, -1, 1, 0⟩

theorem turned_colors_turn_back :
    ∃ inv, turnedColors.inverse = .ok inv ∧ turnedColors.isInverse inv = true ∧
      inv.isInverse turnedColors = true ∧
      OpData.rendered ([.matrix turnedColors, .matrix inv] : List (OpData ℝ ℝ)) ⟨5, 6, 7, 8⟩ =
        .ok ⟨5, 6, 7, 8⟩ := by
  have hdet : turnedColors.matrix.determinant = 1 := by
    simp [turnedColors, Matrix4.determinant, Rgba.map]
  have hinv := (MatrixOp.inverse_eq_ok_iff turnedColors _).mpr ⟨by rw [hdet]; norm_num, rfl⟩
  obtain ⟨_, hundo⟩ := matrices_fuse_and_undo_each_other turnedColors
  obtain ⟨hfirst, hsecond, hback⟩ := hundo _ (congrArg (Except.map OpData.matrix) hinv)
  exact ⟨_, hinv, hfirst, hsecond, (hback _).1⟩

end ColorPipeline
