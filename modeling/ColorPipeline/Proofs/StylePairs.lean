-- Which fixed functions count as undoing each other, over the real numbers. Either one is the
-- inverse of the other, which it still is when both are turned around, or both are forward
-- surrounds with reciprocal gammas, which turned around are no such pair.
import ColorPipeline.Proofs.Rendering
import ColorPipeline.Proofs.Walks

open scoped ColorPipeline.RealScalar

namespace ColorPipeline

namespace FixedFunctionOp

/-! ## Surrounds -/

/-- A Rec.2100 surround. -/
def surround {P : Type} (d : Direction) (gamma : P) : FixedFunctionOp P :=
  ⟨⟨.surround2100, d⟩, [gamma]⟩

theorem surround_inj {P : Type} {d e : Direction} {v w : P} :
    surround d v = surround e w ↔ d = e ∧ v = w := by
  simp [surround]

theorem lowest_eq : (lowest : ℝ) = 1 / 100 := by
  refine (RealScalar.ofDecimal_eq 1 2).trans ?_
  norm_num

theorem highest_eq : (highest : ℝ) = 100 := by
  have h : (highest : ℝ) = ((100 : ℕ) : ℝ) := rfl
  rw [h, Nat.cast_ofNat]

theorem tolerance_eq : (tolerance : ℝ) = 1 / 10 ^ 9 := by
  refine (RealScalar.ofDecimal_eq 1 9).trans ?_
  norm_num

theorem validate_surround_iff (d : Direction) (gamma : ℝ) :
    (surround d gamma).validate = .ok () ↔ 1 / 100 ≤ gamma ∧ gamma ≤ 100 := by
  have hcheck : (surround d gamma).validate = checkGamma gamma := by cases d <;> rfl
  have hnumber : Scalar.isNaN gamma = false := rfl
  rw [hcheck]
  unfold checkGamma
  simp only [hnumber, Bool.false_or, decide_eq_true_eq, lowest_eq, highest_eq]
  split
  · rename_i hlow
    exact iff_of_false nofun fun h => absurd hlow (not_lt.mpr h.1)
  · rename_i hlow
    split
    · rename_i hhigh
      exact iff_of_false nofun fun h => absurd hhigh (not_lt.mpr h.2)
    · rename_i hhigh
      exact iff_of_true rfl ⟨not_lt.mp hlow, not_lt.mp hhigh⟩

/-! ## Pairs -/

/-- The opposite style with the same parameters. -/
def Opposite {P : Type} (a b : FixedFunctionOp P) : Prop :=
  b.style = a.style.inverse ∧ b.parameters = a.parameters

/-- Two forward surrounds with gammas whose product is 1, as far as the tolerance tells. -/
def Reciprocal (a b : FixedFunctionOp ℝ) : Prop :=
  ∃ v w, a = surround .forward v ∧ b = surround .forward w ∧ |v * w - 1| ≤ tolerance

/-- The reciprocal rule is for two forward surrounds only. -/
theorem reciprocalSurrounds_iff {a b : FixedFunctionOp ℝ} :
    a.reciprocalSurrounds b = true ↔ a.Reciprocal b := by
  have habs : ∀ x : ℝ, Scalar.abs x = |x| := fun _ => rfl
  rcases a with ⟨style, parameters⟩
  rcases b with ⟨style', parameters'⟩
  unfold reciprocalSurrounds Reciprocal surround
  rw [Bool.and_eq_true, Bool.and_eq_true, beq_iff_eq, beq_iff_eq]
  split
  · rename_i v w hv hw
    obtain rfl : parameters = [v] := hv
    obtain rfl : parameters' = [w] := hw
    simp only [habs, RealScalar.numeral_one, decide_eq_true_eq]
    constructor
    · rintro ⟨⟨rfl, rfl⟩, hnear⟩
      exact ⟨v, w, rfl, rfl, hnear⟩
    · rintro ⟨v, w, ha, hb, hnear⟩
      cases ha
      cases hb
      exact ⟨⟨rfl, rfl⟩, hnear⟩
  · rename_i hother
    constructor
    · rintro ⟨_, h⟩
      cases h
    · rintro ⟨v, w, ha, hb, _⟩
      cases ha
      cases hb
      exact absurd rfl (hother v w rfl)

theorem sameParameters_iff {vs ws : List ℝ} :
    @BEq.beq (List ℝ) (@List.instBEq ℝ Scalar.toBEq) vs ws = true ↔ vs = ws := by
  have hlawful : @LawfulBEq ℝ Scalar.toBEq :=
    @LawfulBEq.mk ℝ Scalar.toBEq ⟨(RealScalar.beq_iff _ _).mpr rfl⟩ (RealScalar.beq_iff _ _).mp
  exact beq_iff_eq

/-- A pair of fixed functions is dropped under one rule or the other. -/
theorem isInverse_iff {a b : FixedFunctionOp ℝ} :
    a.isInverse b = true ↔ a.Opposite b ∨ a.Reciprocal b := by
  unfold isInverse Opposite
  rw [Bool.or_eq_true, Bool.and_eq_true, beq_iff_eq, sameParameters_iff, reciprocalSurrounds_iff,
    eq_comm, eq_comm (a := a.parameters)]

section Laws

variable {a b : FixedFunctionOp ℝ}

theorem Opposite.symm (h : a.Opposite b) : b.Opposite a := by
  obtain ⟨hstyle, hparameters⟩ := h
  exact ⟨by rw [hstyle, FixedFunctionStyle.inverse_inverse], hparameters.symm⟩

theorem Opposite.inverse (h : a.Opposite b) : b.inverse.Opposite a.inverse := by
  obtain ⟨hstyle, hparameters⟩ := h
  exact ⟨by simp [FixedFunctionOp.inverse, hstyle], hparameters.symm⟩

theorem Reciprocal.of_mul_eq_one {v w : ℝ} (h : v * w = 1) :
    (surround .forward v).Reciprocal (surround .forward w) := by
  refine ⟨v, w, rfl, rfl, ?_⟩
  rw [h, sub_self, abs_zero, tolerance_eq]
  positivity

theorem Reciprocal.symm (h : a.Reciprocal b) : b.Reciprocal a := by
  obtain ⟨v, w, ha, hb, hnear⟩ := h
  exact ⟨w, v, hb, ha, by rwa [mul_comm]⟩

/-- No style is its own inverse. -/
theorem not_opposite_self : ¬ a.Opposite a := by
  rintro ⟨hstyle, _⟩
  have hdirection : a.style.direction = a.style.direction.flip :=
    congrArg FixedFunctionStyle.direction hstyle
  cases h : a.style.direction <;> simp [h, Direction.flip] at hdirection

/-- Turned around, forward surrounds are forward no more. -/
theorem Reciprocal.isInverse_inverse (h : a.Reciprocal b) :
    b.inverse.isInverse a.inverse = false := by
  obtain ⟨v, w, rfl, rfl, _⟩ := h
  rfl

end Laws

end FixedFunctionOp

/-! ## Pipelines -/

namespace Pipeline

open FixedFunctionOp (surround isInverse_iff validate_surround_iff)

/-- The optimizer drops the pair exactly where one rule holds, since such ops leave nothing. -/
theorem cancelRule_fixedFunction_iff {a b : FixedFunctionOp ℝ} {i j : Option String} :
    cancelRule (⟨.fixedFunction a, i⟩ : Op ℝ ℝ) ⟨.fixedFunction b, j⟩ = .ok .drop ↔
      a.isInverse b = true := by
  rw [cancelRule_eq_drop_iff]
  exact and_iff_left ⟨rfl, rfl⟩

/-- Which of two fixed functions comes first does not matter for whether they undo each other. No
function undoes itself, forward surrounds with gammas around 1 aside. Two that the optimizer drops
are dropped with both turned around if one is the inverse of the other, and only then: surrounds
with reciprocal gammas stay. -/
theorem pairs_cancel_both_ways_iff (a b : FixedFunctionOp ℝ) (i j : Option String) :
    a.isInverse b = b.isInverse a ∧
      (¬ a.Reciprocal a → a.isInverse a = false) ∧
      (a.isInverse b = true →
        (b.inverse.isInverse a.inverse = true ↔ a.Opposite b) ∧
        cancelRule (⟨.fixedFunction a, i⟩ : Op ℝ ℝ) ⟨.fixedFunction b, j⟩ = .ok .drop ∧
        (cancelRule (⟨.fixedFunction b.inverse, j⟩ : Op ℝ ℝ) ⟨.fixedFunction a.inverse, i⟩ =
          .ok .drop ↔ a.Opposite b)) := by
  have hback : a.isInverse b = true → (b.inverse.isInverse a.inverse = true ↔ a.Opposite b) := by
    intro h
    rcases isInverse_iff.mp h with hopposite | hreciprocal
    · exact iff_of_true (isInverse_iff.mpr (.inl hopposite.inverse)) hopposite
    · have hstays := hreciprocal.isInverse_inverse
      refine iff_of_false (by simp [hstays]) ?_
      intro hopposite
      rw [isInverse_iff.mpr (.inl hopposite.inverse)] at hstays
      cases hstays
  refine ⟨?_, ?_, ?_⟩
  · rw [Bool.eq_iff_iff, isInverse_iff, isInverse_iff]
    exact ⟨Or.imp .symm .symm, Or.imp .symm .symm⟩
  · intro hself
    rw [Bool.eq_false_iff, Ne, isInverse_iff]
    exact not_or.mpr ⟨FixedFunctionOp.not_opposite_self, hself⟩
  · intro h
    refine ⟨hback h, cancelRule_fixedFunction_iff.mpr h, ?_⟩
    rw [cancelRule_fixedFunction_iff]
    exact hback h

/-- A surround with gamma 2 and its inverse, in both pipelines. -/
theorem a_surround_and_its_inverse_cancel_both_ways :
    let a : FixedFunctionOp ℝ := surround .forward 2
    let b : FixedFunctionOp ℝ := surround .inverse 2
    b.isInverse a = true ∧ a.isInverse a = false ∧ a.isInverse b = true ∧
      b.inverse.isInverse a.inverse = true ∧
      cancelRule (⟨.fixedFunction a, none⟩ : Op ℝ ℝ) ⟨.fixedFunction b, none⟩ = .ok .drop ∧
      cancelRule (⟨.fixedFunction b.inverse, none⟩ : Op ℝ ℝ) ⟨.fixedFunction a.inverse, none⟩ =
        .ok .drop := by
  intro a b
  have hopposite : a.Opposite b := ⟨rfl, rfl⟩
  have hinverse : a.isInverse b = true := isInverse_iff.mpr (.inl hopposite)
  have hself : ¬ a.Reciprocal a := by
    rintro ⟨v, w, hv, hw, hnear⟩
    obtain ⟨_, rfl⟩ := FixedFunctionOp.surround_inj.mp hv
    obtain ⟨_, rfl⟩ := FixedFunctionOp.surround_inj.mp hw
    rw [FixedFunctionOp.tolerance_eq] at hnear
    norm_num at hnear
  obtain ⟨hsymm, hnever, hboth⟩ := pairs_cancel_both_ways_iff a b none none
  obtain ⟨hback, hdropped, hdropped'⟩ := hboth hinverse
  exact ⟨hsymm ▸ hinverse, hnever hself, hinverse, hback.mpr hopposite, hdropped,
    hdropped'.mpr hopposite⟩

/-- Forward surrounds with gammas 2 and 1/2 are dropped, and their inverses in reverse order are
not. -/
theorem reciprocal_surrounds_stay_when_turned_around :
    let a : FixedFunctionOp ℝ := surround .forward 2
    let b : FixedFunctionOp ℝ := surround .forward (1 / 2)
    a.validate = .ok () ∧ b.validate = .ok () ∧
      a.isInverse b = true ∧ b.inverse.isInverse a.inverse = false ∧
      cancelRule (⟨.fixedFunction a, none⟩ : Op ℝ ℝ) ⟨.fixedFunction b, none⟩ = .ok .drop ∧
      cancelRule (⟨.fixedFunction b.inverse, none⟩ : Op ℝ ℝ) ⟨.fixedFunction a.inverse, none⟩ ≠
        .ok .drop := by
  intro a b
  have hreciprocal : a.Reciprocal b := .of_mul_eq_one (by norm_num)
  have hinverse : a.isInverse b = true := isInverse_iff.mpr (.inr hreciprocal)
  have hstays := hreciprocal.isInverse_inverse
  refine ⟨(validate_surround_iff _ _).mpr (by norm_num), (validate_surround_iff _ _).mpr
    (by norm_num), hinverse, hstays, cancelRule_fixedFunction_iff.mpr hinverse, ?_⟩
  rw [Ne, cancelRule_fixedFunction_iff, hstays]
  exact Bool.false_ne_true

end Pipeline

end ColorPipeline
