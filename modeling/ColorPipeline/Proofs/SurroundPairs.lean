-- Surround corrections one after the other, over the real numbers. A correction takes luminances
-- without their sign and lifts them to a floor. Its inverse has the floor that the correction makes
-- of its own, so the two undo each other on all colours. Two forward corrections with reciprocal
-- gammas have one and the same floor, and undo each other only where neither of them meets it.
import ColorPipeline.Proofs.StylePairs

open scoped ColorPipeline.RealScalar

namespace ColorPipeline

namespace Surround

/-! ## Luminances -/

/-- A luminance as a correction takes it: without its sign, and not below the floor. -/
noncomputable def lifted (floor y : ℝ) : ℝ := max |y| floor

/-- The luminance after a correction. -/
noncomputable def corrected (gamma floor y : ℝ) : ℝ := y * lifted floor y ^ (gamma - 1)

section Luminances

variable {gamma floor y : ℝ}

theorem lifted_of_le (h : floor ≤ |y|) : lifted floor y = |y| := max_eq_left h

theorem lifted_of_lt (h : |y| < floor) : lifted floor y = floor := max_eq_right (le_of_lt h)

theorem lifted_pos (hfloor : 0 < floor) (y : ℝ) : 0 < lifted floor y := lt_max_of_lt_right hfloor

theorem mul_rpow_sub_one {a : ℝ} (ha : 0 < a) (gamma : ℝ) : a * a ^ (gamma - 1) = a ^ gamma := by
  rw [Real.rpow_sub_one ha.ne', mul_div_cancel₀ _ ha.ne']

/-- The correction multiplies by a power of the luminance, or of the floor where that is larger. -/
theorem abs_corrected (hfloor : 0 < floor) (gamma y : ℝ) :
    |corrected gamma floor y| = |y| * lifted floor y ^ (gamma - 1) := by
  unfold corrected
  rw [abs_mul, abs_of_pos (Real.rpow_pos_of_pos (lifted_pos hfloor y) _)]

theorem abs_corrected_of_le (hfloor : 0 < floor) (gamma : ℝ) (h : floor ≤ |y|) :
    |corrected gamma floor y| = |y| ^ gamma := by
  rw [abs_corrected hfloor, lifted_of_le h, mul_rpow_sub_one (hfloor.trans_le h)]

theorem abs_corrected_of_lt (hfloor : 0 < floor) (gamma : ℝ) (h : |y| < floor) :
    |corrected gamma floor y| < floor ^ gamma := by
  rw [abs_corrected hfloor, lifted_of_lt h, ← mul_rpow_sub_one hfloor gamma]
  exact mul_lt_mul_of_pos_right h (Real.rpow_pos_of_pos hfloor _)

/-- The floor of the inverse lies where the correction takes its own floor. -/
theorem lifted_corrected (hgamma : 0 < gamma) (hfloor : 0 < floor) (y : ℝ) :
    lifted (floor ^ gamma) (corrected gamma floor y) = lifted floor y ^ gamma := by
  rcases le_or_gt floor |y| with h | h
  · have hpower : floor ^ gamma ≤ |y| ^ gamma := Real.rpow_le_rpow hfloor.le h hgamma.le
    rw [← abs_corrected_of_le hfloor gamma h] at hpower
    rw [lifted_of_le hpower, abs_corrected_of_le hfloor gamma h, lifted_of_le h]
  · rw [lifted_of_lt (abs_corrected_of_lt hfloor gamma h), lifted_of_lt h]

/-- The floor of the correction itself does not do in place of that, unless neither floor is
met. -/
theorem lifted_corrected_iff (hgamma : gamma ≠ 1) (hfloor : 0 < floor) (hone : floor ≠ 1) (y : ℝ) :
    lifted floor (corrected gamma floor y) = lifted floor y ^ gamma ↔
      floor ≤ |y| ∧ floor ≤ |y| ^ gamma := by
  rcases le_or_gt floor |y| with h | h
  · rw [lifted_of_le h, ← abs_corrected_of_le hfloor gamma h]
    simp only [lifted, max_eq_left_iff, h, true_and]
  · refine iff_of_false ?_ fun habove => absurd h (not_lt.mpr habove.1)
    rw [lifted_of_lt h]
    intro heq
    -- the corrected luminance is below the right side, so the right side would be the floor
    have hbelow := abs_corrected_of_lt hfloor gamma h
    have hfixed : floor = floor ^ gamma := by
      rcases max_choice |corrected gamma floor y| floor with hmax | hmax
      · exact absurd (hmax.symm.trans heq) hbelow.ne
      · exact hmax.symm.trans heq
    refine hgamma ((Real.rpow_right_inj hfloor hone).mp ?_)
    rw [Real.rpow_one, ← hfixed]

/-- Two factors with reciprocal gammas cancel where the second one starts from the power of what
the first one starts from. -/
theorem factors_cancel_iff {v w a b : ℝ} (hproduct : v * w = 1) (ha : 0 < a) (hb : 0 < b) :
    a ^ (v - 1) * b ^ (w - 1) = 1 ↔ v = 1 ∨ b = a ^ v := by
  have hv : v ≠ 0 := left_ne_zero_of_mul_eq_one hproduct
  have hexponent : w - 1 = -(w * (v - 1)) := by linear_combination hproduct
  have hroot : b = a ^ v ↔ a = b ^ w := by
    have hw : w = v⁻¹ := eq_inv_of_mul_eq_one_right hproduct
    rw [hw]
    constructor
    · rintro rfl
      exact (Real.rpow_rpow_inv ha.le hv).symm
    · intro h
      rw [h, Real.rpow_inv_rpow hb.le hv]
  rw [hexponent, Real.rpow_neg hb.le, Real.rpow_mul hb.le, mul_inv_eq_one₀
    (Real.rpow_pos_of_pos (Real.rpow_pos_of_pos hb w) _).ne', hroot]
  by_cases hone : v = 1
  · simp [hone]
  · rw [Real.rpow_left_inj ha.le (Real.rpow_nonneg hb.le w) (sub_ne_zero.mpr hone)]
    simp [hone]

end Luminances

/-! ## Colours -/

theorem luminance_gain (weights p : Rgb ℝ) (t : ℝ) :
    luminance weights (gain p t) = luminance weights p * t := by
  unfold luminance gain
  simp only [Rgb.map]
  ring

theorem gain_gain (p : Rgb ℝ) (s t : ℝ) : gain (gain p s) t = gain p (s * t) := by
  simp only [gain, Rgb.map, mul_assoc]

theorem gain_eq_self_iff (p : Rgb ℝ) (t : ℝ) : gain p t = p ↔ t = 1 ∨ p = Rgb.gray 0 := by
  rcases p with ⟨red, green, blue⟩
  have hchannel : ∀ v : ℝ, v * t = v ↔ t = 1 ∨ v = 0 := fun v => mul_right_eq_self₀
  simp only [gain, Rgb.map, Rgb.gray, Rgb.mk.injEq, hchannel]
  tauto

theorem luminance_gray (y : ℝ) : luminance weights2100 (Rgb.gray y) = y := by
  have hred : (weights2100 : Rgb ℝ).red = _ := RealScalar.ofDecimal_eq 2627 4
  have hgreen : (weights2100 : Rgb ℝ).green = _ := RealScalar.ofDecimal_eq 6780 4
  have hblue : (weights2100 : Rgb ℝ).blue = _ := RealScalar.ofDecimal_eq 593 4
  unfold luminance
  rw [hred, hgreen, hblue]
  simp only [Rgb.gray]
  ring

theorem gain_one (p : Rgb ℝ) : gain p 1 = p := (gain_eq_self_iff p 1).mpr (.inl rfl)

theorem rec2100_eq (gamma floor : ℝ) (p : Rgb ℝ) : rec2100 gamma floor p =
    gain p (lifted floor (luminance weights2100 p) ^ (gamma - 1)) := by
  have habs : ∀ x : ℝ, Scalar.abs x = |x| := fun _ => rfl
  have hpow : ∀ x y : ℝ, Scalar.pow x y = x ^ y := fun _ _ => rfl
  unfold rec2100 factor2100 lifted
  rw [habs, hpow, RealScalar.maxNum_eq, RealScalar.numeral_one]

/-- A surround corrects the luminance and keeps the ratios of the channels. -/
theorem luminance_rec2100 (gamma floor : ℝ) (p : Rgb ℝ) :
    luminance weights2100 (rec2100 gamma floor p) =
      corrected gamma floor (luminance weights2100 p) := by
  rw [rec2100_eq, luminance_gain]
  rfl

theorem rec2100_gray (gamma floor y : ℝ) :
    rec2100 gamma floor (Rgb.gray y) = Rgb.gray (corrected gamma floor y) := by
  rw [rec2100_eq, luminance_gray]
  rfl

/-- Two corrections in a row multiply a colour by both of their factors. -/
theorem rec2100_rec2100 (v w floor floor' : ℝ) (p : Rgb ℝ) :
    rec2100 w floor' (rec2100 v floor p) =
      gain p (lifted floor (luminance weights2100 p) ^ (v - 1) *
        lifted floor' (corrected v floor (luminance weights2100 p)) ^ (w - 1)) := by
  rw [rec2100_eq w, luminance_rec2100, rec2100_eq v, gain_gain]

/-- The inverse surround takes its floor from the other end, so it divides by the same power. -/
theorem rec2100_inverse {gamma floor : ℝ} (hgamma : 0 < gamma) (hfloor : 0 < floor) (p : Rgb ℝ) :
    rec2100 (1 / gamma) (floor ^ gamma) (rec2100 gamma floor p) = p := by
  have hpos := lifted_pos hfloor (luminance weights2100 p)
  rw [rec2100_rec2100, lifted_corrected hgamma hfloor,
    (factors_cancel_iff (mul_one_div_cancel hgamma.ne') hpos (Real.rpow_pos_of_pos hpos _)).mpr
      (.inr rfl), gain_one]

theorem floor2100_eq : (floor2100 : ℝ) = 1 / 10 ^ 4 := by
  refine (RealScalar.ofDecimal_eq 1 4).trans ?_
  norm_num

theorem floor2100_pos : 0 < (floor2100 : ℝ) := by
  rw [floor2100_eq]
  norm_num

/-- A forward correction does not meet its floor on the colour, nor on what it makes of it. -/
def StaysAbove (gamma : ℝ) (p : Rgb ℝ) : Prop :=
  floor2100 ≤ |luminance weights2100 p| ∧ floor2100 ≤ |luminance weights2100 p| ^ gamma

/-- Two forward surrounds have one floor, so the second one finds the factor of the first only above
it. -/
theorem rec2100_reciprocal_iff {v w : ℝ} (hproduct : v * w = 1) (p : Rgb ℝ) :
    rec2100 w floor2100 (rec2100 v floor2100 p) = p ↔
      v = 1 ∨ p = Rgb.gray 0 ∨ StaysAbove v p := by
  have hone : (floor2100 : ℝ) ≠ 1 := by
    rw [floor2100_eq]
    norm_num
  have hlifted : ∀ y : ℝ, 0 < lifted floor2100 y := lifted_pos floor2100_pos
  rw [rec2100_rec2100, gain_eq_self_iff, factors_cancel_iff hproduct (hlifted _) (hlifted _)]
  by_cases hv : v = 1
  · simp [hv]
  · rw [lifted_corrected_iff hv floor2100_pos hone]
    simp only [hv, false_or]
    exact Or.comm

end Surround

/-! ## Pixels -/

namespace OpData

open FixedFunctionOp (surround)

theorem apply_forward_surround (gamma : ℝ) :
    (surround .forward gamma).style.apply (surround .forward gamma).gamma =
      Surround.rec2100 gamma Surround.floor2100 := rfl

theorem apply_inverse_surround (gamma : ℝ) :
    (surround .inverse gamma).style.apply (surround .inverse gamma).gamma =
      Surround.rec2100 (1 / gamma) (Surround.floor2100 ^ gamma) := by
  have h : (surround .inverse gamma).style.apply (surround .inverse gamma).gamma =
      Surround.rec2100 (((1 : ℕ) : ℝ) / gamma) (Surround.floor2100 ^ gamma) := rfl
  rw [h, Nat.cast_one]

theorem rendered_pair (f g : FixedFunctionOp ℝ) (px : Rgba ℝ) :
    rendered ([.fixedFunction f, .fixedFunction g] : List (OpData ℝ ℝ)) px =
      .ok (.ofRgb (g.style.apply g.gamma (f.style.apply f.gamma px.rgb)) px.alpha) := rfl

/-- Two fixed functions leave a pixel as it is where they leave its colour. -/
theorem rendered_pair_eq_iff (f g : FixedFunctionOp ℝ) (px : Rgba ℝ) :
    rendered ([.fixedFunction f, .fixedFunction g] : List (OpData ℝ ℝ)) px = .ok px ↔
      g.style.apply g.gamma (f.style.apply f.gamma px.rgb) = px.rgb := by
  rw [rendered_pair]
  constructor
  · intro h
    exact congrArg Rgba.rgb (Except.ok.inj h)
  · intro h
    rw [h]
    rfl

end OpData

open FixedFunctionOp (surround validate_surround_iff isInverse_iff)

/-- A surround and its inverse leave every pixel as it is, whichever comes first. -/
theorem a_surround_and_its_inverse_leave_a_pixel {gamma : ℝ}
    (hgamma : gamma ∈ Set.Icc (1 / 100) 100) :
    let forward : OpData ℝ ℝ := .fixedFunction (surround .forward gamma)
    let inverse : OpData ℝ ℝ := .fixedFunction (surround .inverse gamma)
    OpData.SameOnPixels [forward, inverse] [] ∧ OpData.SameOnPixels [inverse, forward] [] := by
  intro forward inverse
  have hpos : 0 < gamma := lt_of_lt_of_le (by norm_num) hgamma.1
  have hfloor := Surround.floor2100_pos
  refine ⟨fun px => ⟨px, ?_, rfl⟩, fun px => ⟨px, ?_, rfl⟩⟩
  · rw [OpData.rendered_pair_eq_iff, OpData.apply_forward_surround, OpData.apply_inverse_surround]
    exact Surround.rec2100_inverse hpos hfloor px.rgb
  · -- the inverse is a correction too, and the forward one is the inverse of that
    have hback := Surround.rec2100_inverse (one_div_pos.mpr hpos)
      (Real.rpow_pos_of_pos hfloor gamma) px.rgb
    rw [one_div_one_div, one_div, Real.rpow_rpow_inv hfloor.le hpos.ne', ← one_div] at hback
    rw [OpData.rendered_pair_eq_iff, OpData.apply_forward_surround, OpData.apply_inverse_surround]
    exact hback

/-- A colour of negative luminance and one below the floor, with the lowest gamma there is. -/
theorem dark_and_negative_colors_come_back :
    (1 / 100 : ℝ) ∈ Set.Icc (1 / 100 : ℝ) 100 ∧
      OpData.rendered ([.fixedFunction (surround .forward (1 / 100)),
        .fixedFunction (surround .inverse (1 / 100))] : List (OpData ℝ ℝ)) ⟨-2, 1, -3, 1⟩ =
          .ok ⟨-2, 1, -3, 1⟩ ∧
      OpData.rendered ([.fixedFunction (surround .inverse (1 / 100)),
        .fixedFunction (surround .forward (1 / 100))] : List (OpData ℝ ℝ))
          ⟨1 / 10 ^ 5, 0, 1 / 10 ^ 6, 1⟩ = .ok ⟨1 / 10 ^ 5, 0, 1 / 10 ^ 6, 1⟩ := by
  have hgamma : (1 / 100 : ℝ) ∈ Set.Icc (1 / 100 : ℝ) 100 := by
    constructor <;> norm_num
  obtain ⟨hforward, hinverse⟩ := a_surround_and_its_inverse_leave_a_pixel hgamma
  obtain ⟨_, hrendered, hout⟩ := hforward ⟨-2, 1, -3, 1⟩
  obtain ⟨_, hrendered', hout'⟩ := hinverse ⟨1 / 10 ^ 5, 0, 1 / 10 ^ 6, 1⟩
  exact ⟨hgamma, hrendered.trans hout.symm, hrendered'.trans hout'.symm⟩

namespace Pipeline

/-- The optimizer drops two forward surrounds with reciprocal gammas. The two leave a pixel as it
is if their gammas are 1, if it is black, or if neither of them meets the floor, and only then. -/
theorem reciprocal_surrounds_leave_a_pixel_iff {v w : ℝ} (i j : Option String)
    (hproduct : v * w = 1) :
    let first : OpData ℝ ℝ := .fixedFunction (surround .forward v)
    let second : OpData ℝ ℝ := .fixedFunction (surround .forward w)
    first.isInverse second = true ∧
      cancelRule (⟨first, i⟩ : Op ℝ ℝ) ⟨second, j⟩ = .ok .drop ∧
      ∀ px, OpData.rendered [first, second] px = .ok px ↔
        v = 1 ∨ px.rgb = Rgb.gray 0 ∨ Surround.StaysAbove v px.rgb := by
  intro first second
  have hinverse : (surround .forward v).isInverse (surround .forward w) = true :=
    isInverse_iff.mpr (.inr (.of_mul_eq_one hproduct))
  refine ⟨hinverse, cancelRule_fixedFunction_iff.mpr hinverse, ?_⟩
  intro px
  rw [OpData.rendered_pair_eq_iff]
  exact Surround.rec2100_reciprocal_iff hproduct px.rgb

/-- The gammas 2 and 1/2, on a gray that neither of them takes to the floor. -/
theorem a_medium_gray_survives_reciprocal_surrounds :
    (2 : ℝ) * (1 / 2) = 1 ∧
      (surround .forward (2 : ℝ)).isInverse (surround .forward (1 / 2)) = true ∧
      OpData.rendered ([.fixedFunction (surround .forward 2),
        .fixedFunction (surround .forward (1 / 2))] : List (OpData ℝ ℝ))
          (.ofRgb (Rgb.gray (1 / 2)) 1) = .ok (.ofRgb (Rgb.gray (1 / 2)) 1) := by
  have hproduct : (2 : ℝ) * (1 / 2) = 1 := by norm_num
  obtain ⟨hinverse, _, hleft⟩ := reciprocal_surrounds_leave_a_pixel_iff none none hproduct
  refine ⟨hproduct, hinverse, (hleft _).mpr (.inr (.inr ?_))⟩
  show Surround.StaysAbove 2 (Rgb.gray (1 / 2))
  unfold Surround.StaysAbove
  rw [Surround.luminance_gray, Surround.floor2100_eq, Real.rpow_ofNat]
  norm_num

/-- The gammas 2 and 1/2, on a gray that the first one takes below the floor: the optimizer drops
the two, and without it a thousandth becomes a ten thousandth. -/
theorem a_dark_gray_is_lost_between_reciprocal_surrounds :
    let first : FixedFunctionOp ℝ := surround .forward 2
    let second : FixedFunctionOp ℝ := surround .forward (1 / 2)
    first.validate = .ok () ∧ second.validate = .ok () ∧ first.isInverse second = true ∧
      cancelRule (⟨.fixedFunction first, none⟩ : Op ℝ ℝ) ⟨.fixedFunction second, none⟩ =
        .ok .drop ∧
      OpData.rendered ([.fixedFunction first, .fixedFunction second] : List (OpData ℝ ℝ))
        (.ofRgb (Rgb.gray (1 / 1000)) 1) = .ok (.ofRgb (Rgb.gray (1 / 10000)) 1) := by
  intro first second
  have hinverse : first.isInverse second = true :=
    isInverse_iff.mpr (.inr (.of_mul_eq_one (by norm_num)))
  have hdarker : Surround.corrected 2 Surround.floor2100 (1 / 1000) = 1 / 1000000 := by
    unfold Surround.corrected Surround.lifted
    rw [Surround.floor2100_eq]
    norm_num
  have hfloor : Surround.corrected (1 / 2) Surround.floor2100 (1 / 1000000) = 1 / 10000 := by
    have hroot : ((1 : ℝ) / 10 ^ 4) ^ ((1 : ℝ) / 2) = 1 / 100 := by
      rw [← Real.sqrt_eq_rpow, Real.sqrt_eq_iff_eq_sq (by norm_num) (by norm_num)]
      norm_num
    unfold Surround.corrected
    rw [Surround.lifted_of_lt, Real.rpow_sub_one, Surround.floor2100_eq, hroot]
    · norm_num
    · exact Surround.floor2100_pos.ne'
    · rw [Surround.floor2100_eq]
      norm_num
  refine ⟨(validate_surround_iff _ _).mpr (by norm_num), (validate_surround_iff _ _).mpr
    (by norm_num), hinverse, cancelRule_fixedFunction_iff.mpr hinverse, ?_⟩
  have hgray : (Rgba.ofRgb (Rgb.gray (1 / 1000)) 1 : Rgba ℝ).rgb = Rgb.gray (1 / 1000) := rfl
  rw [OpData.rendered_pair, OpData.apply_forward_surround, OpData.apply_forward_surround, hgray,
    Surround.rec2100_gray, Surround.rec2100_gray, hdarker, hfloor]
  rfl

end Pipeline

end ColorPipeline
