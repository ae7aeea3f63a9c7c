-- The red modifier that keeps hues and its inverse, over the real numbers. With its new red a
-- colour is stretched from its lowest channel on, which leaves the hue where it is. So the inverse
-- has the same weight in its quadratic, whose upper root is the red that the colour had before.
import ColorPipeline.FixedFunction.RedModifier
import ColorPipeline.Proofs.Channels
import ColorPipeline.Proofs.Rendering

open scoped ColorPipeline.RealScalar

namespace ColorPipeline

/-- The real numbers with a way of measuring angles. -/
noncomputable abbrev RealScalar.withAngle (angle : ℝ → ℝ → ℝ) : Scalar ℝ :=
  { RealScalar.instScalarReal with atan2 := angle }

namespace RedModifier

/-! ## The hue weight -/

/-- The weight of the hue of a colour, with angles measured by `angle`. -/
noncomputable abbrev weight (angle : ℝ → ℝ → ℝ) (k : RedModifier ℝ) (p : Rgb ℝ) : ℝ :=
  @hueWeight ℝ (RealScalar.withAngle angle) p k.inverseWidth

section Angles

variable (angle : ℝ → ℝ → ℝ) (k : RedModifier ℝ) (hue : ℝ) (p : Rgb ℝ)

/-- A pixel without weight stays as it is, and every other one is pulled by its weight. -/
theorem forward_withAngle : @forward ℝ (RealScalar.withAngle angle) k p =
    if weight angle k p ≤ 0 then p else k.pulled (weight angle k p) p := by
  have hdef : @forward ℝ (RealScalar.withAngle angle) k p =
      if weight angle k p ≤ (0 : ℕ) then p else k.pulled (weight angle k p) p := rfl
  rw [hdef, Nat.cast_zero]

theorem inverse_withAngle : @inverse ℝ (RealScalar.withAngle angle) k p =
    if weight angle k p ≤ 0 then p else k.pushed (weight angle k p) p := by
  have hdef : @inverse ℝ (RealScalar.withAngle angle) k p =
      if weight angle k p ≤ (0 : ℕ) then p else k.pushed (weight angle k p) p := rfl
  rw [hdef, Nat.cast_zero]

theorem weight_eq : weight angle k p =
    weightAt (angle (squareRoot3 * (p.green - p.blue)) (2 * p.red - (p.green + p.blue)) *
      k.inverseWidth + 2) := by
  have hdef : weight angle k p =
      weightAt (angle (squareRoot3 * (p.green - p.blue))
        (((2 : ℕ) : ℝ) * p.red - (p.green + p.blue)) * k.inverseWidth + ((2 : ℕ) : ℝ)) := rfl
  rw [hdef, Nat.cast_ofNat]

theorem pulled_eq : k.pulled hue p =
    k.withRed p
      (p.red + hue * saturation p k.noiseLimit * (k.pivot - p.red) * (1 - k.scale)) := by
  unfold pulled
  rw [RealScalar.numeral_one]

theorem pushed_eq : k.pushed hue p =
    k.withRed p (upperRoot (hue * (1 - k.scale) - 1)
      (p.red - hue * (k.pivot + min p.green p.blue) * (1 - k.scale))
      (hue * k.pivot * min p.green p.blue * (1 - k.scale))) := by
  unfold pushed
  rw [RealScalar.numeral_one, RealScalar.minNum_eq]

end Angles

/-! ## The upper root -/

theorem upperRoot_eq (a b c : ℝ) :
    upperRoot a b c = (-b - √(max (b * b - 4 * a * c) 0)) / (2 * a) := by
  unfold upperRoot
  rw [RealScalar.numeral_zero, RealScalar.numeral_eq, RealScalar.numeral_eq, RealScalar.maxNum_eq]
  rfl

/-- Where a parabola opens downwards and is not negative at zero, its positive root is the upper
one. -/
theorem upperRoot_of_root {a b c x : ℝ} (ha : a < 0) (hx : 0 < x) (hc : 0 ≤ c)
    (h : a * x * x + b * x + c = 0) : upperRoot a b c = x := by
  have hdiscriminant : b * b - 4 * a * c = (2 * a * x + b) ^ 2 := by
    linear_combination (-4 * a) * h
  have hslope : 2 * a * x + b < 0 := by
    have hscaled : x * (2 * a * x + b) = a * (x * x) - c := by linear_combination h
    have hneg : x * (2 * a * x + b) < 0 := by
      rw [hscaled]
      have := mul_neg_of_neg_of_pos ha (mul_pos hx hx)
      linarith
    exact (pos_iff_neg_of_mul_neg hneg).mp hx
  rw [upperRoot_eq, hdiscriminant, max_eq_left (sq_nonneg _), Real.sqrt_sq_eq_abs,
    abs_of_neg hslope, div_eq_iff (by linarith)]
  ring

/-! ## The weights -/

section Steps

theorem splineStep_zero : splineStep 0 = (⟨1 / 4, 0, 0, 0⟩ : Cubic ℝ) := by
  unfold splineStep
  simp only [RealScalar.decimal_eq, RealScalar.numeral_zero, Cubic.mk.injEq, and_true]
  norm_num

theorem splineStep_one : splineStep 1 = (⟨-3 / 4, 3 / 4, 3 / 4, 1 / 4⟩ : Cubic ℝ) := by
  unfold splineStep
  simp only [RealScalar.decimal_eq, Cubic.mk.injEq]
  norm_num

theorem splineStep_two : splineStep 2 = (⟨3 / 4, -3 / 2, 0, 1⟩ : Cubic ℝ) := by
  unfold splineStep
  simp only [RealScalar.decimal_eq, RealScalar.numeral_zero, RealScalar.numeral_one,
    Cubic.mk.injEq]
  norm_num

theorem splineStep_add_three (n : ℕ) :
    splineStep (n + 3) = (⟨-1 / 4, 3 / 4, -3 / 4, 1 / 4⟩ : Cubic ℝ) := by
  unfold splineStep
  simp only [RealScalar.decimal_eq, Cubic.mk.injEq]
  norm_num

end Steps

/-- No step of the spline rises above one. -/
theorem value_splineStep_le_one (n : ℕ) {t : ℝ} (ht : 0 ≤ t) (ht' : t ≤ 1) :
    (splineStep n).value t ≤ 1 := by
  have hleft : 0 ≤ 1 - t := sub_nonneg.mpr ht'
  unfold Cubic.value
  rcases n with _ | _ | _ | n
  · have hcube : t ^ 3 ≤ 1 := pow_le_one₀ ht ht'
    rw [splineStep_zero]
    linarith
  · have hrest : 0 ≤ (1 - t) ^ 2 * (1 + t) := by positivity
    rw [splineStep_one]
    linarith
  · have hrest : 0 ≤ t ^ 2 * (2 - t) := mul_nonneg (sq_nonneg t) (by linarith)
    rw [splineStep_two]
    linarith
  · have hcube : (1 - t) ^ 3 ≤ 1 := pow_le_one₀ hleft (by linarith)
    rw [splineStep_add_three]
    linarith

theorem weightAt_le_one (knot : ℝ) : weightAt knot ≤ 1 := by
  have hfloor : Scalar.floor knot = (⌊knot⌋ : ℝ) := rfl
  unfold weightAt
  rw [hfloor, RealScalar.numeral_zero]
  split_ifs
  · exact value_splineStep_le_one _ (sub_nonneg.mpr (Int.floor_le knot))
      (by linarith [Int.lt_floor_add_one knot])
  · exact zero_le_one

/-! ## Stretched colours -/

/-- A colour with its channels moved away from a value by one factor. -/
def stretch (low s : ℝ) (p : Rgb ℝ) : Rgb ℝ := p.map fun v => low + (v - low) * s

section Stretches

variable (low s t : ℝ) (p : Rgb ℝ)

theorem stretch_one : stretch low 1 p = p := by
  have hchannel : ∀ v : ℝ, low + (v - low) * 1 = v := by
    intro v
    ring
  unfold stretch Rgb.map
  simp only [hchannel]

/-- Stretches about the least channel multiply. -/
theorem stretch_stretch : stretch low t (stretch low s p) = stretch low (s * t) p := by
  have hchannel : ∀ v : ℝ, low + (low + (v - low) * s - low) * t = low + (v - low) * (s * t) := by
    intro v
    ring
  unfold stretch Rgb.map
  simp only [hchannel]

variable {low s t p}

theorem min_stretch (hs : 0 ≤ s) (hlow : min p.green p.blue = low) :
    min (stretch low s p).green (stretch low s p).blue = low := by
  have hmono : Monotone fun v : ℝ => low + (v - low) * s := by
    intro v w h
    have := mul_le_mul_of_nonneg_right (sub_le_sub_right h low) hs
    exact add_le_add_right this low
  have hmin : min (low + (p.green - low) * s) (low + (p.blue - low) * s) =
      low + (min p.green p.blue - low) * s := (hmono.map_min).symm
  unfold stretch Rgb.map
  rw [hmin, hlow, sub_self, zero_mul, add_zero]

/-- A hue is an angle, which does not change when both of its sides grow by one factor. -/
theorem weight_stretch {angle : ℝ → ℝ → ℝ}
    (hscale : ∀ t y x, 0 < t → angle (t * y) (t * x) = angle y x) (k : RedModifier ℝ)
    (hs : 0 < s) : weight angle k (stretch low s p) = weight angle k p := by
  have hrise : squareRoot3 * ((stretch low s p).green - (stretch low s p).blue) =
      s * (squareRoot3 * (p.green - p.blue)) := by
    unfold stretch Rgb.map
    ring
  have hrun : 2 * (stretch low s p).red - ((stretch low s p).green + (stretch low s p).blue) =
      s * (2 * p.red - (p.green + p.blue)) := by
    unfold stretch Rgb.map
    ring
  rw [weight_eq, weight_eq, hrise, hrun, hscale _ _ _ hs]

/-- A colour that keeps its hue with a new red is stretched from its lowest channel on. -/
theorem restoreHue_eq (hlow : min p.green p.blue = low) (hwide : 1 / 10 ^ 10 ≤ p.red - low)
    (x : ℝ) : restoreHue p x = stretch low ((x - low) / (p.red - low)) p := by
  have hne : p.red - low ≠ 0 := (lt_of_lt_of_le (by positivity) hwide).ne'
  have hred : low + (p.red - low) * ((x - low) / (p.red - low)) = x := by
    rw [mul_div_cancel₀ _ hne]
    ring
  have hmiddle : ∀ v : ℝ, (v - low) / (p.red - low) * (x - low) + low =
      low + (v - low) * ((x - low) / (p.red - low)) := by
    intro v
    ring
  unfold restoreHue stretch Rgb.map
  rw [tiny_eq]
  simp only [RealScalar.maxNum_eq]
  split_ifs with hblue
  · have hdef : p.blue = low := by rw [← hlow, min_eq_right hblue]
    rw [hdef, max_eq_left hwide, hmiddle, hred, sub_self, zero_mul, add_zero]
  · have hdef : p.green = low := by rw [← hlow, min_eq_left (le_of_not_ge hblue)]
    rw [hdef, max_eq_left hwide, hmiddle, hred, sub_self, zero_mul, add_zero]

theorem restoreHue_gray (v : ℝ) : restoreHue (Rgb.gray v) v = Rgb.gray v := by
  unfold restoreHue Rgb.gray
  simp only [le_refl, if_true, sub_self, zero_div, zero_mul, zero_add]

end Stretches

/-! ## Pulled and pushed -/

/-- Constants of a modifier that keeps hues and leaves a tenth of the distance to its pivot. -/
structure Gentle (k : RedModifier ℝ) : Prop where
  keepsHue : k.keepsHue = true
  scale_ge : 1 / 10 ≤ k.scale
  scale_le : k.scale ≤ 1
  pivot_nonneg : 0 ≤ k.pivot

section Pairs

variable {k : RedModifier ℝ} {hue low red x : ℝ} {p : Rgb ℝ}

/-- The red that a colour had before is the upper root of the quadratic of its new red. -/
theorem upperRoot_of_pulled (hk : k.Gentle) (hhue : 0 ≤ hue) (hhue' : hue ≤ 1) (hlow : 0 ≤ low)
    (hred : 0 < red)
    (hx : x * red = red * red + hue * (red - low) * (k.pivot - red) * (1 - k.scale)) :
    upperRoot (hue * (1 - k.scale) - 1) (x - hue * (k.pivot + low) * (1 - k.scale))
      (hue * k.pivot * low * (1 - k.scale)) = red := by
  have hpart : 0 ≤ 1 - k.scale := sub_nonneg.mpr hk.scale_le
  have hweight : hue * (1 - k.scale) ≤ 9 / 10 :=
    (mul_le_of_le_one_left hpart hhue').trans (by linarith [hk.scale_ge])
  refine upperRoot_of_root (by linarith) hred ?_ (by linear_combination hx)
  exact mul_nonneg (mul_nonneg (mul_nonneg hhue hk.pivot_nonneg) hlow) hpart

theorem withRed_eq (hk : k.Gentle) (p : Rgb ℝ) (x : ℝ) : k.withRed p x = restoreHue p x :=
  if_pos hk.keepsHue

theorem pulled_gray (hk : k.Gentle) (hue v : ℝ) :
    k.pulled hue (Rgb.gray v) = Rgb.gray v := by
  have hsaturation : saturation (Rgb.gray v) k.noiseLimit = 0 := by
    unfold saturation
    rw [greatest_gray, least_gray, sub_self, zero_div]
  have hred : v + hue * 0 * (k.pivot - v) * (1 - k.scale) = v := by ring
  rw [pulled_eq, withRed_eq hk, hsaturation]
  exact (congrArg _ hred).trans (restoreHue_gray v)

theorem pushed_gray (hk : k.Gentle) (hhue : 0 ≤ hue) (hhue' : hue ≤ 1) {v : ℝ} (hv : 0 < v) :
    k.pushed hue (Rgb.gray v) = Rgb.gray v := by
  have hroot := upperRoot_of_pulled (x := v) hk hhue hhue' hv.le hv (by ring)
  rw [pushed_eq, withRed_eq hk]
  simp only [Rgb.gray, min_self]
  rw [hroot]
  exact restoreHue_gray v

/-- How far a colour is stretched. -/
noncomputable def factor (k : RedModifier ℝ) (hue red : ℝ) : ℝ :=
  1 + hue * (k.pivot - red) * (1 - k.scale) / red

/-- No gentle pull shrinks a colour to less than a tenth of its width. -/
theorem le_factor (hk : k.Gentle) (hhue : 0 ≤ hue) (hhue' : hue ≤ 1) (hred : 0 < red) :
    1 / 10 ≤ k.factor hue red := by
  have hpart : 0 ≤ 1 - k.scale := sub_nonneg.mpr hk.scale_le
  have hweight : hue * (1 - k.scale) ≤ 9 / 10 :=
    (mul_le_of_le_one_left hpart hhue').trans (by linarith [hk.scale_ge])
  have hpivot := mul_nonneg (mul_nonneg hhue hpart) (div_nonneg hk.pivot_nonneg hred.le)
  have hsplit : k.factor hue red =
      1 - hue * (1 - k.scale) + hue * (1 - k.scale) * (k.pivot / red) := by
    unfold factor
    field_simp
    ring
  rw [hsplit]
  linarith

/-- Pulling the red of a colour is a stretch of the colour, once its hue is restored. -/
theorem pulled_eq_stretch (hk : k.Gentle) (hleast : 1 / 10 ^ 10 ≤ low)
    (hlow : min p.green p.blue = low) (hgreatest : greatest p = p.red)
    (hnoise : k.noiseLimit ≤ p.red) (hwide : 1 / 10 ^ 10 ≤ p.red - low) :
    k.pulled hue p = stretch low (k.factor hue p.red) p := by
  have hgap : 0 < p.red - low := lt_of_lt_of_le (by positivity) hwide
  have hpos : 0 < low := lt_of_lt_of_le (by positivity) hleast
  have hred : 0 < p.red := by linarith
  have hleast' : least p = low := by
    rw [least_eq, min_assoc, hlow, min_eq_right (by linarith)]
  have hfactor : (p.red + hue * ((p.red - low) / p.red) * (k.pivot - p.red) * (1 - k.scale) -
      low) / (p.red - low) = k.factor hue p.red := by
    unfold factor
    rw [div_eq_iff hgap.ne']
    field_simp
    ring
  rw [pulled_eq, withRed_eq hk, restoreHue_eq hlow hwide, saturation_eq (hleast'.symm ▸ hleast)
    (hgreatest.symm ▸ hnoise), hleast', hgreatest, hfactor]

/-- The positive root finds the red from before the stretch. -/
theorem pushed_stretch (hk : k.Gentle) (hhue : 0 ≤ hue) (hhue' : hue ≤ 1) (hpos : 0 < low)
    (hlow : min p.green p.blue = low) (hwide : 1 / 10 ^ 9 ≤ p.red - low) :
    k.pushed hue (stretch low (k.factor hue p.red) p) = p := by
  have hgap : 0 < p.red - low := lt_of_lt_of_le (by positivity) hwide
  have hred : 0 < p.red := by linarith
  obtain ⟨s, hs⟩ : ∃ s, s = k.factor hue p.red := ⟨_, rfl⟩
  have hfactor : 1 / 10 ≤ s := hs ▸ le_factor hk hhue hhue' hred
  have hfactor' : 0 < s := by linarith
  have hafter : (stretch low s p).red - low = (p.red - low) * s := add_sub_cancel_left _ _
  have hwide' : 1 / 10 ^ 10 ≤ (stretch low s p).red - low := by
    rw [hafter]
    have := mul_le_mul hwide hfactor (by norm_num) hgap.le
    linarith
  have hx : (stretch low s p).red * p.red = p.red * p.red +
      hue * (p.red - low) * (k.pivot - p.red) * (1 - k.scale) := by
    have hsplit : (stretch low s p).red = low + (p.red - low) * s := rfl
    rw [hsplit, hs]
    unfold factor
    field_simp
    ring
  rw [pushed_eq, ← hs, min_stretch hfactor'.le hlow,
    upperRoot_of_pulled hk hhue hhue' hpos.le hred hx, withRed_eq hk,
    restoreHue_eq (min_stretch hfactor'.le hlow) hwide', stretch_stretch, hafter, ← div_div,
    div_self hgap.ne', mul_one_div_cancel hfactor'.ne', stretch_one]

end Pairs

/-- A gentle modifier gives the red back to grays and to colours wide enough for a hue. -/
theorem inverse_forward {angle : ℝ → ℝ → ℝ}
    (hscale : ∀ t y x, 0 < t → angle (t * y) (t * x) = angle y x) {k : RedModifier ℝ}
    (hk : k.Gentle) {p : Rgb ℝ} (hgreen : p.green ≤ p.red) (hblue : p.blue ≤ p.red)
    (hnoise : k.noiseLimit ≤ p.red) (hlow : 1 / 10 ^ 10 ≤ least p)
    (hwide : p = Rgb.gray p.red ∨ least p + 1 / 10 ^ 9 ≤ p.red) :
    @inverse ℝ (RealScalar.withAngle angle) k (@forward ℝ (RealScalar.withAngle angle) k p) =
      p := by
  have hpos : 0 < least p := lt_of_lt_of_le (by positivity) hlow
  have hhue' : weight angle k p ≤ 1 := weightAt_le_one _
  rw [forward_withAngle]
  split_ifs with hhue
  · rw [inverse_withAngle, if_pos hhue]
  rw [not_le] at hhue
  rcases hwide with hgray | hwide
  · have hred : 0 < p.red := hpos.trans_le (least_le p).1
    rw [hgray] at hhue hhue' ⊢
    rw [pulled_gray hk, inverse_withAngle, if_neg (not_le.mpr hhue),
      pushed_gray hk hhue.le hhue' hred]
  · have hmin : min p.green p.blue = least p := by
      rw [least_eq, min_assoc, min_eq_right (min_le_of_left_le hgreen)]
    have hgreatest : greatest p = p.red := by
      rw [greatest_eq, max_eq_left hgreen, max_eq_left hblue]
    have hwide' : 1 / 10 ^ 9 ≤ p.red - least p := le_sub_iff_add_le'.mpr hwide
    have hfactor := le_factor hk hhue.le hhue' (hpos.trans_le (least_le p).1)
    rw [pulled_eq_stretch hk hlow hmin hgreatest hnoise (le_trans (by norm_num) hwide'),
      inverse_withAngle, weight_stretch hscale k (by linarith), if_neg (not_le.mpr hhue),
      pushed_stretch hk hhue.le hhue' hpos hmin hwide']

theorem version03_gentle : (version03 : RedModifier ℝ).Gentle where
  keepsHue := rfl
  scale_ge := by
    unfold version03
    simp only [RealScalar.decimal_eq]
    norm_num
  scale_le := by
    unfold version03
    simp only [RealScalar.decimal_eq]
    norm_num
  pivot_nonneg := by
    unfold version03
    simp only [RealScalar.decimal_eq]
    norm_num

end RedModifier

open RedModifier in
/-- A colour with no channel above the red one is given back, unless it is nearly black or nearly,
but not quite, a gray. All that counts of the angle is that it does not change with the scale. -/
theorem reds_are_given_back {angle : ℝ → ℝ → ℝ}
    (hscale : ∀ t y x, 0 < t → angle (t * y) (t * x) = angle y x) {p : Rgb ℝ}
    (hgreen : p.green ≤ p.red) (hblue : p.blue ≤ p.red) (hred : 1 / 100 ≤ p.red)
    (hlow : 1 / 10 ^ 10 ≤ min (min p.red p.green) p.blue)
    (hwide : p = Rgb.gray p.red ∨ min (min p.red p.green) p.blue + 1 / 10 ^ 9 ≤ p.red) :
    letI := RealScalar.withAngle angle
    inverse version03 (forward version03 p) = p := by
  have hnoise : (version03 : RedModifier ℝ).noiseLimit ≤ p.red := by
    unfold version03
    simp only [RealScalar.decimal_eq]
    norm_num
    linarith
  rw [← least_eq] at hlow hwide
  exact inverse_forward hscale version03_gentle hgreen hblue hnoise hlow hwide

open RedModifier in
theorem a_purple_red_is_given_back :
    inverse version03 (forward version03 (⟨1 / 2, 1 / 10, 3 / 10⟩ : Rgb ℝ)) =
      ⟨1 / 2, 1 / 10, 3 / 10⟩ := by
  have hscale : ∀ t y x : ℝ, 0 < t → Complex.arg ⟨t * x, t * y⟩ = Complex.arg ⟨x, y⟩ := by
    intro t y x ht
    have hmul : (⟨t * x, t * y⟩ : ℂ) = t * ⟨x, y⟩ := by
      apply Complex.ext <;> simp
    rw [hmul, Complex.arg_real_mul _ ht]
  exact reds_are_given_back hscale (by norm_num) (by norm_num) (by norm_num) (by norm_num)
    (.inr (by norm_num))

end ColorPipeline
