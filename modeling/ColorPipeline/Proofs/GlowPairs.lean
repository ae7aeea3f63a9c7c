-- The glow and its inverse, over the real numbers. A glow multiplies a colour by one factor, which
-- leaves the saturation of the colour alone and makes it brighter by that factor. So the inverse
-- finds the same gain, and each of its three regions of brightness is what the glow makes of the
-- region in the same place.
import ColorPipeline.FixedFunction.Glow
import ColorPipeline.Proofs.Channels
import ColorPipeline.Proofs.Rendering

open scoped ColorPipeline.RealScalar

namespace ColorPipeline

namespace Glow

open RedModifier (greatest least)

theorem half_eq : @OfScientific.ofScientific ℝ Scalar.instDecimal 5 true 1 = 1 / 2 := by
  rw [RealScalar.decimal_eq]
  norm_num

/-! ## The gain -/

theorem side_eq (x : ℝ) : side x = if x < 0 then -1 else 1 := by
  unfold side
  rw [RealScalar.numeral_zero, RealScalar.numeral_one]

theorem rest_eq (x : ℝ) : rest x = max (1 - 1 / 2 * side x * x) 0 := by
  unfold rest
  rw [RealScalar.maxNum_eq, RealScalar.numeral_zero, RealScalar.numeral_one, half_eq]

theorem rest_mem (x : ℝ) : 0 ≤ rest x ∧ rest x ≤ 1 := by
  have hside : 0 ≤ side x * x := by
    rw [side_eq]
    split_ifs <;> linarith
  rw [rest_eq]
  refine ⟨le_max_right _ _, max_le ?_ zero_le_one⟩
  linarith

theorem sigmoid_mem (s : ℝ) : 0 ≤ sigmoid s ∧ sigmoid s ≤ 1 := by
  unfold sigmoid
  extract_lets x
  obtain ⟨hlow, hhigh⟩ := rest_mem x
  have hsquare := mul_nonneg hlow hlow
  have hsquare' := mul_le_one₀ hhigh hlow hhigh
  rw [RealScalar.numeral_one, half_eq, side_eq]
  split_ifs <;> constructor <;> linarith

/-! ## The factors -/

/-- The share that a glow adds is none for bright colours and all of the gain for dark ones. Between
them it falls. -/
theorem forwardPart_eq (k : Glow ℝ) (y gain : ℝ) : k.forwardPart y gain =
    if k.mid * 2 ≤ y then 0
    else if y ≤ k.mid * 2 / 3 then gain
    else gain * (k.mid / y - 1 / 2) := by
  unfold forwardPart
  simp only [RealScalar.numeral_zero, RealScalar.numeral_eq, half_eq]

/-- The share that is taken away. Dark colours end where the glow has moved them to. -/
theorem inversePart_eq (k : Glow ℝ) (y gain : ℝ) : k.inversePart y gain =
    if k.mid * 2 ≤ y then 0
    else if y ≤ (1 + gain) * k.mid * 2 / 3 then -gain / (1 + gain)
    else gain * (k.mid / y - 1 / 2) / (gain * (1 / 2) - 1) := by
  unfold inversePart
  simp only [RealScalar.numeral_zero, RealScalar.numeral_one, RealScalar.numeral_eq, half_eq]

/-- Constants of a glow with a gain below 2, under which of two colours with one saturation the
brighter one stays the brighter one. -/
structure Mild (k : Glow ℝ) : Prop where
  gain_nonneg : 0 ≤ k.gain
  gain_lt : k.gain < 2
  mid_pos : 0 < k.mid

section Factors

variable {k : Glow ℝ} {y gain : ℝ}

theorem forwardPart_nonneg (hy : 0 < y) (hgain : 0 ≤ gain) : 0 ≤ k.forwardPart y gain := by
  rw [forwardPart_eq]
  split_ifs with hbright hdark
  · exact le_rfl
  · exact hgain
  · refine mul_nonneg hgain (sub_nonneg.mpr ?_)
    rw [div_le_div_iff₀ two_pos hy]
    linarith

theorem inversePart_of_bright (hy : k.mid * 2 ≤ y) : k.inversePart y gain = 0 := by
  rw [inversePart_eq, if_pos hy]

theorem inversePart_of_dark (hmid : 0 < k.mid) (hgain : gain < 2)
    (hy : y ≤ (1 + gain) * k.mid * 2 / 3) : k.inversePart y gain = -gain / (1 + gain) := by
  have hbelow : ¬ k.mid * 2 ≤ y := by
    have := mul_lt_mul_of_pos_right hgain hmid
    linarith
  rw [inversePart_eq, if_neg hbelow, if_pos hy]

theorem inversePart_of_between (hlow : (1 + gain) * k.mid * 2 / 3 < y) (hhigh : y < k.mid * 2) :
    k.inversePart y gain = gain * (k.mid / y - 1 / 2) / (gain * (1 / 2) - 1) := by
  rw [inversePart_eq, if_neg (not_le.mpr hhigh), if_neg (not_le.mpr hlow)]

/-- The inverse takes back from the brighter colour what the glow has added. -/
theorem parts_cancel (hmid : 0 < k.mid) (hy : 0 < y) (hgain : 0 ≤ gain) (hgain' : gain < 2) :
    (1 + k.forwardPart y gain) *
      (1 + k.inversePart (y * (1 + k.forwardPart y gain)) gain) = 1 := by
  by_cases hbright : k.mid * 2 ≤ y
  · have hpart : k.forwardPart y gain = 0 := by rw [forwardPart_eq, if_pos hbright]
    rw [hpart, add_zero, mul_one, inversePart_of_bright hbright]
    ring
  by_cases hdark : y ≤ k.mid * 2 / 3
  · have hpart : k.forwardPart y gain = gain := by
      unfold forwardPart
      rw [if_neg hbright, if_pos hdark]
    have hafter : y * (1 + gain) ≤ (1 + gain) * k.mid * 2 / 3 := by
      have := mul_le_mul_of_nonneg_right hdark (by linarith : 0 ≤ 1 + gain)
      linarith
    have hne : 1 + gain ≠ 0 := by linarith
    rw [hpart, inversePart_of_dark hmid hgain' hafter]
    field_simp
    ring
  · have hpart : k.forwardPart y gain = gain * (k.mid / y - 1 / 2) := by
      rw [forwardPart_eq, if_neg hbright, if_neg hdark]
    -- between the regions the brightness afterwards is a line through both of their borders
    obtain ⟨z, hz⟩ : ∃ z, z = y * (1 - gain / 2) + gain * k.mid := ⟨_, rfl⟩
    have hslope : 0 < 1 - gain / 2 := by linarith
    have hlow := mul_lt_mul_of_pos_right (not_le.mp hdark) hslope
    have hhigh := mul_lt_mul_of_pos_right (not_le.mp hbright) hslope
    have hpos : 0 < z := by
      rw [hz]
      positivity
    have hfactor : 1 + gain * (k.mid / y - 1 / 2) = z / y := by
      rw [eq_div_iff hy.ne', hz]
      field_simp
      ring
    have hdivisor : gain * (1 / 2) - 1 ≠ 0 := by linarith
    have hback : 1 + gain * (k.mid / z - 1 / 2) / (gain * (1 / 2) - 1) = y / z := by
      rw [eq_div_iff hpos.ne', add_mul, div_mul_eq_mul_div, one_mul,
        ← eq_sub_iff_add_eq', div_eq_iff hdivisor, mul_assoc, sub_mul, div_mul_cancel₀ _ hpos.ne']
      linear_combination -hz
    rw [hpart, hfactor, mul_div_cancel₀ _ hy.ne',
      inversePart_of_between (by linarith) (by linarith), hback, div_mul_div_cancel₀ hy.ne',
      div_self hpos.ne']

end Factors

/-! ## Brighter colours -/

variable {k : Glow ℝ} {p : Rgb ℝ} {s t : ℝ}

theorem brighten_eq (p : Rgb ℝ) (t : ℝ) : brighten p t = p.map fun v => v * (1 + t) := by
  unfold brighten
  simp only [RealScalar.numeral_one]

theorem brighten_brighten (h : (1 + s) * (1 + t) = 1) : brighten (brighten p s) t = p := by
  have hchannel : ∀ v : ℝ, v * (1 + s) * (1 + t) = v := by
    intro v
    rw [mul_assoc, h, mul_one]
  rw [brighten_eq, brighten_eq]
  unfold Rgb.map
  simp only [hchannel]

theorem brightness_eq (p : Rgb ℝ) : brightness p =
    (p.blue + p.green + p.red + chromaWeight * √(max
      (p.blue * (p.blue - p.green) + p.green * (p.green - p.red) + p.red * (p.red - p.blue)) 0)) /
      3 := by
  unfold brightness
  simp only [RealScalar.numeral_zero, RealScalar.numeral_eq, RealScalar.maxNum_eq]
  rfl

/-- A colour made brighter by a factor has its brightness multiplied by it. -/
theorem brightness_brighten (ht : 0 ≤ 1 + t) :
    brightness (brighten p t) = brightness p * (1 + t) := by
  obtain ⟨c, hc⟩ : ∃ c, c = p.blue * (p.blue - p.green) + p.green * (p.green - p.red) +
    p.red * (p.red - p.blue) := ⟨_, rfl⟩
  have hchroma : √(max ((1 + t) * (1 + t) * c) 0) = (1 + t) * √(max c 0) := by
    have hscale : max ((1 + t) * (1 + t) * c) 0 = (1 + t) * (1 + t) * max c 0 := by
      rw [mul_max_of_nonneg _ _ (mul_nonneg ht ht), mul_zero]
    rw [hscale, Real.sqrt_mul (mul_nonneg ht ht), Real.sqrt_mul_self ht]
  have hscaled : p.blue * (1 + t) * (p.blue * (1 + t) - p.green * (1 + t)) +
      p.green * (1 + t) * (p.green * (1 + t) - p.red * (1 + t)) +
      p.red * (1 + t) * (p.red * (1 + t) - p.blue * (1 + t)) = (1 + t) * (1 + t) * c := by
    rw [hc]
    ring
  rw [brightness_eq, brightness_eq, ← hc, brighten_eq]
  simp only [Rgb.map, hscaled, hchroma]
  ring

theorem brightness_pos (hlow : 0 < least p) : 0 < brightness p := by
  obtain ⟨hred, hgreen, hblue⟩ := RedModifier.least_le p
  have hweight : (0 : ℝ) ≤ chromaWeight := by
    have hdef : (chromaWeight : ℝ) = (175 : ℕ) / 10 ^ 2 := RealScalar.ofDecimal_eq 175 2
    rw [hdef]
    positivity
  rw [brightness_eq]
  have hchroma := mul_nonneg hweight (Real.sqrt_nonneg (max
    (p.blue * (p.blue - p.green) + p.green * (p.green - p.red) + p.red * (p.red - p.blue)) 0))
  refine div_pos ?_ three_pos
  linarith

/-- The gain of a mild glow stays below two, where the share that is taken away has its pole. -/
theorem saturationGain_mem (hk : k.Mild) (p : Rgb ℝ) :
    0 ≤ k.saturationGain p ∧ k.saturationGain p < 2 := by
  obtain ⟨hlow, hhigh⟩ := sigmoid_mem (RedModifier.saturation p k.noiseLimit)
  exact ⟨mul_nonneg hk.gain_nonneg hlow,
    (mul_le_of_le_one_right hk.gain_nonneg hhigh).trans_lt hk.gain_lt⟩

/-- The saturation of a colour that is not too dark does not change with its brightness. -/
theorem saturationGain_brighten (hlow : 1 / 10 ^ 10 ≤ least p) (hhigh : k.noiseLimit ≤ greatest p)
    (ht : 0 ≤ t) : k.saturationGain (brighten p t) = k.saturationGain p := by
  unfold saturationGain
  rw [brighten_eq, RedModifier.saturation_map_mul hlow hhigh (le_add_of_nonneg_right ht)]

/-- A mild glow is taken back from every colour that is not lost in the noise. -/
theorem inverse_forward (hk : k.Mild) (hlow : 1 / 10 ^ 10 ≤ least p)
    (hhigh : k.noiseLimit ≤ greatest p) : k.inverse (k.forward p) = p := by
  obtain ⟨hgain, hgain'⟩ := saturationGain_mem hk p
  have hy : 0 < brightness p := brightness_pos (lt_of_lt_of_le (by positivity) hlow)
  have hpart := forwardPart_nonneg (k := k) hy hgain
  unfold inverse forward
  rw [saturationGain_brighten hlow hhigh hpart, brightness_brighten (by linarith)]
  exact brighten_brighten (parts_cancel hk.mid_pos hy hgain hgain')

/-! ## The two versions -/

theorem version03_eq : (version03 : Glow ℝ) = ⟨75 / 10 ^ 3, 1 / 10, 1 / 10 ^ 2⟩ := by
  unfold version03
  simp only [RealScalar.decimal_eq, Nat.cast_one, Nat.cast_ofNat, pow_one]

theorem version10_eq : (version10 : Glow ℝ) = ⟨5 / 10 ^ 2, 8 / 10 ^ 2, 1 / 10 ^ 2⟩ := by
  unfold version10
  simp only [RealScalar.decimal_eq, Nat.cast_one, Nat.cast_ofNat]

theorem version03_mild : (version03 : Glow ℝ).Mild := by
  rw [version03_eq]
  constructor <;> norm_num

theorem version10_mild : (version10 : Glow ℝ).Mild := by
  rw [version10_eq]
  constructor <;> norm_num

end Glow

/-- Both glows find their way back from every colour that is neither too dark nor has a channel
at zero. -/
theorem glows_are_taken_back {p : Rgb ℝ}
    (hlow : 1 / 10 ^ 10 ≤ min (min p.red p.green) p.blue)
    (hhigh : 1 / 100 ≤ max (max p.red p.green) p.blue) :
    Glow.version03.inverse (Glow.version03.forward p) = p ∧
      Glow.version10.inverse (Glow.version10.forward p) = p := by
  rw [← RedModifier.least_eq] at hlow
  rw [← RedModifier.greatest_eq] at hhigh
  constructor
  · refine Glow.inverse_forward Glow.version03_mild hlow ?_
    rw [Glow.version03_eq]
    linarith
  · refine Glow.inverse_forward Glow.version10_mild hlow ?_
    rw [Glow.version10_eq]
    linarith

/-- A dark red, which both glows brighten. -/
theorem a_glowing_dark_red_is_dark_again :
    (1 / 10 ^ 10 : ℝ) ≤ min (min (5 / 100) (1 / 100)) (1 / 100) ∧
      (1 / 100 : ℝ) ≤ max (max (5 / 100) (1 / 100)) (1 / 100) ∧
      Glow.version03.inverse (Glow.version03.forward (⟨5 / 100, 1 / 100, 1 / 100⟩ : Rgb ℝ)) =
        ⟨5 / 100, 1 / 100, 1 / 100⟩ ∧
      Glow.version10.inverse (Glow.version10.forward (⟨5 / 100, 1 / 100, 1 / 100⟩ : Rgb ℝ)) =
        ⟨5 / 100, 1 / 100, 1 / 100⟩ := by
  have hlow : (1 / 10 ^ 10 : ℝ) ≤ min (min (5 / 100) (1 / 100)) (1 / 100) := by norm_num
  have hhigh : (1 / 100 : ℝ) ≤ max (max (5 / 100) (1 / 100)) (1 / 100) := by norm_num
  exact ⟨hlow, hhigh, glows_are_taken_back (p := ⟨5 / 100, 1 / 100, 1 / 100⟩) hlow hhigh⟩

end ColorPipeline
