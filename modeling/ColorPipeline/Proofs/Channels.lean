-- The highest and the lowest channel of a colour, over the real numbers, and the saturation that
-- they give. Maps of values that never fall keep which channels these are.
import ColorPipeline.FixedFunction.RedModifier
import ColorPipeline.Proofs.Rendering

open scoped ColorPipeline.RealScalar

namespace ColorPipeline

namespace RedModifier

theorem greatest_eq (p : Rgb ℝ) : greatest p = max (max p.red p.green) p.blue := by
  unfold greatest
  rw [RealScalar.maxNum_eq, RealScalar.maxNum_eq]

theorem least_eq (p : Rgb ℝ) : least p = min (min p.red p.green) p.blue := by
  unfold least
  rw [RealScalar.minNum_eq, RealScalar.minNum_eq]

/-- Maps that keep the order keep the greatest channel. -/
theorem greatest_map {f : ℝ → ℝ} (hf : Monotone f) (p : Rgb ℝ) :
    greatest (p.map f) = f (greatest p) := by
  rw [greatest_eq, greatest_eq, hf.map_max, hf.map_max]
  rfl

theorem least_map {f : ℝ → ℝ} (hf : Monotone f) (p : Rgb ℝ) :
    least (p.map f) = f (least p) := by
  rw [least_eq, least_eq, hf.map_min, hf.map_min]
  rfl

theorem greatest_gray (v : ℝ) : greatest (Rgb.gray v) = v := by
  rw [greatest_eq]
  simp only [Rgb.gray, max_self]

theorem least_gray (v : ℝ) : least (Rgb.gray v) = v := by
  rw [least_eq]
  simp only [Rgb.gray, min_self]

theorem le_greatest (p : Rgb ℝ) : p.red ≤ greatest p ∧ p.green ≤ greatest p ∧
    p.blue ≤ greatest p := by
  rw [greatest_eq]
  exact ⟨le_max_of_le_left (le_max_left _ _), le_max_of_le_left (le_max_right _ _),
    le_max_right _ _⟩

theorem least_le (p : Rgb ℝ) : least p ≤ p.red ∧ least p ≤ p.green ∧ least p ≤ p.blue := by
  rw [least_eq]
  exact ⟨min_le_of_left_le (min_le_left _ _), min_le_of_left_le (min_le_right _ _),
    min_le_right _ _⟩

theorem least_le_greatest (p : Rgb ℝ) : least p ≤ greatest p :=
  (least_le p).1.trans (le_greatest p).1

/-- Where the highest channel is not above the lowest one, all three are the same. -/
theorem eq_gray (p : Rgb ℝ) (h : greatest p ≤ least p) : p = Rgb.gray (greatest p) := by
  obtain ⟨hred, hgreen, hblue⟩ := le_greatest p
  obtain ⟨hred', hgreen', hblue'⟩ := least_le p
  rcases p with ⟨red, green, blue⟩
  simp only [Rgb.gray, Rgb.mk.injEq]
  exact ⟨le_antisymm hred (h.trans hred'), le_antisymm hgreen (h.trans hgreen'),
    le_antisymm hblue (h.trans hblue')⟩

theorem exists_eq_greatest (p : Rgb ℝ) :
    p.red = greatest p ∨ p.green = greatest p ∨ p.blue = greatest p := by
  rw [greatest_eq]
  rcases max_choice (max p.red p.green) p.blue with h | h
  · rw [h]
    rcases max_choice p.red p.green with h' | h'
    · exact .inl h'.symm
    · exact .inr (.inl h'.symm)
  · exact .inr (.inr h.symm)

theorem exists_eq_least (p : Rgb ℝ) :
    p.red = least p ∨ p.green = least p ∨ p.blue = least p := by
  rw [least_eq]
  rcases min_choice (min p.red p.green) p.blue with h | h
  · rw [h]
    rcases min_choice p.red p.green with h' | h'
    · exact .inl h'.symm
    · exact .inr (.inl h'.symm)
  · exact .inr (.inr h.symm)

/-! ## Saturation -/

/-- The smallest value that a difference of channels is divided by. -/
theorem tiny_eq : @OfScientific.ofScientific ℝ Scalar.instDecimal 1 true 10 = 1 / 10 ^ 10 := by
  rw [RealScalar.decimal_eq, Nat.cast_one]

/-- The saturation of a colour that is not too dark. -/
theorem saturation_eq {p : Rgb ℝ} {noiseLimit : ℝ} (hlow : 1 / 10 ^ 10 ≤ least p)
    (hhigh : noiseLimit ≤ greatest p) :
    saturation p noiseLimit = (greatest p - least p) / greatest p := by
  unfold saturation
  rw [tiny_eq]
  simp only [RealScalar.maxNum_eq]
  rw [max_eq_left (hlow.trans (least_le_greatest p)), max_eq_left hlow, max_eq_left hhigh]

/-- The saturation is that of the colour, not of its brightness, as long as no limit is met. -/
theorem saturation_map_mul {p : Rgb ℝ} {noiseLimit s : ℝ} (hlow : 1 / 10 ^ 10 ≤ least p)
    (hhigh : noiseLimit ≤ greatest p) (hs : 1 ≤ s) :
    saturation (p.map (· * s)) noiseLimit = saturation p noiseLimit := by
  have hpos : 0 < s := zero_lt_one.trans_le hs
  have hmono : Monotone fun v : ℝ => v * s := fun _ _ h => mul_le_mul_of_nonneg_right h hpos.le
  have hleast : 0 < least p := lt_of_lt_of_le (by positivity) hlow
  have hgreatest : 0 < greatest p := hleast.trans_le (least_le_greatest p)
  rw [saturation_eq hlow hhigh, saturation_eq, greatest_map hmono, least_map hmono, ← sub_mul,
    mul_div_mul_right _ _ hpos.ne']
  · rw [least_map hmono]
    exact hlow.trans (le_mul_of_one_le_right hleast.le hs)
  · rw [greatest_map hmono]
    exact hhigh.trans (le_mul_of_one_le_right hgreatest.le hs)

end RedModifier

end ColorPipeline
