-- Colours as hue, saturation and value and back, over the real numbers. A full turn of the hue has
-- six sectors, and in each of them one channel is at its highest, one at its lowest, and the third
-- one tells the place. So a colour is a pure one, stretched and moved, and both ways keep that.
import ColorPipeline.FixedFunction.Hsv
import ColorPipeline.Proofs.Channels
import ColorPipeline.Proofs.Rendering

open scoped ColorPipeline.RealScalar

namespace ColorPipeline

namespace Hsv

open RedModifier (greatest least)

/-! ## Sectors -/

/-- The pure colour at a hue that is measured in sixths of a turn. The sectors do not overlap
where two channels are the highest: there the hue is read off the first one of them. -/
inductive PureAt : ℝ → Rgb ℝ → Prop
  | redToYellow {t : ℝ} : 0 ≤ t → t ≤ 1 → PureAt t ⟨1, t, 0⟩
  | yellowToGreen {t : ℝ} : 0 ≤ t → t < 1 → PureAt (2 - t) ⟨t, 1, 0⟩
  | greenToCyan {t : ℝ} : 0 ≤ t → t ≤ 1 → PureAt (2 + t) ⟨0, 1, t⟩
  | cyanToBlue {t : ℝ} : 0 ≤ t → t < 1 → PureAt (4 - t) ⟨0, t, 1⟩
  | blueToMagenta {t : ℝ} : 0 ≤ t → t < 1 → PureAt (4 + t) ⟨t, 0, 1⟩
  | magentaToRed {t : ℝ} : 0 < t → t ≤ 1 → PureAt (6 - t) ⟨1, 0, t⟩

variable {h high delta : ℝ} {c p : Rgb ℝ}

theorem PureAt.hue_mem (hc : PureAt h c) : 0 ≤ h ∧ h < 6 := by
  cases hc <;> constructor <;> linarith

theorem exists_pure (hlow : 0 ≤ h) (hhigh : h < 6) : ∃ c, PureAt h c := by
  rcases le_or_gt h 1 with h1 | h1
  · exact ⟨_, .redToYellow hlow h1⟩
  rcases le_or_gt h 2 with h2 | h2
  · have hc := PureAt.yellowToGreen (t := 2 - h) (by linarith) (by linarith)
    rw [sub_sub_cancel] at hc
    exact ⟨_, hc⟩
  rcases le_or_gt h 3 with h3 | h3
  · have hc := PureAt.greenToCyan (t := h - 2) (by linarith) (by linarith)
    rw [add_sub_cancel] at hc
    exact ⟨_, hc⟩
  rcases le_or_gt h 4 with h4 | h4
  · have hc := PureAt.cyanToBlue (t := 4 - h) (by linarith) (by linarith)
    rw [sub_sub_cancel] at hc
    exact ⟨_, hc⟩
  rcases lt_or_ge h 5 with h5 | h5
  · have hc := PureAt.blueToMagenta (t := h - 4) (by linarith) (by linarith)
    rw [add_sub_cancel] at hc
    exact ⟨_, hc⟩
  · have hc := PureAt.magentaToRed (t := 6 - h) (by linarith) (by linarith)
    rw [sub_sub_cancel] at hc
    exact ⟨_, hc⟩

theorem PureAt.greatest_eq_one (hc : PureAt h c) : greatest c = 1 := by
  rw [RedModifier.greatest_eq]
  cases hc <;> simp_all [le_of_lt]

theorem PureAt.least_eq_zero (hc : PureAt h c) : least c = 0 := by
  rw [RedModifier.least_eq]
  cases hc <;> simp_all [le_of_lt]

/-- A colour whose channels reach from 0 to 1 lies in a sector. -/
theorem exists_hue (hhigh : greatest c = 1) (hlow : least c = 0) : ∃ h, PureAt h c := by
  obtain ⟨hred, hgreen, hblue⟩ := RedModifier.le_greatest c
  obtain ⟨hred', hgreen', hblue'⟩ := RedModifier.least_le c
  have hone := RedModifier.exists_eq_greatest c
  have hzero := RedModifier.exists_eq_least c
  rcases c with ⟨red, green, blue⟩
  simp only [hhigh, hlow] at hred hgreen hblue hred' hgreen' hblue' hone hzero
  rcases eq_or_lt_of_le hred with rfl | hred
  · rcases eq_or_lt_of_le hblue' with rfl | hblue'
    · exact ⟨_, .redToYellow hgreen' hgreen⟩
    · obtain rfl : green = 0 := by
        rcases hzero with hz | hz | hz <;> linarith
      exact ⟨_, .magentaToRed hblue' hblue⟩
  · rcases eq_or_lt_of_le hgreen with rfl | hgreen
    · rcases eq_or_lt_of_le hblue' with rfl | hblue'
      · exact ⟨_, .yellowToGreen hred' hred⟩
      · obtain rfl : red = 0 := by
          rcases hzero with hz | hz | hz <;> linarith
        exact ⟨_, .greenToCyan hblue'.le hblue⟩
    · obtain rfl : blue = 1 := by
        rcases hone with ho | ho | ho <;> linarith
      rcases eq_or_lt_of_le hred' with rfl | hred'
      · exact ⟨_, .cyanToBlue hgreen' hgreen⟩
      · obtain rfl : green = 0 := by
          rcases hzero with hz | hz | hz <;> linarith
        exact ⟨_, .blueToMagenta hred'.le hred⟩

/-! ## Colours with a hue -/

/-- The colour with a given highest channel and a given distance to the lowest one, whose
channels are spread as those of a pure colour. -/
def spread (high delta : ℝ) (c : Rgb ℝ) : Rgb ℝ := c.map fun x => high - (1 - x) * delta

theorem monotone_spread (hdelta : 0 < delta) : Monotone fun x : ℝ => high - (1 - x) * delta := by
  intro x y hxy
  have := mul_le_mul_of_nonneg_right hxy hdelta.le
  simp only
  linarith

/-- The greatest channel of a spread colour is the upper end of the spread. -/
theorem PureAt.greatest_spread (hc : PureAt h c) (hdelta : 0 < delta) :
    greatest (spread high delta c) = high := by
  unfold spread
  rw [RedModifier.greatest_map (monotone_spread hdelta), hc.greatest_eq_one]
  ring

theorem PureAt.least_spread (hc : PureAt h c) (hdelta : 0 < delta) :
    least (spread high delta c) = high - delta := by
  unfold spread
  rw [RedModifier.least_map (monotone_spread hdelta), hc.least_eq_zero]
  ring

/-- Every colour that is not a gray has a hue. -/
theorem exists_spread (hp : least p < greatest p) :
    ∃ h c, PureAt h c ∧ p = spread (greatest p) (greatest p - least p) c := by
  have hdelta : 0 < greatest p - least p := sub_pos.mpr hp
  have hmono : Monotone fun x : ℝ => (x - least p) / (greatest p - least p) := fun x y hxy =>
    div_le_div_of_nonneg_right (sub_le_sub_right hxy _) hdelta.le
  obtain ⟨h, hc⟩ := exists_hue
    (c := p.map fun x => (x - least p) / (greatest p - least p))
    (by rw [RedModifier.greatest_map hmono, div_self hdelta.ne'])
    (by rw [RedModifier.least_map hmono, sub_self, zero_div])
  refine ⟨h, _, hc, ?_⟩
  have hback : ∀ x : ℝ, greatest p -
      (1 - (x - least p) / (greatest p - least p)) * (greatest p - least p) = x := by
    intro x
    rw [sub_mul, div_mul_cancel₀ _ hdelta.ne']
    ring
  unfold spread Rgb.map
  simp only [hback]

/-! ## From a hue to a colour -/

section Formulas

open scoped ColorPipeline.Scalar

variable {S : Type} [Scalar S]

/-- A value limited to what a channel of a pure colour can be. -/
def limited (x : S) : S := Scalar.clamp x 0 1

/-- A plateau of two sectors, with a slope of one sector on both sides. -/
def hat (x : S) : S := limited (2 - Scalar.abs x)

/-- The channels at a hue. Red is low around cyan, green and blue are high around themselves. -/
def hats (h : S) : Rgb S := ⟨limited (Scalar.abs (h - 3) - 1), hat (h - 2), hat (h - 4)⟩

theorem toRgb_def (p : Rgb S) : toRgb p =
    (hats ((p.red - Scalar.floor p.red) * 6)).map fun x => ((x - 1) * p.green + 1) * p.blue :=
  rfl

end Formulas

theorem limited_eq (x : ℝ) : limited x = min (max x 0) 1 := by
  unfold limited
  rw [RealScalar.numeral_zero, RealScalar.numeral_one]
  exact RealScalar.clamp_eq zero_le_one

theorem hat_eq (x : ℝ) : hat x = limited (2 - |x|) := by
  unfold hat
  rw [RealScalar.numeral_eq]
  rfl

theorem limited_of_mem {x : ℝ} (hlow : 0 ≤ x) (hhigh : x ≤ 1) : limited x = x := by
  rw [limited_eq, max_eq_left hlow, min_eq_left hhigh]

theorem limited_one_sub (x : ℝ) : limited (1 - x) = 1 - limited x := by
  rw [limited_eq, limited_eq]
  rcases le_total x 0 with h | h
  · rw [max_eq_right h, max_eq_left (by linarith), min_eq_right (by linarith),
      min_eq_left zero_le_one, sub_zero]
  · rcases le_total x 1 with h' | h'
    · rw [max_eq_left h, max_eq_left (by linarith), min_eq_left (by linarith), min_eq_left h']
    · rw [max_eq_left h, max_eq_right (by linarith), min_eq_left zero_le_one, min_eq_right h',
        sub_self]

/-- A hat is flat at its top. -/
theorem hat_of_near {x : ℝ} (hlow : -1 ≤ x) (hhigh : x ≤ 1) : hat x = 1 := by
  have := abs_le.mpr ⟨hlow, hhigh⟩
  rw [hat_eq, limited_eq, max_eq_left (by linarith), min_eq_right (by linarith)]

theorem hat_of_far {x : ℝ} (hfar : 2 ≤ |x|) : hat x = 0 := by
  rw [hat_eq, limited_eq, max_eq_right (by linarith), min_eq_left zero_le_one]

theorem hat_of_right {x : ℝ} (hlow : 1 ≤ x) (hhigh : x ≤ 2) : hat x = 2 - x := by
  rw [hat_eq, abs_of_nonneg (by linarith), limited_of_mem (by linarith) (by linarith)]

theorem hat_of_left {x : ℝ} (hlow : -2 ≤ x) (hhigh : x ≤ -1) : hat x = 2 + x := by
  rw [hat_eq, abs_of_nonpos (by linarith), sub_neg_eq_add,
    limited_of_mem (by linarith) (by linarith)]

theorem hats_eq (h : ℝ) : hats h = ⟨1 - hat (h - 3), hat (h - 2), hat (h - 4)⟩ := by
  have hred : limited (|h - 3| - 1) = 1 - hat (h - 3) := by
    rw [hat_eq, ← limited_one_sub]
    congr 1
    ring
  rw [← hred]
  unfold hats
  simp only [RealScalar.numeral_eq, RealScalar.numeral_one]
  rfl

/-- The three hats at a hue are its pure colour. -/
theorem PureAt.hats_eq (hc : PureAt h c) : hats h = c := by
  rw [Hsv.hats_eq]
  cases hc with
  | @redToYellow h h0 h1 =>
    rw [hat_of_far (x := h - 3) (le_abs.mpr (.inr (by linarith))),
      hat_of_left (x := h - 2) (by linarith) (by linarith),
      hat_of_far (x := h - 4) (le_abs.mpr (.inr (by linarith))), sub_zero, add_sub_cancel]
  | @yellowToGreen t h0 h1 =>
    rw [hat_of_left (x := 2 - t - 3) (by linarith) (by linarith),
      hat_of_near (x := 2 - t - 2) (by linarith) (by linarith),
      hat_of_far (x := 2 - t - 4) (le_abs.mpr (.inr (by linarith)))]
    ring_nf
  | @greenToCyan t h0 h1 =>
    rw [hat_of_near (x := 2 + t - 3) (by linarith) (by linarith),
      hat_of_near (x := 2 + t - 2) (by linarith) (by linarith),
      hat_of_left (x := 2 + t - 4) (by linarith) (by linarith)]
    ring_nf
  | @cyanToBlue t h0 h1 =>
    rw [hat_of_near (x := 4 - t - 3) (by linarith) (by linarith),
      hat_of_right (x := 4 - t - 2) (by linarith) (by linarith),
      hat_of_near (x := 4 - t - 4) (by linarith) (by linarith)]
    ring_nf
  | @blueToMagenta t h0 h1 =>
    rw [hat_of_right (x := 4 + t - 3) (by linarith) (by linarith),
      hat_of_far (x := 4 + t - 2) (le_abs.mpr (.inl (by linarith))),
      hat_of_near (x := 4 + t - 4) (by linarith) (by linarith)]
    ring_nf
  | @magentaToRed t h0 h1 =>
    rw [hat_of_far (x := 6 - t - 3) (le_abs.mpr (.inl (by linarith))),
      hat_of_far (x := 6 - t - 2) (le_abs.mpr (.inl (by linarith))),
      hat_of_right (x := 6 - t - 4) (by linarith) (by linarith)]
    ring_nf

theorem toRgb_eq (hue s v : ℝ) : toRgb ⟨hue, s, v⟩ =
    (hats ((hue - ⌊hue⌋) * 6)).map fun x => ((x - 1) * s + 1) * v := by
  rw [toRgb_def]
  simp only [RealScalar.numeral_eq, RealScalar.numeral_one]
  rfl

/-- The colour at a hue is the pure one, spread by the saturation. -/
theorem PureAt.toRgb_eq {hue s v : ℝ} (hc : PureAt ((hue - ⌊hue⌋) * 6) c) :
    toRgb ⟨hue, s, v⟩ = spread v (s * v) c := by
  have hchannel : ∀ x : ℝ, ((x - 1) * s + 1) * v = v - (1 - x) * (s * v) := by
    intro x
    ring
  rw [Hsv.toRgb_eq, hc.hats_eq]
  unfold spread
  simp only [hchannel]

/-! ## From a colour to its hue -/

section Formulas

open scoped ColorPipeline.Scalar

variable {S : Type} [Scalar S]

/-- The hue in sixths of a turn, negative between magenta and red. -/
def sixths (p : Rgb S) (high delta : S) : S :=
  if high == p.red then (p.green - p.blue) / delta
  else if high == p.green then 2 + (p.blue - p.red) / delta
  else 4 + (p.red - p.green) / delta

/-- A hue in turns, from one in sixths of a turn that may be negative. -/
def turns (x : S) : S := if x / 6 < 0 then x / 6 + 1 else x / 6

end Formulas

theorem sixths_eq (p : Rgb ℝ) (high delta : ℝ) : sixths p high delta =
    if high = p.red then (p.green - p.blue) / delta
    else if high = p.green then 2 + (p.blue - p.red) / delta
    else 4 + (p.red - p.green) / delta := by
  unfold sixths
  simp only [RealScalar.beq_iff, RealScalar.numeral_eq]

theorem turns_eq (x : ℝ) : turns x = if x / 6 < 0 then x / 6 + 1 else x / 6 := by
  unfold turns
  simp only [RealScalar.numeral_zero, RealScalar.numeral_one, RealScalar.numeral_eq]

/-- A colour becomes its hue, the share of its width and its greatest channel. -/
theorem ofRgb_eq (p : Rgb ℝ) : ofRgb p =
    ⟨if greatest p - least p = 0 then 0
      else turns (sixths p (greatest p) (greatest p - least p)),
      if greatest p = 0 then 0 else (greatest p - least p) / greatest p, greatest p⟩ := by
  unfold ofRgb turns sixths
  simp only [RealScalar.beq_iff, RealScalar.numeral_zero]
  split
  · rfl
  · rfl

theorem turns_of_nonneg {x : ℝ} (hx : 0 ≤ x) : turns x = x / 6 := by
  rw [turns_eq, if_neg (not_lt.mpr (by positivity))]

theorem turns_of_neg {x : ℝ} (hx : x < 0) : turns x = (6 + x) / 6 := by
  rw [turns_eq, if_pos (by linarith)]
  ring

/-- The hue of a spread colour is that of its pure colour, also where two channels tie. -/
theorem PureAt.turns_sixths (hc : PureAt h c) (hdelta : 0 < delta) :
    turns (sixths (spread high delta c) high delta) = h / 6 := by
  have htop : ∀ x : ℝ, high = high - (1 - x) * delta ↔ x = 1 := by
    intro x
    rw [eq_comm, sub_eq_self, mul_eq_zero_iff_right hdelta.ne', sub_eq_zero, eq_comm]
  have hstep : ∀ x y : ℝ, (high - (1 - x) * delta - (high - (1 - y) * delta)) / delta = x - y := by
    intro x y
    field_simp
    ring
  rw [sixths_eq]
  unfold spread Rgb.map
  simp only [htop, hstep]
  cases hc with
  | @redToYellow h h0 h1 => rw [if_pos rfl, sub_zero, turns_of_nonneg h0]
  | @yellowToGreen t h0 h1 =>
    rw [if_neg h1.ne, if_pos rfl, zero_sub, ← sub_eq_add_neg, turns_of_nonneg (by linarith)]
  | @greenToCyan t h0 h1 =>
    rw [if_neg zero_ne_one, if_pos rfl, sub_zero, turns_of_nonneg (by linarith)]
  | @cyanToBlue t h0 h1 =>
    rw [if_neg zero_ne_one, if_neg h1.ne, zero_sub, ← sub_eq_add_neg,
      turns_of_nonneg (by linarith)]
  | @blueToMagenta t h0 h1 =>
    rw [if_neg h1.ne, if_neg zero_ne_one, sub_zero, turns_of_nonneg (by linarith)]
  | @magentaToRed t h0 h1 =>
    rw [if_pos rfl, zero_sub, turns_of_neg (by linarith), ← sub_eq_add_neg]

/-- A spread pure colour has the hue of the pure one. -/
theorem PureAt.ofRgb_spread (hc : PureAt h c) (hdelta : 0 < delta) :
    ofRgb (spread high delta c) = ⟨h / 6, if high = 0 then 0 else delta / high, high⟩ := by
  rw [ofRgb_eq, hc.greatest_spread hdelta, hc.least_spread hdelta, sub_sub_cancel,
    if_neg hdelta.ne', hc.turns_sixths hdelta]

/-! ## There and back -/

/-- Grays have no hue, and come back. -/
theorem toRgb_ofRgb_gray (v : ℝ) : toRgb (ofRgb (Rgb.gray v)) = Rgb.gray v := by
  have hgray : ofRgb (Rgb.gray v) = ⟨0, 0, v⟩ := by
    rw [ofRgb_eq, RedModifier.greatest_gray, RedModifier.least_gray, sub_self, if_pos rfl,
      zero_div, ite_self]
  rw [hgray, toRgb_eq]
  simp only [Rgb.map, Rgb.gray, mul_zero, zero_add, one_mul]

theorem toRgb_black (hue s : ℝ) : toRgb ⟨hue, s, 0⟩ = Rgb.gray 0 := by
  rw [toRgb_eq]
  simp only [Rgb.map, Rgb.gray, mul_zero]

/-- Colours with a hue come back, also those with a saturation above one. -/
theorem PureAt.toRgb_ofRgb_spread (hc : PureAt h c) (hdelta : 0 < delta) (hhigh : high ≠ 0) :
    toRgb (ofRgb (spread high delta c)) = spread high delta c := by
  have hmem := hc.hue_mem
  have hfloor : ⌊h / 6⌋ = 0 := by
    rw [Int.floor_eq_zero_iff]
    exact ⟨by linarith, by linarith⟩
  have hturn : (h / 6 - ⌊h / 6⌋) * 6 = h := by
    rw [hfloor, Int.cast_zero, sub_zero, div_mul_cancel₀ _ (by norm_num)]
  rw [hc.ofRgb_spread hdelta, if_neg hhigh, PureAt.toRgb_eq (hturn.symm ▸ hc),
    div_mul_cancel₀ _ hhigh]

/-- Only a colour whose greatest channel is zero can be lost, and black is not. -/
theorem toRgb_ofRgb_iff (p : Rgb ℝ) :
    toRgb (ofRgb p) = p ↔ greatest p ≠ 0 ∨ p = Rgb.gray 0 := by
  rcases lt_or_ge (least p) (greatest p) with hp | hp
  · obtain ⟨h, c, hc, heq⟩ := exists_spread hp
    have hdelta : 0 < greatest p - least p := sub_pos.mpr hp
    have hcolor : p ≠ Rgb.gray 0 := by
      rintro rfl
      rw [RedModifier.greatest_gray, RedModifier.least_gray] at hp
      exact lt_irrefl _ hp
    simp only [hcolor, or_false]
    constructor
    · intro hback hzero
      rw [ofRgb_eq, hzero, toRgb_black] at hback
      exact hcolor hback.symm
    · intro hhigh
      rw [heq]
      exact hc.toRgb_ofRgb_spread hdelta hhigh
  · rw [RedModifier.eq_gray p hp]
    refine iff_of_true (toRgb_ofRgb_gray _) ?_
    rw [RedModifier.greatest_gray]
    rcases eq_or_ne (greatest p) 0 with hzero | hzero
    · exact .inr (by rw [hzero])
    · exact .inl hzero

/-- Hues come back up to whole turns. -/
theorem ofRgb_toRgb (hue : ℝ) {s v : ℝ} (hs : 0 < s) (hv : 0 < v) :
    ofRgb (toRgb ⟨hue, s, v⟩) = ⟨hue - ⌊hue⌋, s, v⟩ := by
  have hlow : 0 ≤ hue - ⌊hue⌋ := sub_nonneg.mpr (Int.floor_le hue)
  have hhigh : hue - ⌊hue⌋ < 1 := sub_lt_iff_lt_add'.mpr (Int.lt_floor_add_one hue)
  obtain ⟨c, hc⟩ := exists_pure (h := (hue - ⌊hue⌋) * 6) (by linarith) (by linarith)
  rw [hc.toRgb_eq, hc.ofRgb_spread (mul_pos hs hv), if_neg hv.ne', mul_div_cancel_right₀ _ hv.ne',
    mul_div_cancel_right₀ _ (by norm_num)]

end Hsv

/-- A colour comes back from its hue, saturation and value if its highest channel is not zero or
it is black, and only then. Hue, saturation and value come back from their colour, the hue within
one turn, whenever saturation and value are positive. -/
theorem hues_and_colors_come_back :
    (∀ p : Rgb ℝ, Hsv.toRgb (Hsv.ofRgb p) = p ↔
      max (max p.red p.green) p.blue ≠ 0 ∨ p = Rgb.gray 0) ∧
    ∀ hue s v : ℝ, 0 < s → 0 < v →
      Hsv.ofRgb (Hsv.toRgb ⟨hue, s, v⟩) = ⟨hue - ⌊hue⌋, s, v⟩ := by
  refine ⟨?_, fun hue s v hs hv => Hsv.ofRgb_toRgb hue hs hv⟩
  intro p
  rw [← RedModifier.greatest_eq]
  exact Hsv.toRgb_ofRgb_iff p

/-- A colour below zero, and a hue below zero with more than full saturation. -/
theorem a_negative_color_and_a_negative_hue_come_back :
    max (max (-1 : ℝ) (-3)) (-2) ≠ 0 ∧
      Hsv.toRgb (Hsv.ofRgb (⟨-1, -3, -2⟩ : Rgb ℝ)) = ⟨-1, -3, -2⟩ ∧
      (0 : ℝ) < 3 / 2 ∧ (0 : ℝ) < 1 / 2 ∧
      Hsv.ofRgb (Hsv.toRgb (⟨-1 / 3, 3 / 2, 1 / 2⟩ : Rgb ℝ)) = ⟨2 / 3, 3 / 2, 1 / 2⟩ := by
  obtain ⟨hcolors, hhues⟩ := hues_and_colors_come_back
  have hhigh : max (max (-1 : ℝ) (-3)) (-2) ≠ 0 := by norm_num
  have hs : (0 : ℝ) < 3 / 2 := by norm_num
  have hv : (0 : ℝ) < 1 / 2 := by norm_num
  have hfloor : ⌊(-1 / 3 : ℝ)⌋ = -1 := by
    rw [Int.floor_eq_iff]
    norm_num
  refine ⟨hhigh, (hcolors _).mpr (.inl hhigh), hs, hv, ?_⟩
  rw [hhues (-1 / 3) (3 / 2) (1 / 2) hs hv, hfloor]
  norm_num

end ColorPipeline
