-- A 3D table and its inverse, over the real numbers. Limits take the place of the two whatever
-- the table does. They come close to the two where the entries nearly follow a linear map and the
-- colours around the value are values of the table too. Where they are not, the searches for their
-- inputs end at the faces of the cube, and the way back leads elsewhere.
import ColorPipeline.Proofs.GridSlopes

open scoped ColorPipeline.RealScalar

namespace ColorPipeline

namespace CornerWeights

variable {f : Rgb ℝ} (w : CornerWeights f)

theorem mean_sub (u v : Rgb Bool → ℝ) : w.mean (fun c => u c - v c) = w.mean u - w.mean v := by
  simp only [mean, mul_sub, Finset.sum_sub_distrib]

/-- A mean is no larger than the numbers that count. -/
theorem abs_mean_le {u : Rgb Bool → ℝ} {most : ℝ} (h : ∀ c, w.weight c ≠ 0 → |u c| ≤ most) :
    |w.mean u| ≤ most := by
  calc |w.mean u| ≤ ∑ c, |w.weight c * u c| := Finset.abs_sum_le_sum_abs _ _
    _ ≤ ∑ c, w.weight c * most := by
      refine Finset.sum_le_sum fun c _ => ?_
      rw [abs_mul, abs_of_nonneg (w.nonneg c)]
      by_cases hc : w.weight c = 0
      · rw [hc, zero_mul, zero_mul]
      · exact mul_le_mul_of_nonneg_left (h c hc) (w.nonneg c)
    _ = most := w.mean_const most

/-- Two means differ by no more than the numbers do. -/
theorem abs_mean_sub_mean_le (w' : CornerWeights f) {u : Rgb Bool → ℝ} {most : ℝ}
    (h : ∀ c c', |u c - u c'| ≤ most) : |w.mean u - w'.mean u| ≤ most := by
  rw [← w.mean_const (w'.mean u), ← mean_sub]
  refine w.abs_mean_le fun c _ => ?_
  rw [← w'.mean_const (u c), ← mean_sub]
  exact w'.abs_mean_le fun c' _ => h c c'

/-- The corners that count are less than a step away along each axis. -/
theorem abs_corner_sub_lt (hlow : ∀ ch, 0 ≤ f.get ch) (hhigh : ∀ ch, f.get ch ≤ 1) {c : Rgb Bool}
    (hc : w.weight c ≠ 0) (ch : Channel) : |((c.get ch).toNat : ℝ) - f.get ch| < 1 := by
  have hside : ∀ side : Bool, f.get ch = side.toNat → c.get ch = side := by
    intro side hside
    by_contra hne
    have hown : f.get ch = (((Rgb.gray side).get ch).toNat : ℝ) := by rw [Rgb.get_gray, hside]
    exact hc (w.weight_eq_zero hown (by rwa [Rgb.get_gray]))
  have hlow := hlow ch
  have hhigh := hhigh ch
  rw [abs_lt]
  cases hon : c.get ch with
  | false =>
    have hne : f.get ch ≠ 1 := fun h => by
      have := hside true (by rw [h, Bool.toNat_true, Nat.cast_one])
      rw [hon] at this
      cases this
    have hlt := lt_of_le_of_ne hhigh hne
    rw [Bool.toNat_false, Nat.cast_zero]
    constructor <;> linarith
  | true =>
    have hne : f.get ch ≠ 0 := fun h => by
      have := hside false (by rw [h, Bool.toNat_false, Nat.cast_zero])
      rw [hon] at this
      cases this
    have hlt := lt_of_le_of_ne hlow (Ne.symm hne)
    rw [Bool.toNat_true, Nat.cast_one]
    constructor <;> linarith

end CornerWeights

namespace Grid

variable {g : Grid ℝ} {b : Matrix Channel Channel ℝ} {part reach : ℝ} {p q guess : Rgb ℝ}

/-! ## Searches that come close -/

theorem abs_mul_le {x y m n : ℝ} (hx : |x| ≤ m) (hy : |y| ≤ n) : |x * y| ≤ m * n := by
  rw [abs_mul]
  exact mul_le_mul hx hy (abs_nonneg y) ((abs_nonneg x).trans hx)

/-- A matrix near the identity shrinks no volume by more than a half. -/
theorem half_le_det {e : Matrix Channel Channel ℝ} (h : ∀ i j, |e i j| ≤ 1 / 15) :
    1 / 2 ≤ |(1 + e).det| := by
  have hdiagonal : ∀ i, |1 + e i i| ≤ 16 / 15 := by
    intro i
    have hbound := abs_le.mp (h i i)
    rw [abs_le]
    constructor <;> linarith
  -- two of the three minors are small, and are multiplied by small numbers
  have hfirst : 13 / 15 ≤ (1 + e .green .green) * (1 + e .blue .blue) -
      e .green .blue * e .blue .green := by
    have hgreen := (abs_le.mp (h .green .green)).1
    have hblue := (abs_le.mp (h .blue .blue)).1
    have hrest := (abs_le.mp (abs_mul_le (h .green .blue) (h .blue .green))).2
    have hproduct : (14 / 15 : ℝ) * (14 / 15) ≤ (1 + e .green .green) * (1 + e .blue .blue) :=
      mul_le_mul (by linarith) (by linarith) (by norm_num) (by linarith)
    linarith
  have hsecond : |e .green .red * (1 + e .blue .blue) - e .green .blue * e .blue .red| ≤ 17 / 225 :=
    (abs_sub _ _).trans <| (add_le_add (abs_mul_le (h .green .red) (hdiagonal .blue))
      (abs_mul_le (h .green .blue) (h .blue .red))).trans_eq (by norm_num)
  have hthird :
      |e .green .red * e .blue .green - (1 + e .green .green) * e .blue .red| ≤ 17 / 225 :=
    (abs_sub _ _).trans <| (add_le_add (abs_mul_le (h .green .red) (h .blue .green))
      (abs_mul_le (hdiagonal .green) (h .blue .red))).trans_eq (by norm_num)
  have hred := (abs_le.mp (h .red .red)).1
  have hmain : (14 / 15 : ℝ) * (13 / 15) ≤ (1 + e .red .red) *
      ((1 + e .green .green) * (1 + e .blue .blue) - e .green .blue * e .blue .green) :=
    mul_le_mul (by linarith) hfirst (by norm_num) (by linarith)
  have hgreen := (abs_le.mp (abs_mul_le (h .red .green) hsecond)).2
  have hblue := (abs_le.mp (abs_mul_le (h .red .blue) hthird)).1
  refine le_trans ?_ (le_abs_self _)
  rw [det_eq]
  simp only [Matrix.add_apply, Matrix.one_apply, reduceCtorEq, if_true, if_false, zero_add]
  linarith

theorem det_slopes_of_follows (h : g.Follows b part) (hpart : part ≤ 1 / 15)
    (hguess : guess.InCube) :
    |b.det| / 2 ≤ |(g.slopes guess (g.tetrahedral guess)).det| := by
  obtain ⟨e, he, hslopes⟩ := slopes_of_follows h hguess
  have hhalf := half_le_det fun i j => (he i j).trans hpart
  rw [hslopes, Matrix.det_mul, abs_mul, div_eq_mul_one_div]
  exact mul_le_mul_of_nonneg_left hhalf (abs_nonneg _)

/-- A search whose first step leads nowhere ends where it starts. -/
theorem newton_of_newtonStep_eq (h : g.newtonStep guess (g.tetrahedral guess) p = guess) (n : ℕ) :
    g.newton p n guess = guess := by
  induction n with
  | zero => rfl
  | succ n ih =>
    unfold newton
    dsimp only
    rw [h, ih, ite_self]

/-- Limits bring no value further away from one that is within them. -/
theorem abs_limited_sub_le {v x : ℝ} (hv : v ∈ Set.Icc (0 : ℝ) 1) :
    |min (max (v + x) 0) 1 - v| ≤ |x| := by
  have hlimited : min (max v 0) 1 = v := by rw [max_eq_left hv.1, min_eq_left hv.2]
  have hmax := abs_max_sub_max_le_abs (v + x) v 0
  have hmin := abs_min_sub_min_le_max (max (v + x) 0) 1 (max v 0) 1
  rw [hlimited, sub_self, abs_zero,
    max_eq_left (abs_nonneg (max (v + x) 0 - max v 0))] at hmin
  rw [add_sub_cancel_left] at hmax
  exact hmin.trans hmax

section Follows

variable (h : g.Follows b part) (hpart : part ∈ Set.Icc (0 : ℝ) (1 / 15))
include h hpart

/-- A step leaves at most three fifths of the way. -/
theorem norm_newtonStep_sub_le (hdet : 2 / 10 ^ 10 ≤ |b.det|) (hguess : guess.InCube)
    (hq : q.InCube) :
    ‖(g.newtonStep guess (g.tetrahedral guess) (g.tetrahedral q)).get - q.get‖ ≤
      3 / 5 * ‖guess.get - q.get‖ := by
  obtain ⟨hlow, hhigh⟩ := hpart
  have hb : b.det ≠ 0 := ne_zero_of_le_abs (by linarith)
  have hslopes := det_slopes_of_follows h hhigh hguess
  obtain ⟨astray, hastray, hstep⟩ :=
    newtonStep_of_follows h hlow hb hguess hq (by linarith)
  have hnorm := norm_nonneg (guess.get - q.get)
  have hhalf : ‖astray‖ ≤ 1 / 2 * ‖guess.get - q.get‖ := by
    have hleft := mul_le_mul_of_nonneg_right (by linarith : 4 / 5 ≤ 1 - 3 * part)
      (norm_nonneg astray)
    have hright := mul_le_mul_of_nonneg_right (by linarith : 6 * part ≤ 2 / 5) hnorm
    linarith
  rw [pi_norm_le_iff_of_nonneg (by positivity)]
  intro ch
  have hway := abs_le_norm (guess.get - q.get) ch
  have hoff := abs_le_norm astray ch
  rw [Pi.sub_apply] at hway
  calc ‖((g.newtonStep guess (g.tetrahedral guess) (g.tetrahedral q)).get - q.get) ch‖
      = |min (max (q.get ch + (1 / 5 * (guess.get ch - q.get ch) + 4 / 5 * astray ch)) 0) 1 -
          q.get ch| := by
        rw [Pi.sub_apply, hstep, add_assoc]
        rfl
    _ ≤ |1 / 5 * (guess.get ch - q.get ch) + 4 / 5 * astray ch| := abs_limited_sub_le (hq ch)
    _ ≤ 1 / 5 * |guess.get ch - q.get ch| + 4 / 5 * |astray ch| := by
        refine (abs_add_le _ _).trans_eq ?_
        rw [abs_mul, abs_mul, abs_of_pos (by norm_num : (0 : ℝ) < 1 / 5),
          abs_of_pos (by norm_num : (0 : ℝ) < 4 / 5)]
    _ ≤ 3 / 5 * ‖guess.get - q.get‖ := by linarith

/-- A search comes that much closer with each step, or has come close before the last one. -/
theorem newton_of_follows (hdet : 2 / 10 ^ 10 ≤ |b.det|) (hq : q.InCube) (n : ℕ)
    (hguess : guess.InCube) :
    let found := g.newton (g.tetrahedral q) n guess
    ‖found.get - q.get‖ ≤ (3 / 5) ^ n * ‖guess.get - q.get‖ ∨
      length3 (miss (g.tetrahedral found) (g.tetrahedral q)) < closeEnough := by
  induction n generalizing guess with
  | zero => exact .inl (by rw [pow_zero, one_mul]; rfl)
  | succ n ih =>
    unfold newton
    dsimp only
    split
    · rename_i hclose
      exact .inr hclose
    · refine (ih (inCube_newtonStep g _ _ _)).imp_left fun hfound => hfound.trans ?_
      have hstep := norm_newtonStep_sub_le h hpart hdet hguess hq
      rw [pow_succ, mul_assoc]
      exact mul_le_mul_of_nonneg_left hstep (by positivity)

/-- Colours whose values differ by little are near each other. -/
theorem norm_sub_le_of_follows (hb : b.det ≠ 0) (hreach : ∀ ch, ∑ c, |b⁻¹ ch c| ≤ reach)
    (hp : p.InCube) (hq : q.InCube) :
    ‖p.get - q.get‖ ≤ 5 / 4 * (reach * ‖(g.tetrahedral p).get - (g.tetrahedral q).get‖) := by
  obtain ⟨bend, hbend, hchange⟩ := h p q hp hq
  have hway : p.get - q.get + bend =
      b⁻¹.mulVec ((g.tetrahedral p).get - (g.tetrahedral q).get) := by
    rw [hchange, Matrix.mulVec_mulVec, Matrix.nonsing_inv_mul b hb.isUnit, Matrix.one_mulVec]
  have hlong : ‖p.get - q.get + bend‖ ≤ _ := hway ▸ norm_mulVec_le hreach _
  have hshort := norm_sub_le (p.get - q.get + bend) bend
  have hpart' := mul_le_mul_of_nonneg_right hpart.2 (norm_nonneg (p.get - q.get))
  have hsum := mul_le_mul_of_nonneg_left (sum_abs_le (p.get - q.get)) hpart.1
  simp only [Pi.sub_apply] at hsum
  rw [add_sub_cancel_right] at hshort
  linarith

end Follows

theorem abs_get_le_length3 (v : Rgb ℝ) (ch : Channel) : |v.get ch| ≤ length3 v := by
  rw [length3_eq]
  exact Real.abs_le_sqrt (Finset.single_le_sum (f := fun ch => v.get ch ^ 2)
    (fun ch _ => sq_nonneg (v.get ch)) (Finset.mem_univ ch))

/-- The entries nearly follow a linear map that is not nearly singular, and whose inverse makes no
way longer than `reach` times. -/
structure NearlyInvertible (g : Grid ℝ) (b : Matrix Channel Channel ℝ) (part reach : ℝ) : Prop where
  nearLinear : g.IsNearLinear b part
  part_mem : part ∈ Set.Icc (0 : ℝ) (1 / 15)
  le_det : 2 / 10 ^ 10 ≤ |b.det|
  rows_le : ∀ ch, ∑ c, |b⁻¹ ch c| ≤ reach

namespace NearlyInvertible

variable (h : g.NearlyInvertible b part reach)
include h

theorem det_ne_zero : b.det ≠ 0 := ne_zero_of_le_abs (by linarith [h.le_det])

theorem reach_nonneg : 0 ≤ reach :=
  (Finset.sum_nonneg fun _ _ => abs_nonneg _).trans (h.rows_le .red)

theorem follows (hsize : 2 ≤ g.size) : g.Follows b part :=
  follows_of_isNearLinear hsize h.det_ne_zero h.nearLinear

/-- What a search for a value of the grid finds, from any guess in the cube. -/
theorem norm_newton_sub_le (hsize : 2 ≤ g.size) (hguess : guess.InCube) (hq : q.InCube) :
    ‖(g.newton (g.tetrahedral q) newtonSteps guess).get - q.get‖ ≤
      5 / 4 * (reach * (1 / 10 ^ 6)) + (3 / 5) ^ 30 := by
  have hreach := h.reach_nonneg
  have hpower : (0 : ℝ) < (3 / 5) ^ 30 := by positivity
  have hfound := inCube_newton (g := g) (g.tetrahedral q) newtonSteps hguess
  rcases newton_of_follows (h.follows hsize) h.part_mem h.le_det hq newtonSteps hguess with
    hnear | hclose
  · have hone : ‖guess.get - q.get‖ ≤ 1 := by
      rw [pi_norm_le_iff_of_nonneg zero_le_one]
      intro ch
      have hguess := hguess ch
      have hq := hq ch
      exact abs_sub_le_iff.mpr ⟨by linarith [hguess.2, hq.1], by linarith [hq.2, hguess.1]⟩
    have hway := mul_le_of_le_one_right (le_of_lt hpower) hone
    have hzero : 0 ≤ 5 / 4 * (reach * (1 / 10 ^ 6)) := by positivity
    exact (hnear.trans hway).trans (le_add_of_nonneg_left hzero)
  · have hmiss : ‖(g.tetrahedral (g.newton (g.tetrahedral q) newtonSteps guess)).get -
        (g.tetrahedral q).get‖ ≤ 1 / 10 ^ 6 := by
      rw [pi_norm_le_iff_of_nonneg (by positivity)]
      intro ch
      have hchannel := (abs_get_le_length3 _ ch).trans (le_of_lt hclose)
      rw [miss, Rgb.get_ofFn, closeEnough_eq] at hchannel
      exact hchannel
    have hvalue := mul_le_mul_of_nonneg_left hmiss hreach
    have hway :=
      norm_sub_le_of_follows (h.follows hsize) h.part_mem h.det_ne_zero h.rows_le hfound hq
    linarith

end NearlyInvertible

/-! ## Values between colours that are values too -/

/-- Around a colour, the points of the grid that are less than a step away along each axis are
values of colours in the cube. -/
def Surrounds (g : Grid ℝ) (y : Rgb ℝ) : Prop :=
  y.InCube ∧ ∀ i, g.HasPoint i →
    (∀ ch, |(colorOf g.size i).get ch - y.get ch| < 1 / ((g.size : ℝ) - 1)) →
      ∃ q : Rgb ℝ, q.InCube ∧ g.tetrahedral q = colorOf g.size i

/-- Between the bend of a walk at one colour and a mean of bends around another. -/
theorem norm_bends_sub_le (hsize : 2 ≤ g.size) (hlinear : g.IsNearLinear b part) (hpart : 0 ≤ part)
    (hp : p.InCube) (hq : q.InCube) (w : CornerWeights (g.place p).fraction) :
    ‖fun ch => g.walked (g.bend b ch) q -
        w.mean fun c => g.bend b ch (stepOn (g.place p).base c)‖ ≤
      3 * part * ‖q.get - p.get‖ + 3 * part / ((g.size : ℝ) - 1) := by
  have hpos := size_sub_one_pos hsize
  rw [pi_norm_le_iff_of_nonneg (by positivity)]
  intro ch
  have hway : |g.walked (g.bend b ch) q - g.walked (g.bend b ch) p| ≤
      3 * part * ‖q.get - p.get‖ := by
    have hsum := mul_le_mul_of_nonneg_left (sum_abs_le (q.get - p.get)) hpart
    exact (abs_walked_bend_sub_le hsize hlinear hq hp ch).trans (hsum.trans_eq (by ring))
  have hcell : |g.walked (g.bend b ch) p -
      w.mean fun c => g.bend b ch (stepOn (g.place p).base c)| ≤ 3 * part / ((g.size : ℝ) - 1) := by
    refine CornerWeights.abs_mean_sub_mean_le (CornerWeights.walked (axisOrder_descends _)
      (fraction_nonneg g p) (fraction_le_one hsize p)) w fun c c' => ?_
    have hcorners := (varies_bend hsize hlinear ch).abs_sub_le (hasPoint_stepOn hsize p c)
      (hasPoint_stepOn hsize p c')
    have hone : ∀ ch, |((stepOn (g.place p).base c).get ch : ℝ) -
        (stepOn (g.place p).base c').get ch| ≤ 1 := by
      intro ch
      rw [get_stepOn, get_stepOn, Nat.cast_add, Nat.cast_add, add_sub_add_left_eq_sub]
      cases c.get ch <;> cases c'.get ch <;> norm_num
    have hthree : ∑ ch, |((stepOn (g.place p).base c).get ch : ℝ) -
        (stepOn (g.place p).base c').get ch| ≤ 3 := by
      rw [sum_channels]
      linarith [hone .red, hone .green, hone .blue]
    have hmost := mul_le_mul_of_nonneg_left hthree (div_nonneg hpart (le_of_lt hpos))
    exact hcorners.trans (hmost.trans_eq (by ring))
  exact (abs_sub_le _ _ _).trans (add_le_add hway hcell)

/-- From a colour to the input of a point that is near its value, as the linear map says and astray
by little. -/
theorem NearlyInvertible.exists_way (h : g.NearlyInvertible b part reach) (hsize : 2 ≤ g.size)
    (hp : p.InCube) (hq : q.InCube) (w : CornerWeights (g.place p).fraction)
    (hnear : ‖(g.tetrahedral q).get - (w.color (g.cornerAt (g.place p).base)).get‖ ≤
      1 / ((g.size : ℝ) - 1)) :
    ∃ astray : Channel → ℝ,
      b⁻¹.mulVec ((g.tetrahedral q).get - (w.color (g.cornerAt (g.place p).base)).get) =
        q.get - p.get + astray ∧
      ‖astray‖ ≤ 5 / 4 * ((1 + reach) * (3 * part / ((g.size : ℝ) - 1))) := by
  have hpos := size_sub_one_pos hsize
  have hbends := norm_bends_sub_le hsize h.nearLinear h.part_mem.1 hp hq w
  have hway : b⁻¹.mulVec ((g.tetrahedral q).get - (w.color (g.cornerAt (g.place p).base)).get) =
      q.get - p.get + fun ch => g.walked (g.bend b ch) q -
        w.mean fun c => g.bend b ch (stepOn (g.place p).base c) := by
    rw [get_tetrahedral_eq hsize h.det_ne_zero, get_color_eq hsize h.det_ne_zero,
      ← Matrix.mulVec_sub, Matrix.mulVec_mulVec, Matrix.nonsing_inv_mul b h.det_ne_zero.isUnit,
      Matrix.one_mulVec, hp.limited, hq.limited]
    funext ch
    simp only [Pi.add_apply, Pi.sub_apply]
    ring
  refine ⟨_, hway, ?_⟩
  generalize (fun ch => g.walked (g.bend b ch) q -
    w.mean fun c => g.bend b ch (stepOn (g.place p).base c)) = astray at hbends hway ⊢
  have hlong : ‖q.get - p.get + astray‖ ≤ reach * (1 / ((g.size : ℝ) - 1)) := by
    rw [← hway]
    exact (norm_mulVec_le h.rows_le _).trans (mul_le_mul_of_nonneg_left hnear h.reach_nonneg)
  have hshort := norm_sub_le (q.get - p.get + astray) astray
  rw [add_sub_cancel_right] at hshort
  have hpart := mul_le_mul_of_nonneg_right h.part_mem.2 (norm_nonneg astray)
  have hsum := mul_le_mul_of_nonneg_left (hshort.trans (add_le_add_left hlong _)) h.part_mem.1
  have hsplit : (1 + reach) * (3 * part / ((g.size : ℝ) - 1)) =
      3 * part / ((g.size : ℝ) - 1) + 3 * (part * (reach * (1 / ((g.size : ℝ) - 1)))) := by ring
  rw [hsplit]
  linarith

/-- What is found for a point near the value of a colour is as far from the colour as the linear
map says, but for the miss of the search and for what the entries are off the map. -/
theorem NearlyInvertible.abs_found_sub_le (h : g.NearlyInvertible b part reach)
    (hsize : 2 ≤ g.size) (hp : p.InCube) (hq : q.InCube) (hguess : guess.InCube)
    (w : CornerWeights (g.place p).fraction)
    (hnear : ‖(g.tetrahedral q).get - (w.color (g.cornerAt (g.place p).base)).get‖ ≤
      1 / ((g.size : ℝ) - 1)) (ch : Channel) :
    |(g.newton (g.tetrahedral q) newtonSteps guess).get ch - p.get ch -
        b⁻¹.mulVec ((g.tetrahedral q).get - (w.color (g.cornerAt (g.place p).base)).get) ch| ≤
      5 / 4 * (reach * (1 / 10 ^ 6)) + (3 / 5) ^ 30 +
        5 / 4 * ((1 + reach) * (3 * part / ((g.size : ℝ) - 1))) := by
  obtain ⟨astray, hway, hastray⟩ := h.exists_way hsize hp hq w hnear
  have hfound := h.norm_newton_sub_le hsize hguess hq
  have hmiss := (abs_le_norm _ ch).trans hfound
  have hoff := (abs_le_norm astray ch).trans hastray
  have hsplit : (g.newton (g.tetrahedral q) newtonSteps guess).get ch - p.get ch -
      (q.get - p.get + astray) ch =
        ((g.newton (g.tetrahedral q) newtonSteps guess).get - q.get) ch - astray ch := by
    simp only [Pi.add_apply, Pi.sub_apply]
    ring
  rw [hway, hsplit]
  exact (abs_sub _ _).trans (add_le_add hmiss hoff)

/-- The corners that count around a colour are less than a step away along each axis. -/
theorem abs_colorOf_sub_lt (hsize : 2 ≤ g.size) (hp : p.InCube)
    (w : CornerWeights (g.place p).fraction) {c : Rgb Bool} (hc : w.weight c ≠ 0) (ch : Channel) :
    |(colorOf g.size (stepOn (g.place p).base c)).get ch - p.get ch| < 1 / ((g.size : ℝ) - 1) := by
  have hpos := size_sub_one_pos hsize
  have hlast : ((g.size - 1 : ℕ) : ℝ) = (g.size : ℝ) - 1 := by
    rw [Nat.cast_sub (by omega), Nat.cast_one]
  have hplace := inputAt_place (g := g) hsize p ch
  rw [max_eq_left (hp ch).1, min_eq_left (hp ch).2] at hplace
  have hcorner := w.abs_corner_sub_lt (fraction_nonneg g p) (fraction_le_one hsize p) hc ch
  rw [← hplace, colorOf, Rgb.get_map, Lut3D.coordinate_eq, inputAt, inputAt, hlast, ← sub_div,
    get_stepOn, Nat.cast_add, add_sub_add_left_eq_sub, abs_div, abs_of_pos hpos]
  exact div_lt_div_of_pos_right hcorner hpos

/-- The points around a colour balance there, and what a linear map makes of the ways to them does
so too. -/
theorem mean_mulVec_colorOf_sub (hsize : 2 ≤ g.size) (hp : p.InCube)
    (w : CornerWeights (g.place p).fraction) (m : Matrix Channel Channel ℝ) (ch : Channel) :
    w.mean (fun c =>
      m.mulVec ((colorOf g.size (stepOn (g.place p).base c)).get - p.get) ch) = 0 := by
  simp only [Matrix.mulVec, dotProduct, sum_channels, Pi.sub_apply, w.mean_add, w.mean_mul,
    w.mean_sub, w.mean_const, mean_colorOf hsize, hp.limited, sub_self, mul_zero, add_zero]

end Grid

/-! ## Tables -/

namespace Lut3D

variable {lut : Lut3D ℝ} {b : Matrix Channel Channel ℝ} {part reach : ℝ} {p : Rgb ℝ}

/-- A table that does not take the nearest entry gives a mean of corners. -/
theorem exists_color_of_not_nearest (hsize : 2 ≤ lut.size)
    (hmethod : lut.interpolation ≠ .nearest) (p : Rgb ℝ) :
    ∃ w : CornerWeights (lut.grid.place p).fraction,
      lut.apply p = w.color (lut.grid.cornerAt (lut.grid.place p).base) := by
  rw [apply_eq]
  cases hinterpolation : lut.interpolation with
  | nearest => exact absurd hinterpolation hmethod
  | linear => exact ⟨_, Grid.trilinear_eq_color hsize p⟩
  | tetrahedral => exact ⟨_, Grid.tetrahedral_eq_color hsize p⟩
  | best => exact ⟨_, Grid.tetrahedral_eq_color hsize p⟩

theorem apply_of_affine (hsize : 2 ≤ lut.size) (hmethod : lut.interpolation ≠ .nearest)
    {a : Rgb ℝ → Rgb ℝ} (ha : IsAffine a)
    (hentry : ∀ i, lut.grid.HasPoint i → lut.grid.entryAt i = a (Grid.colorOf lut.size i))
    (hp : p.InCube) : lut.apply p = a p := by
  obtain ⟨w, hw⟩ := exists_color_of_not_nearest hsize hmethod p
  rw [hw, Grid.color_of_sampled hsize ha hentry, hp.limited]

theorem apply_limited (lut : Lut3D ℝ) (p : Rgb ℝ) :
    lut.apply (p.map fun v => min (max v 0) 1) = lut.apply p := by
  have hposition : lut.grid.position (p.map fun v => min (max v 0) 1) = lut.grid.position p := by
    refine Rgb.eq_of_get_eq fun ch => ?_
    have hinside := Curve.limited_mem (p.get ch)
    rw [Grid.get_position, Grid.get_position, Rgb.get_map, Grid.steps, max_eq_left hinside.1,
      min_eq_left hinside.2]
    rfl
  have hplace : lut.grid.place (p.map fun v => min (max v 0) 1) = lut.grid.place p := by
    unfold Grid.place
    rw [hposition]
  unfold apply Grid.nearest Grid.nearestIndex Grid.tetrahedral Grid.trilinear
  rw [hposition, hplace]

/-- The inverse leads back to where a value comes from, but for the misses of the searches and for
what the entries are off the linear map. -/
theorem abs_invert_apply_sub_le (hsize : 2 ≤ lut.size) (hmethod : lut.interpolation ≠ .nearest)
    (h : lut.grid.NearlyInvertible b part reach) (hp : p.InCube)
    (hy : lut.grid.Surrounds (lut.apply p)) (ch : Channel) :
    |(lut.invert.apply (lut.apply p)).get ch - p.get ch| ≤ 5 / 4 * (reach * (1 / 10 ^ 6)) +
      (3 / 5) ^ 30 + 5 / 4 * ((1 + reach) * (3 * part / ((lut.size : ℝ) - 1))) := by
  obtain ⟨w, hw⟩ := exists_color_of_not_nearest hsize hmethod p
  obtain ⟨w', hw'⟩ := @exists_color_of_not_nearest lut.invert hsize hmethod (lut.apply p)
  obtain ⟨hinside, hvalues⟩ := hy
  generalize lut.apply p = y at hw w' hw' hinside hvalues ⊢
  let point (c : Rgb Bool) : Rgb ℕ := Grid.stepOn (lut.grid.place y).base c
  have hmean : (lut.invert.apply y).get ch - p.get ch = w'.mean fun c =>
      (lut.inverseAt (Grid.colorOf lut.size (point c))).get ch - p.get ch -
        b⁻¹.mulVec ((Grid.colorOf lut.size (point c)).get - y.get) ch := by
    have hbalance : w'.mean (fun c =>
        b⁻¹.mulVec ((Grid.colorOf lut.size (point c)).get - y.get) ch) = 0 :=
      Grid.mean_mulVec_colorOf_sub (g := lut.grid) hsize hinside w' b⁻¹ ch
    rw [w'.mean_sub, hbalance, sub_zero, w'.mean_sub, w'.mean_const, hw', CornerWeights.color,
      Rgb.get_ofFn]
    refine congrArg (fun u => w'.mean u - p.get ch) (funext fun c => ?_)
    exact congrArg (fun entry => entry.get ch) (get_invert (Grid.hasPoint_stepOn hsize y c))
  rw [hmean]
  refine w'.abs_mean_le fun c hc => ?_
  have hnear := Grid.abs_colorOf_sub_lt (g := lut.grid) hsize hinside w' hc
  have hpoint := Grid.hasPoint_stepOn (g := lut.grid) hsize y c
  obtain ⟨q, hq, htarget⟩ := hvalues _ hpoint hnear
  have hguess : (Grid.colorOf lut.size (point c)).InCube := inCube_colorOf hpoint
  have htarget : Grid.colorOf lut.size (point c) = lut.grid.tetrahedral q := htarget.symm
  unfold inverseAt
  rw [htarget] at hguess ⊢
  rw [hw]
  refine h.abs_found_sub_le hsize hp hq hguess w ?_ ch
  have : Nonempty Channel := ⟨.red⟩
  rw [← htarget, ← hw, pi_norm_le_iff_of_nonempty]
  exact fun ch => le_of_lt (hnear ch)

end Lut3D

/-! ## Tables that scale -/

theorem Lut3DOp.validate_ofAffine {size : ℕ} (hsize : 2 ≤ size)
    (hlimit : size * size * size < sizeLimit) (b : Matrix Channel Channel ℝ) (offset : Rgb ℝ)
    (d : Direction) :
    ((⟨Lut3D.ofAffine size b offset, d⟩ : Lut3DOp ℝ).validate : Except (OpError ℝ) Unit) =
      .ok () := by
  have hcount : (Lut3D.ofAffine size b offset).entries.size =
      (Lut3D.ofAffine size b offset).entryCount := by
    refine (Lut3D.size_map_gridColors size _).trans ?_
    rw [Lut3D.entryCount, Lut3D.ofAffine, sizeCube_of_lt hlimit, pow_three, mul_assoc]
  have hsize : ¬ (Lut3D.ofAffine size b offset).size < 2 := Nat.not_lt.mpr hsize
  unfold validate
  simp [hsize, hcount, Scalar.isFinite]

/-- Each channel is scaled on its own. -/
noncomputable def scaling (scale : Rgb ℝ) : Matrix Channel Channel ℝ := Matrix.diagonal scale.get

section Scaling

variable {size : ℕ} {scale : Rgb ℝ}

theorem get_affineMap_scaling (scale offset p : Rgb ℝ) (ch : Channel) :
    (Grid.affineMap (scaling scale) offset p).get ch =
      scale.get ch * p.get ch + offset.get ch := by
  rw [Grid.affineMap, Rgb.get_ofFn, scaling, Matrix.mulVec_diagonal]

theorem affineMap_scaling_gray (s v : ℝ) :
    Grid.affineMap (scaling (Rgb.gray s)) (Rgb.gray 0) (Rgb.gray v) = Rgb.gray (s * v) := by
  refine Rgb.eq_of_get_eq fun ch => ?_
  rw [get_affineMap_scaling, Rgb.get_gray, Rgb.get_gray, Rgb.get_gray, Rgb.get_gray, add_zero]

theorem det_scaling (scale : Rgb ℝ) :
    (scaling scale).det = scale.red * (scale.green * scale.blue) := by
  rw [Grid.det_eq]
  simp [scaling, Rgb.get]

theorem inv_scaling (h : ∀ ch, scale.get ch ≠ 0) :
    (scaling scale)⁻¹ = scaling (scale.map fun v => v⁻¹) := by
  refine Matrix.inv_eq_right_inv ?_
  rw [scaling, scaling, Matrix.diagonal_mul_diagonal, ← Matrix.diagonal_one]
  refine congrArg Matrix.diagonal (funext fun ch => ?_)
  rw [Rgb.get_map, mul_inv_cancel₀ (h ch)]

theorem nearlyInvertible_scaling (hsize : 2 ≤ size) {reach : ℝ}
    (hscale : ∀ ch, scale.get ch ≠ 0) (hdet : 2 / 10 ^ 10 ≤ |(scaling scale).det|)
    (hreach : ∀ ch, |(scale.get ch)⁻¹| ≤ reach) (offset : Rgb ℝ) :
    (Lut3D.ofAffine size (scaling scale) offset).grid.NearlyInvertible (scaling scale) 0 reach where
  nearLinear := Grid.isNearLinear_of_affine hsize (Grid.ne_zero_of_le_abs (by linarith))
    fun _ hi => Lut3D.entryAt_ofAffine hi
  part_mem := ⟨le_rfl, by norm_num⟩
  le_det := hdet
  rows_le := by
    intro ch
    refine le_trans (le_of_eq ?_) (hreach ch)
    rw [inv_scaling hscale, Finset.sum_eq_single ch, scaling, Matrix.diagonal_apply_eq, Rgb.get_map]
    · intro c _ hc
      rw [scaling, Matrix.diagonal_apply_ne _ hc.symm, abs_zero]
    · exact fun h => absurd (Finset.mem_univ ch) h

/-- Around a colour whose neighbourhood is scaled back into the cube, points are values. -/
theorem surrounds_scaling (hsize : 2 ≤ size) (hscale : ∀ ch, scale.get ch ≠ 0) {offset y : Rgb ℝ}
    (hy : y.InCube)
    (hback : ∀ ch, ∀ t ∈ Set.Icc (0 : ℝ) 1, |t - y.get ch| < 1 / ((size : ℝ) - 1) →
      (scale.get ch)⁻¹ * (t - offset.get ch) ∈ Set.Icc (0 : ℝ) 1) :
    (Lut3D.ofAffine size (scaling scale) offset).grid.Surrounds y := by
  refine ⟨hy, fun i hi hnear => ?_⟩
  have hinside : (Grid.colorOf size i).InCube := Lut3D.inCube_colorOf hi
  let q : Rgb ℝ := Rgb.ofFn fun ch =>
    (scale.get ch)⁻¹ * ((Grid.colorOf size i).get ch - offset.get ch)
  have hq : q.InCube := by
    intro ch
    rw [Rgb.get_ofFn]
    exact hback ch _ (hinside ch) (hnear ch)
  refine ⟨q, hq, ?_⟩
  rw [Grid.tetrahedral_of_affine hsize (fun _ hi => Lut3D.entryAt_ofAffine hi) hq]
  refine Rgb.eq_of_get_eq fun ch => ?_
  rw [get_affineMap_scaling, Rgb.get_ofFn, mul_inv_cancel_left₀ (hscale ch), sub_add_cancel]
  rfl

theorem Grid.get_colorOf_of_two {i : Rgb ℕ} {ch : Channel} (hi : i.get ch < 2) :
    (colorOf 2 i).get ch = 0 ∨ (colorOf 2 i).get ch = 1 := by
  rw [colorOf, Rgb.get_map, Lut3D.coordinate_eq, inputAt, Nat.cast_one, div_one]
  obtain hzero | hone : i.get ch = 0 ∨ i.get ch = 1 := by omega
  · exact .inl (by rw [hzero, Nat.cast_zero])
  · exact .inr (by rw [hone, Nat.cast_one])

/-- In a table of two points to an axis that darkens, the search for the input of a corner of the
cube would go on outside of it, and stays there. -/
theorem entryAt_invert_of_darkened {s : ℝ} (hs : s ∈ Set.Ioc (0 : ℝ) 1)
    (hdet : 1 / 10 ^ 10 ≤ |(scaling (Rgb.gray s)).det|) {i : Rgb ℕ}
    (hi : (Lut3D.ofAffine 2 (scaling (Rgb.gray s)) (Rgb.gray 0)).grid.HasPoint i) :
    (Lut3D.ofAffine 2 (scaling (Rgb.gray s)) (Rgb.gray 0)).invert.grid.entryAt i =
      Grid.colorOf 2 i := by
  have hcorner := fun ch => Grid.get_colorOf_of_two (hi ch)
  have hinside : (Grid.colorOf 2 i).InCube := Lut3D.inCube_colorOf hi
  refine (Lut3D.get_invert hi).trans ?_
  change (Lut3D.ofAffine 2 (scaling (Rgb.gray s)) (Rgb.gray 0)).grid.newton (Grid.colorOf 2 i)
    Grid.newtonSteps (Grid.colorOf 2 i) = _
  generalize Grid.colorOf 2 i = target at hcorner hinside
  have hsize : 2 ≤ (Lut3D.ofAffine 2 (scaling (Rgb.gray s)) (Rgb.gray 0)).grid.size :=
    Nat.le_refl 2
  have hvalue := Grid.tetrahedral_of_affine hsize (fun _ hi => Lut3D.entryAt_ofAffine hi) hinside
  have hslopes := Grid.slopes_of_follows_exactly
    (Grid.follows_of_affine hsize fun _ hi => Lut3D.entryAt_ofAffine hi) hinside
  refine Grid.newton_of_newtonStep_eq ?_ _
  obtain ⟨d, hd, hstep⟩ := Grid.exists_direction (hslopes.symm ▸ hdet) target
  rw [hslopes] at hd
  refine Rgb.eq_of_get_eq fun ch => ?_
  have hway : s * d ch = target.get ch - s * target.get ch := by
    have hchannel := congrFun hd ch
    rw [Pi.sub_apply, hvalue, get_affineMap_scaling, scaling, Matrix.mulVec_diagonal, Rgb.get_gray,
      Rgb.get_gray, add_zero] at hchannel
    exact hchannel
  rw [hstep]
  rcases hcorner ch with hzero | hone
  · rw [hzero, mul_zero, sub_zero] at hway
    rw [hzero, (mul_eq_zero.mp hway).resolve_left (ne_of_gt hs.1), mul_zero, add_zero, max_self,
      min_eq_left zero_le_one]
  · have hout : 0 ≤ d ch := by
      rw [hone, mul_one] at hway
      exact nonneg_of_mul_nonneg_right (hway ▸ sub_nonneg.mpr hs.2) hs.1
    rw [hone, min_eq_right (le_max_of_le_left _)]
    linarith

end Scaling

/-! ## Pairs -/

namespace Pipeline

theorem cancelRule_forward_grid (lut : Lut3D ℝ) (i j : Option String) :
    cancelRule (⟨.lut3D ⟨lut, .forward⟩, i⟩ : Op ℝ ℝ) ⟨.lut3D ⟨lut, .inverse⟩, j⟩ =
      .ok (.merge { data := .range (RangeOp.clamp 0 1) }) := by
  have hclamp : (⟨lut, .forward⟩ : Lut3DOp ℝ).replacement = .clamp (RangeOp.clamp (0 : ℝ) 1) := by
    rw [← Nat.cast_zero, ← Nat.cast_one]
    rfl
  have hinverse : (⟨.lut3D ⟨lut, .forward⟩, i⟩ : Op ℝ ℝ).isInverse ⟨.lut3D ⟨lut, .inverse⟩, j⟩ := by
    change (true && lut.size == lut.size && sameTable lut.entries lut.entries) = true
    rw [sameTable_self, BEq.rfl]
    rfl
  exact (cancelRule_eq_merge_iff _ _ _).mpr ⟨hinverse, rfl, _, hclamp, rfl⟩

/-- Limits take the place of a table and its inverse. They come within a hundredth of what the two
do where the table takes no nearest entries, its entries nearly follow a linear map that is not
nearly singular and whose inverse is not too steep for the points, and the points around the value
of the pixel are values of colours too. -/
theorem limits_come_close_to_a_nearly_linear_table (lut : Lut3D ℝ) (i j : Option String)
    (hvalid : ((⟨lut, .forward⟩ : Lut3DOp ℝ).validate : Except (OpError ℝ) Unit) = .ok ())
    (hmethod : lut.interpolation ≠ .nearest) {b : Matrix Channel Channel ℝ} {part reach : ℝ}
    (h : lut.grid.NearlyInvertible b part reach)
    (hfine : (1 + reach) * (1 / 10 ^ 6 + 3 * part / ((lut.size : ℝ) - 1)) ≤ 8 / 10 ^ 3) :
    ∃ (made : Op ℝ ℝ) (first second limits : Renderer ℝ),
      cancelRule (⟨.lut3D ⟨lut, .forward⟩, i⟩ : Op ℝ ℝ) ⟨.lut3D ⟨lut, .inverse⟩, j⟩ =
        .ok (.merge made) ∧
      Renderer.ofData (.lut3D ⟨lut, .forward⟩ : OpData ℝ ℝ) = .ok first ∧
      Renderer.ofData (.lut3D ⟨lut, .inverse⟩ : OpData ℝ ℝ) = .ok second ∧
      Renderer.ofData made.data = .ok limits ∧
      ∀ px, let pair := second.apply (first.apply px)
        pair.alpha = (limits.apply px).alpha ∧
        (lut.grid.Surrounds (first.apply px).rgb →
          ∀ ch, |pair.rgb.get ch - (limits.apply px).rgb.get ch| ≤ 1 / 100) := by
  obtain ⟨limits, hlimits, happly⟩ := Renderer.ofData_clamp zero_lt_one
  obtain ⟨hsize, _, _⟩ := (Lut3DOp.validate_iff _).mp hvalid
  refine ⟨_, _, _, limits, cancelRule_forward_grid lut i j, Renderer.ofData_grid hvalid,
    Renderer.ofData_grid (l := ⟨lut, .inverse⟩) hvalid, hlimits, ?_⟩
  intro px pair
  refine ⟨by rw [happly]; rfl, ?_⟩
  intro hsurrounds ch
  have hbound := Lut3D.abs_invert_apply_sub_le hsize hmethod h
    (p := px.rgb.map fun v => min (max v 0) 1) (Rgb.inCube_limited _)
    (by rw [Lut3D.apply_limited]; exact hsurrounds) ch
  rw [Lut3D.apply_limited] at hbound
  rw [happly]
  refine hbound.trans ?_
  have hpower : ((3 : ℝ) / 5) ^ 30 ≤ 5 / 4 * (1 / 10 ^ 6) := by norm_num
  rw [mul_add] at hfine
  linarith

theorem a_color_comes_back_from_a_muted_table :
    let b := scaling ⟨1 / 2, 1, 3 / 4⟩
    let lut := Lut3D.ofAffine 17 b ⟨1 / 4, 0, 0⟩
    ((⟨lut, .forward⟩ : Lut3DOp ℝ).validate : Except (OpError ℝ) Unit) = .ok () ∧
      lut.grid.NearlyInvertible b 0 2 ∧ lut.grid.Surrounds ⟨7 / 20, 1 / 2, 3 / 5⟩ ∧
      ∃ first second : Renderer ℝ,
        Renderer.ofData (.lut3D ⟨lut, .forward⟩ : OpData ℝ ℝ) = .ok first ∧
        Renderer.ofData (.lut3D ⟨lut, .inverse⟩ : OpData ℝ ℝ) = .ok second ∧
        (first.apply ⟨1 / 5, 1 / 2, 4 / 5, 1⟩).rgb = ⟨7 / 20, 1 / 2, 3 / 5⟩ ∧
        ∀ ch, |(second.apply (first.apply ⟨1 / 5, 1 / 2, 4 / 5, 1⟩)).rgb.get ch -
          (⟨1 / 5, 1 / 2, 4 / 5⟩ : Rgb ℝ).get ch| ≤ 1 / 100 := by
  intro b lut
  have hsize : 2 ≤ 17 := by decide
  have hvalid := Lut3DOp.validate_ofAffine hsize (by decide) b ⟨1 / 4, 0, 0⟩
  have hmethod : lut.interpolation ≠ .nearest := nofun
  have hscale : ∀ ch, (⟨1 / 2, 1, 3 / 4⟩ : Rgb ℝ).get ch ≠ 0 := by
    intro ch
    cases ch <;> norm_num [Rgb.get]
  have h : lut.grid.NearlyInvertible b 0 2 := by
    refine nearlyInvertible_scaling hsize hscale (by rw [det_scaling]; norm_num) (fun ch => ?_) _
    cases ch <;> norm_num [Rgb.get]
  have hinside : (⟨1 / 5, 1 / 2, 4 / 5⟩ : Rgb ℝ).InCube := by
    intro ch
    cases ch <;> constructor <;> norm_num [Rgb.get]
  have hsurrounds : lut.grid.Surrounds ⟨7 / 20, 1 / 2, 3 / 5⟩ := by
    refine surrounds_scaling hsize hscale (fun ch => ?_) fun ch t ht hnear => ?_
    · cases ch <;> constructor <;> norm_num [Rgb.get]
    · have hnear := abs_lt.mp hnear
      cases ch <;> norm_num [Rgb.get] at hnear ht ⊢ <;> constructor <;> linarith
  obtain ⟨made, first, second, limits, hmade, hfirst, hsecond, hlimits, hclose⟩ :=
    limits_come_close_to_a_nearly_linear_table lut none none (hvalid .forward) hmethod h
      (by norm_num)
  obtain rfl := Except.ok.inj ((Renderer.ofData_grid (hvalid .forward)).symm.trans hfirst)
  have hvalue : lut.apply ⟨1 / 5, 1 / 2, 4 / 5⟩ = ⟨7 / 20, 1 / 2, 3 / 5⟩ := by
    rw [Lut3D.apply_of_affine hsize hmethod (Grid.isAffine_affineMap _ _)
      (fun _ hi => Lut3D.entryAt_ofAffine hi) hinside]
    refine Rgb.eq_of_get_eq fun ch => ?_
    rw [get_affineMap_scaling]
    cases ch <;> norm_num [Rgb.get]
  have hlimited : (limits.apply ⟨1 / 5, 1 / 2, 4 / 5, 1⟩).rgb = ⟨1 / 5, 1 / 2, 4 / 5⟩ := by
    rw [cancelRule_forward_grid] at hmade
    cases hmade
    obtain ⟨limits', hlimits', happly⟩ := Renderer.ofData_clamp zero_lt_one
    obtain rfl := Except.ok.inj (hlimits'.symm.trans hlimits)
    rw [happly]
    exact hinside.limited
  obtain ⟨_, hnear⟩ := hclose ⟨1 / 5, 1 / 2, 4 / 5, 1⟩
  refine ⟨hvalid .forward, h, hsurrounds, _, second, hfirst, hsecond, hvalue, fun ch => ?_⟩
  rw [← hlimited]
  refine hnear ?_ ch
  change lut.grid.Surrounds (lut.apply ⟨1 / 5, 1 / 2, 4 / 5⟩)
  rwa [hvalue]

/-- White comes back from a table that halves all channels and from its inverse as a gray, but the
limits leave it as it is. -/
theorem limits_do_not_come_close_to_a_dark_table :
    let lut := Lut3D.ofAffine 2 (scaling (Rgb.gray (1 / 2))) (Rgb.gray 0)
    ((⟨lut, .forward⟩ : Lut3DOp ℝ).validate : Except (OpError ℝ) Unit) = .ok () ∧
      ∃ (made : Op ℝ ℝ) (first second limits : Renderer ℝ),
        cancelRule (⟨.lut3D ⟨lut, .forward⟩, none⟩ : Op ℝ ℝ)
          ⟨.lut3D ⟨lut, .inverse⟩, none⟩ = .ok (.merge made) ∧
        Renderer.ofData (.lut3D ⟨lut, .forward⟩ : OpData ℝ ℝ) = .ok first ∧
        Renderer.ofData (.lut3D ⟨lut, .inverse⟩ : OpData ℝ ℝ) = .ok second ∧
        Renderer.ofData made.data = .ok limits ∧
        (second.apply (first.apply (.ofRgb (Rgb.gray 1) 1))).rgb = Rgb.gray (1 / 2) ∧
        (limits.apply (.ofRgb (Rgb.gray 1) 1)).rgb = Rgb.gray 1 ∧
        ¬ ∀ px ch, |(second.apply (first.apply px)).rgb.get ch - (limits.apply px).rgb.get ch| ≤
          1 / 100 := by
  intro lut
  have hsize : 2 ≤ lut.size := Nat.le_refl 2
  have hvalid := Lut3DOp.validate_ofAffine hsize (by decide) (scaling (Rgb.gray (1 / 2)))
    (Rgb.gray 0)
  have hwhole : (1 : ℝ) ∈ Set.Icc (0 : ℝ) 1 := ⟨zero_le_one, le_rfl⟩
  have hmethod : lut.interpolation ≠ .nearest := nofun
  obtain ⟨limits, hlimits, happly⟩ := Renderer.ofData_clamp zero_lt_one
  have hhalf : lut.apply (Rgb.gray 1) = Rgb.gray (1 / 2) := by
    rw [Lut3D.apply_of_affine hsize hmethod (Grid.isAffine_affineMap _ _)
      (fun _ hi => Lut3D.entryAt_ofAffine hi) (Rgb.inCube_gray hwhole),
      affineMap_scaling_gray, mul_one]
  -- the inverse is found to be the table that changes nothing
  have hentry : ∀ i, lut.invert.grid.HasPoint i → lut.invert.grid.entryAt i =
      Grid.affineMap (scaling (Rgb.gray 1)) (Rgb.gray 0) (Grid.colorOf 2 i) := by
    intro i hi
    rw [entryAt_invert_of_darkened ⟨by norm_num, by norm_num⟩
      (by rw [det_scaling]; norm_num [Rgb.gray]) hi]
    refine Rgb.eq_of_get_eq fun ch => ?_
    rw [get_affineMap_scaling, Rgb.get_gray, Rgb.get_gray, one_mul, add_zero]
  have hback : lut.invert.apply (Rgb.gray (1 / 2)) = Rgb.gray (1 / 2) := by
    rw [@Lut3D.apply_of_affine lut.invert _ hsize hmethod _ (Grid.isAffine_affineMap _ _) hentry
      (Rgb.inCube_gray ⟨by norm_num, by norm_num⟩), affineMap_scaling_gray, one_mul]
  have hpair : ((Renderer.lut3D (⟨lut, .inverse⟩ : Lut3DOp ℝ).evaluatedGrid).apply
      ((Renderer.lut3D (⟨lut, .forward⟩ : Lut3DOp ℝ).evaluatedGrid).apply
        (.ofRgb (Rgb.gray 1) 1))).rgb = Rgb.gray (1 / 2) := by
    change lut.invert.apply (lut.apply (Rgb.gray 1)) = _
    rw [hhalf, hback]
  have hwhite : (limits.apply (.ofRgb (Rgb.gray 1) 1)).rgb = Rgb.gray 1 := by
    rw [happly]
    exact (Rgb.inCube_gray hwhole).limited
  refine ⟨hvalid .forward, _, _, _, limits, cancelRule_forward_grid lut none none,
    Renderer.ofData_grid (hvalid .forward), Renderer.ofData_grid (hvalid .inverse), hlimits,
    hpair, hwhite, ?_⟩
  intro hclose
  have hred := hclose (.ofRgb (Rgb.gray 1) 1) .red
  rw [hwhite, hpair, Rgb.get_gray, Rgb.get_gray] at hred
  norm_num at hred

end Pipeline

end ColorPipeline
