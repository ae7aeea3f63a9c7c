-- The search for the input of a colour in a grid, over the real numbers. It stays in the unit
-- cube, its probes too. Where the values of the grid change as a linear map does, the slopes are
-- the columns of the map, a step goes straight at the input, and the miss shrinks by one factor
-- with each step. Where they nearly change so, the input comes closer by a little less.
import ColorPipeline.Proofs.CornerMeans
import ColorPipeline.Proofs.LeastInputs
import Mathlib.Analysis.Normed.Group.Constructions
import Mathlib.LinearAlgebra.Matrix.NonsingularInverse

open scoped ColorPipeline.RealScalar

namespace ColorPipeline

/-! ## Channels -/

instance : Fintype Channel where
  elems := {.red, .green, .blue}
  complete ch := by cases ch <;> decide

theorem sum_channels (f : Channel → ℝ) : ∑ ch, f ch = f .red + f .green + f .blue := by
  have hsum : ∑ ch, f ch = f .red + (f .green + (f .blue + 0)) := rfl
  rw [hsum, add_zero, add_assoc]

def channelEquiv : Fin 3 ≃ Channel where
  toFun := ![.red, .green, .blue]
  invFun
    | .red => 0
    | .green => 1
    | .blue => 2
  left_inv i := by fin_cases i <;> rfl
  right_inv ch := by cases ch <;> rfl

namespace Rgb

theorem get_set {S : Type} (p : Rgb S) (c : Channel) (v : S) :
    (p.set c v).get = Function.update p.get c v := by
  funext ch
  cases c <;> cases ch <;> rfl

theorem set_set {S : Type} (p : Rgb S) (c : Channel) (v w : S) :
    (p.set c v).set c w = p.set c w := by
  cases c <;> rfl

theorem get_set_sub (p : Rgb ℝ) (c : Channel) (v : ℝ) :
    (p.set c v).get - p.get = (v - p.get c) • Pi.single c 1 := by
  funext ch
  rw [Pi.sub_apply, get_set, Pi.smul_apply, smul_eq_mul, Function.update_apply, Pi.single_apply]
  split
  · rename_i hch
    rw [hch, mul_one]
  · rw [sub_self, mul_zero]

/-- All channels are between 0 and 1. -/
def InCube (p : Rgb ℝ) : Prop := ∀ ch, p.get ch ∈ Set.Icc (0 : ℝ) 1

theorem inCube_gray {v : ℝ} (hv : v ∈ Set.Icc (0 : ℝ) 1) : (gray v).InCube := by
  intro ch
  rwa [get_gray]

theorem InCube.set {p : Rgb ℝ} (hp : p.InCube) {c : Channel} {v : ℝ} (hv : v ∈ Set.Icc (0 : ℝ) 1) :
    (p.set c v).InCube := by
  intro ch
  rw [get_set, Function.update_apply]
  split
  · exact hv
  · exact hp ch

theorem InCube.limited {p : Rgb ℝ} (hp : p.InCube) : (p.map fun v => min (max v 0) 1) = p := by
  refine eq_of_get_eq fun ch => ?_
  rw [get_map, max_eq_left (hp ch).1, min_eq_left (hp ch).2]

theorem inCube_limited (p : Rgb ℝ) : (p.map fun v => min (max v 0) 1).InCube := by
  intro ch
  rw [get_map]
  exact Curve.limited_mem (p.get ch)

end Rgb

/-! ## Linear systems -/

namespace Grid

/-- The matrix with three given columns. -/
def ofColumns (columns : Channel → Rgb ℝ) : Matrix Channel Channel ℝ :=
  Matrix.of fun i j => (columns j).get i

theorem det_eq (m : Matrix Channel Channel ℝ) :
    m.det = m .red .red * (m .green .green * m .blue .blue - m .green .blue * m .blue .green) -
      m .red .green * (m .green .red * m .blue .blue - m .green .blue * m .blue .red) +
      m .red .blue * (m .green .red * m .blue .green - m .green .green * m .blue .red) := by
  have hzero : channelEquiv 0 = .red := rfl
  have hone : channelEquiv 1 = .green := rfl
  have htwo : channelEquiv 2 = .blue := rfl
  rw [← Matrix.det_submatrix_equiv_self channelEquiv, Matrix.det_fin_three]
  simp only [Matrix.submatrix_apply, hzero, hone, htwo]
  ring

theorem det3_eq (columns : Channel → Rgb ℝ) :
    det3 (columns .red) (columns .green) (columns .blue) = (ofColumns columns).det := by
  rw [det_eq]
  simp only [ofColumns, Matrix.of_apply, det3, Rgb.get]

theorem ne_zero_of_le_abs {v : ℝ} (h : 1 / 10 ^ 10 ≤ |v|) : v ≠ 0 :=
  abs_pos.mp (lt_of_lt_of_le (by norm_num) h)

/-- Each part of the solution has one column replaced. -/
theorem get_solve3 {columns : Channel → Rgb ℝ} (h : 1 / 10 ^ 10 ≤ |(ofColumns columns).det|)
    (rhs : Rgb ℝ) (c : Channel) :
    (solve3 (columns .red) (columns .green) (columns .blue) rhs).get c =
      (ofColumns (Function.update columns c rhs)).det / (ofColumns columns).det := by
  have hlimit : ¬ Scalar.abs (det3 (columns .red) (columns .green) (columns .blue)) <
      ((1 : ℕ) : ℝ) / ((10 : ℕ) : ℝ) ^ 10 := by
    rw [det3_eq, Nat.cast_one, Nat.cast_ofNat]
    exact not_lt.mpr h
  refine (congrArg (fun p : Rgb ℝ => p.get c) (if_neg hlimit)).trans ?_
  rw [← det3_eq, ← det3_eq]
  cases c <;> simp only [Rgb.get, Function.update_apply, reduceCtorEq, if_true, if_false]

/-- Cramer's rule solves a system that is not nearly singular. -/
theorem mulVec_solve3 {columns : Channel → Rgb ℝ} (h : 1 / 10 ^ 10 ≤ |(ofColumns columns).det|)
    (rhs : Rgb ℝ) :
    (ofColumns columns).mulVec
      (solve3 (columns .red) (columns .green) (columns .blue) rhs).get = rhs.get := by
  have hreplaced : ∀ c, ofColumns (Function.update columns c rhs) =
      (ofColumns columns).updateCol c rhs.get := by
    intro c
    ext i j
    rw [Matrix.updateCol_apply]
    simp only [ofColumns, Matrix.of_apply, Function.update_apply]
    split <;> rfl
  have hsolution : (solve3 (columns .red) (columns .green) (columns .blue) rhs).get =
      ((ofColumns columns).det)⁻¹ • (ofColumns columns).cramer rhs.get := by
    funext c
    rw [get_solve3 h, hreplaced, Pi.smul_apply, Matrix.cramer_apply, smul_eq_mul, inv_mul_eq_div]
  rw [hsolution, Matrix.mulVec_smul, Matrix.mulVec_cramer, inv_smul_smul₀ (ne_zero_of_le_abs h)]

/-! ## Probes and steps -/

variable {g : Grid ℝ} {guess : Rgb ℝ}

theorem damping_eq : (damping : ℝ) = 4 / 5 := by
  refine (RealScalar.ofDecimal_eq 8 1).trans ?_
  norm_num

theorem probeDistance_eq : (probeDistance : ℝ) = 1 / 10 ^ 4 := by
  refine (RealScalar.ofDecimal_eq 1 4).trans ?_
  rw [Nat.cast_one]

theorem closeEnough_eq : (closeEnough : ℝ) = 1 / 10 ^ 6 := by
  refine (RealScalar.ofDecimal_eq 1 6).trans ?_
  rw [Nat.cast_one]

/-- Probes step back at the upper face, so they stay in the cube. -/
theorem probeStep_eq (v : ℝ) :
    probeStep v = if 1 < v + probeDistance then -probeDistance else probeDistance := by
  rw [← Nat.cast_one]
  rfl

theorem probeStep_ne_zero (v : ℝ) : probeStep v ≠ 0 := by
  rw [probeStep_eq, probeDistance_eq]
  split <;> norm_num

/-- From a guess in the cube, the probe goes to another colour of the cube. -/
theorem inCube_probe (hguess : guess.InCube) (c : Channel) : (probe guess c).InCube := by
  obtain ⟨hlow, hhigh⟩ := hguess c
  refine hguess.set ?_
  rw [probeStep_eq, probeDistance_eq]
  split <;> constructor <;> linarith

theorem get_probe_sub (guess : Rgb ℝ) (c : Channel) :
    (probe guess c).get - guess.get = probeStep (guess.get c) • Pi.single c 1 := by
  rw [probe, Rgb.get_set_sub, add_sub_cancel_left]

theorem sum_abs_probe_sub (guess : Rgb ℝ) (c : Channel) :
    ∑ ch, |(probe guess c).get ch - guess.get ch| = |probeStep (guess.get c)| := by
  have hway := congrFun (get_probe_sub guess c)
  simp only [Pi.sub_apply] at hway
  rw [sum_channels, hway, hway, hway]
  cases c <;> simp

theorem get_slope (g : Grid ℝ) (guess value : Rgb ℝ) (c : Channel) :
    (g.slope guess value c).get =
      (probeStep (guess.get c))⁻¹ • ((g.tetrahedral (probe guess c)).get - value.get) := by
  funext i
  rw [slope, slopeTo, Rgb.get_ofFn, Pi.smul_apply, Pi.sub_apply, smul_eq_mul, inv_mul_eq_div]

/-- A step of the search goes on by its damped part and is limited to the cube. -/
theorem newtonStep_eq (g : Grid ℝ) (guess value target : Rgb ℝ) :
    g.newtonStep guess value target = Rgb.ofFn fun c =>
      min (max (guess.get c + damping * (solve3 (g.slope guess value .red)
        (g.slope guess value .green) (g.slope guess value .blue)
        ((miss value target).map fun v => -v)).get c) 0) 1 := by
  have hstep : g.newtonStep guess value target = Rgb.ofFn fun c =>
      Scalar.clamp (guess.get c + damping * (solve3 (g.slope guess value .red)
        (g.slope guess value .green) (g.slope guess value .blue)
        ((miss value target).map fun v => -v)).get c) ((0 : ℕ) : ℝ) ((1 : ℕ) : ℝ) := rfl
  rw [hstep]
  simp only [RealScalar.clamp_unit]

theorem inCube_newtonStep (g : Grid ℝ) (guess value target : Rgb ℝ) :
    (g.newtonStep guess value target).InCube := by
  intro ch
  rw [newtonStep_eq, Rgb.get_ofFn]
  exact Curve.limited_mem _

/-- A search stays in the cube. -/
theorem inCube_newton (target : Rgb ℝ) (n : Nat) (hguess : guess.InCube) :
    (g.newton target n guess).InCube := by
  induction n generalizing guess with
  | zero => exact hguess
  | succ n ih =>
    unfold newton
    dsimp only
    split
    · exact hguess
    · exact ih (inCube_newtonStep g _ _ _)

section Evaluations

variable {value? : Rgb ℝ → Option (Rgb ℝ)}
  (hvalue : ∀ p : Rgb ℝ, p.InCube → value? p = some (g.tetrahedral p))
include hvalue

theorem slope?_eq (hguess : guess.InCube) (value : Rgb ℝ) (c : Channel) :
    slope? value? guess value c = some (g.slope guess value c) := by
  unfold slope?
  rw [hvalue _ (inCube_probe hguess c)]
  rfl

/-- Values are asked for within the cube only. -/
theorem newtonStep?_eq (hguess : guess.InCube) (value target : Rgb ℝ) :
    newtonStep? value? guess value target = some (g.newtonStep guess value target) := by
  unfold newtonStep?
  rw [slope?_eq hvalue hguess, slope?_eq hvalue hguess, slope?_eq hvalue hguess]
  rfl

/-- From a guess in the cube, a search needs no value of a colour outside. -/
theorem newton?_eq (target : Rgb ℝ) (n : Nat) (hguess : guess.InCube) :
    newton? value? target n guess = some (g.newton target n guess) := by
  induction n generalizing guess with
  | zero => rfl
  | succ n ih =>
    unfold newton? newton
    rw [hvalue guess hguess, Option.bind_eq_bind, Option.bind_some,
      newtonStep?_eq hvalue hguess, Option.bind_some,
      ih (inCube_newtonStep g _ _ _)]
    dsimp only
    split <;> rfl

end Evaluations

/-! ## Values that change as a linear map does -/

/-- The slopes along the axes as columns. -/
noncomputable def slopes (g : Grid ℝ) (guess value : Rgb ℝ) : Matrix Channel Channel ℝ :=
  ofColumns (g.slope guess value)

/-- In the cube the values of the grid change as a linear map of the input does, up to a part of
the way between the inputs along the axes. -/
def Follows (g : Grid ℝ) (b : Matrix Channel Channel ℝ) (part : ℝ) : Prop :=
  ∀ p q : Rgb ℝ, p.InCube → q.InCube → ∃ bend : Channel → ℝ,
    ‖bend‖ ≤ part * ∑ ch, |p.get ch - q.get ch| ∧
    (g.tetrahedral p).get - (g.tetrahedral q).get = b.mulVec (p.get - q.get + bend)

variable {b : Matrix Channel Channel ℝ} {part : ℝ} {q : Rgb ℝ}

theorem abs_le_norm (v : Channel → ℝ) (ch : Channel) : |v ch| ≤ ‖v‖ := norm_le_pi_norm v ch

theorem sum_abs_le (v : Channel → ℝ) : ∑ ch, |v ch| ≤ 3 * ‖v‖ := by
  have hred := abs_le_norm v .red
  have hgreen := abs_le_norm v .green
  have hblue := abs_le_norm v .blue
  rw [sum_channels]
  linarith

/-- A matrix makes vectors longer by no more than its rows say. -/
theorem norm_mulVec_le {m : Matrix Channel Channel ℝ} {most : ℝ} (h : ∀ i, ∑ j, |m i j| ≤ most)
    (v : Channel → ℝ) : ‖m.mulVec v‖ ≤ most * ‖v‖ := by
  have : Nonempty Channel := ⟨.red⟩
  rw [pi_norm_le_iff_of_nonempty]
  intro i
  calc ‖m.mulVec v i‖ ≤ ∑ j, |m i j * v j| :=
      Finset.abs_sum_le_sum_abs (fun j => m i j * v j) Finset.univ
    _ ≤ ∑ j, |m i j| * ‖v‖ := by
      refine Finset.sum_le_sum fun j _ => ?_
      rw [abs_mul]
      exact mul_le_mul_of_nonneg_left (abs_le_norm v j) (abs_nonneg _)
    _ = (∑ j, |m i j|) * ‖v‖ := (Finset.sum_mul _ _ _).symm
    _ ≤ most * ‖v‖ := mul_le_mul_of_nonneg_right (h i) (norm_nonneg v)

/-- Small errors in the slopes move the step a little. -/
theorem norm_mulVec_le_of_small {e : Matrix Channel Channel ℝ} (h : ∀ i j, |e i j| ≤ part)
    (v : Channel → ℝ) : ‖e.mulVec v‖ ≤ 3 * part * ‖v‖ := by
  refine norm_mulVec_le (fun i => ?_) v
  have hred := h i .red
  have hgreen := h i .green
  have hblue := h i .blue
  rw [sum_channels]
  linarith

/-- A slope is a column of the map, and off by no more than the part of a unit. -/
theorem get_slope_of_follows (h : g.Follows b part) (hguess : guess.InCube) (c : Channel) :
    ∃ off : Channel → ℝ, (∀ i, |off i| ≤ part) ∧
      (g.slope guess (g.tetrahedral guess) c).get = b.mulVec (Pi.single c 1 + off) := by
  have hstep := probeStep_ne_zero (guess.get c)
  obtain ⟨bend, hbend, hchange⟩ := h _ _ (inCube_probe hguess c) hguess
  rw [sum_abs_probe_sub] at hbend
  refine ⟨(probeStep (guess.get c))⁻¹ • bend, ?_, ?_⟩
  · intro i
    rw [Pi.smul_apply, smul_eq_mul, abs_mul, abs_inv, inv_mul_le_iff₀ (abs_pos.mpr hstep)]
    exact (abs_le_norm bend i).trans (hbend.trans_eq (mul_comm _ _))
  · rw [get_slope, hchange, get_probe_sub, ← Matrix.mulVec_smul, smul_add, inv_smul_smul₀ hstep]

/-- Slopes of a grid that follows a linear map are that map up to a small factor. -/
theorem slopes_of_follows (h : g.Follows b part) (hguess : guess.InCube) :
    ∃ e : Matrix Channel Channel ℝ, (∀ i j, |e i j| ≤ part) ∧
      g.slopes guess (g.tetrahedral guess) = b * (1 + e) := by
  choose off hoff hslope using get_slope_of_follows h hguess
  refine ⟨Matrix.of fun i j => off j i, fun i j => hoff j i, ?_⟩
  ext i j
  have hentry : g.slopes guess (g.tetrahedral guess) i j =
      (g.slope guess (g.tetrahedral guess) j).get i := rfl
  rw [hentry, hslope, Matrix.mul_apply, Matrix.mulVec, dotProduct]
  refine Finset.sum_congr rfl fun k _ => ?_
  rw [Pi.add_apply, Matrix.add_apply, Matrix.one_apply, Pi.single_apply, Matrix.of_apply]

/-- The direction of a step solves the system of the slopes. -/
theorem exists_direction {value : Rgb ℝ} (h : 1 / 10 ^ 10 ≤ |(g.slopes guess value).det|)
    (target : Rgb ℝ) : ∃ d : Channel → ℝ,
      (g.slopes guess value).mulVec d = target.get - value.get ∧
      ∀ ch, (g.newtonStep guess value target).get ch =
        min (max (guess.get ch + 4 / 5 * d ch) 0) 1 := by
  refine ⟨_, (mulVec_solve3 h ((miss value target).map fun v => -v)).trans ?_, ?_⟩
  · funext ch
    rw [Rgb.get_map, miss, Rgb.get_ofFn, neg_sub, Pi.sub_apply]
  · intro ch
    rw [newtonStep_eq, Rgb.get_ofFn, damping_eq]

/-- A step goes four fifths of the way to the input, and astray by no more than the bends. -/
theorem newtonStep_of_follows (h : g.Follows b part) (hpart : 0 ≤ part) (hb : b.det ≠ 0)
    (hguess : guess.InCube) (hq : q.InCube)
    (hdet : 1 / 10 ^ 10 ≤ |(g.slopes guess (g.tetrahedral guess)).det|) :
    ∃ astray : Channel → ℝ, (1 - 3 * part) * ‖astray‖ ≤ 6 * part * ‖guess.get - q.get‖ ∧
      ∀ ch, (g.newtonStep guess (g.tetrahedral guess) (g.tetrahedral q)).get ch =
        min (max (q.get ch + 1 / 5 * (guess.get ch - q.get ch) + 4 / 5 * astray ch) 0) 1 := by
  obtain ⟨d, hd, hstep⟩ := exists_direction hdet (g.tetrahedral q)
  obtain ⟨e, he, hslopes⟩ := slopes_of_follows h hguess
  obtain ⟨bend, hbend, hchange⟩ := h guess q hguess hq
  have hinjective : Function.Injective b.mulVec :=
    Matrix.mulVec_injective_iff_isUnit.mpr ((Matrix.isUnit_iff_isUnit_det b).mpr hb.isUnit)
  -- the map is taken off both sides of the system
  have hsystem : d + e.mulVec d = -(guess.get - q.get + bend) := by
    apply hinjective
    rw [Matrix.mulVec_neg, ← hchange, neg_sub, ← hd, hslopes, ← Matrix.mulVec_mulVec,
      Matrix.add_mulVec, Matrix.one_mulVec]
  have hastray : d + (guess.get - q.get) =
      e.mulVec (guess.get - q.get) - e.mulVec (d + (guess.get - q.get)) - bend := by
    rw [Matrix.mulVec_add]
    linear_combination hsystem
  refine ⟨d + (guess.get - q.get), ?_, ?_⟩
  · have hmiss := norm_mulVec_le_of_small he (guess.get - q.get)
    have hrest := norm_mulVec_le_of_small he (d + (guess.get - q.get))
    have hbend : ‖bend‖ ≤ part * (3 * ‖guess.get - q.get‖) :=
      hbend.trans (mul_le_mul_of_nonneg_left (sum_abs_le (guess.get - q.get)) hpart)
    have hsum : ‖d + (guess.get - q.get)‖ ≤ ‖e.mulVec (guess.get - q.get)‖ +
        ‖e.mulVec (d + (guess.get - q.get))‖ + ‖bend‖ := by
      conv_lhs => rw [hastray]
      exact (norm_sub_le _ _).trans (add_le_add_left (norm_sub_le _ _) _)
    linarith
  · intro ch
    rw [hstep, Pi.add_apply, Pi.sub_apply]
    congr 2
    ring

/-! ## Values of an affine map -/

/-- The value of a linear map, moved. -/
noncomputable def affineMap (b : Matrix Channel Channel ℝ) (offset p : Rgb ℝ) : Rgb ℝ :=
  Rgb.ofFn fun ch => b.mulVec p.get ch + offset.get ch

variable {offset : Rgb ℝ}

theorem isAffine_affineMap (b : Matrix Channel Channel ℝ) (offset : Rgb ℝ) :
    IsAffine (affineMap b offset) := by
  intro ch
  refine ⟨Rgb.ofFn (b ch), offset.get ch, fun p => ?_⟩
  rw [affineMap, Rgb.get_ofFn, Matrix.mulVec, dotProduct, sum_channels]
  rfl

theorem get_affineMap_sub (p q : Rgb ℝ) :
    (affineMap b offset p).get - (affineMap b offset q).get = b.mulVec (p.get - q.get) := by
  funext ch
  rw [Matrix.mulVec_sub, Pi.sub_apply, Pi.sub_apply, affineMap, affineMap, Rgb.get_ofFn,
    Rgb.get_ofFn, add_sub_add_right_eq_sub]

/-- A grid of an affine map has its values everywhere, not only at points. -/
theorem tetrahedral_of_affine (hsize : 2 ≤ g.size)
    (hentry : ∀ i, g.HasPoint i → g.entryAt i = affineMap b offset (colorOf g.size i)) {p : Rgb ℝ}
    (hp : p.InCube) : g.tetrahedral p = affineMap b offset p := by
  have hmean := color_of_sampled hsize (isAffine_affineMap b offset) hentry p
  rw [hp.limited] at hmean
  exact (tetrahedral_eq_color hsize p).trans (hmean _)

/-- It follows the linear part without an error. -/
theorem follows_of_affine (hsize : 2 ≤ g.size)
    (hentry : ∀ i, g.HasPoint i → g.entryAt i = affineMap b offset (colorOf g.size i)) :
    g.Follows b 0 := by
  intro p q hp hq
  refine ⟨0, ?_, ?_⟩
  · rw [norm_zero, zero_mul]
  · rw [tetrahedral_of_affine hsize hentry hp, tetrahedral_of_affine hsize hentry hq,
      get_affineMap_sub, add_zero]

theorem slopes_of_follows_exactly (h : g.Follows b 0) (hguess : guess.InCube) :
    g.slopes guess (g.tetrahedral guess) = b := by
  obtain ⟨e, he, hslopes⟩ := slopes_of_follows h hguess
  have hnone : e = 0 := by
    ext i j
    exact abs_nonpos_iff.mp (he i j)
  rw [hslopes, hnone, add_zero, mul_one]

/-- A step takes four fifths of the way to the input, straight. -/
theorem newtonStep_of_follows_exactly (h : g.Follows b 0) (hdet : 1 / 10 ^ 10 ≤ |b.det|)
    (hguess : guess.InCube) (hq : q.InCube) (ch : Channel) :
    (g.newtonStep guess (g.tetrahedral guess) (g.tetrahedral q)).get ch - q.get ch =
      1 / 5 * (guess.get ch - q.get ch) := by
  have hb := ne_zero_of_le_abs hdet
  obtain ⟨astray, hastray, hstep⟩ :=
    newtonStep_of_follows h le_rfl hb hguess hq ((slopes_of_follows_exactly h hguess).symm ▸ hdet)
  have hstraight : astray = 0 := by
    rw [mul_zero, sub_zero, one_mul, mul_zero, zero_mul] at hastray
    exact norm_le_zero_iff.mp hastray
  -- between two colours of the cube nothing is limited
  have hlow := mul_nonneg (by norm_num : (0 : ℝ) ≤ 4 / 5) (hq ch).1
  have hhigh := (hq ch).2
  have hlow' := (hguess ch).1
  have hhigh' := (hguess ch).2
  rw [hstep, hstraight, Pi.zero_apply, mul_zero, add_zero, max_eq_left (by linarith),
    min_eq_left (by linarith), add_sub_cancel_left]

/-- After each step that a search takes, a fifth of the way is left. -/
theorem newton_of_follows_exactly (h : g.Follows b 0) (hdet : 1 / 10 ^ 10 ≤ |b.det|)
    (hq : q.InCube) (n : ℕ) (hguess : guess.InCube) :
    let found := g.newton (g.tetrahedral q) n guess
    ∃ k ≤ n, found.get - q.get = (1 / 5 : ℝ) ^ k • (guess.get - q.get) ∧
      (length3 (miss (g.tetrahedral found) (g.tetrahedral q)) < closeEnough ∨ k = n) := by
  induction n generalizing guess with
  | zero => exact ⟨0, le_rfl, by rw [pow_zero, one_smul]; rfl, .inr rfl⟩
  | succ n ih =>
    unfold newton
    dsimp only
    split
    · rename_i hclose
      exact ⟨0, Nat.zero_le _, by rw [pow_zero, one_smul], .inl hclose⟩
    · obtain ⟨k, hk, hway, hend⟩ := ih (inCube_newtonStep g guess (g.tetrahedral guess) _)
      refine ⟨k + 1, Nat.succ_le_succ hk, hway.trans ?_, hend.imp_right (congrArg Nat.succ)⟩
      have hstep : (g.newtonStep guess (g.tetrahedral guess) (g.tetrahedral q)).get - q.get =
          (1 / 5 : ℝ) • (guess.get - q.get) :=
        funext fun ch => newtonStep_of_follows_exactly h hdet hguess hq ch
      rw [hstep, smul_smul, pow_succ]

theorem length3_eq (v : Rgb ℝ) : length3 v = √(∑ ch, v.get ch ^ 2) := by
  have h : length3 v = √(v.red * v.red + v.green * v.green + v.blue * v.blue) := rfl
  rw [h, sum_channels, pow_two, pow_two, pow_two]
  rfl

end Grid

/-! ## Inverse tables -/

namespace Lut3D

variable {lut : Lut3D ℝ}

theorem inCube_colorOf {size : ℕ} {i : Rgb ℕ} (h : ∀ ch, i.get ch < size) :
    (Grid.colorOf size i).InCube := by
  intro ch
  have hlast : (i.get ch : ℝ) ≤ ((size - 1 : ℕ) : ℝ) :=
    Nat.cast_le.mpr (Nat.le_sub_one_of_lt (h ch))
  rw [Grid.colorOf, Rgb.get_map, coordinate_eq, Grid.inputAt]
  exact ⟨by positivity, div_le_one_of_le₀ hlast (Nat.cast_nonneg _)⟩

/-- The entries of the inverse are the inputs found for the colours of the points. -/
theorem get_invert {i : Rgb ℕ} (hi : lut.grid.HasPoint i) :
    lut.invert.get i.red i.green i.blue = lut.inverseAt (Grid.colorOf lut.size i) :=
  @entryAt_of_entries_eq lut.invert _ rfl _ hi

/-- The table of the values of an affine map. -/
noncomputable def ofAffine (size : ℕ) (b : Matrix Channel Channel ℝ) (offset : Rgb ℝ) :
    Lut3D ℝ where
  entries := (gridColors size).map (Grid.affineMap b offset)
  size := size

theorem entryAt_ofAffine {size : ℕ} {b : Matrix Channel Channel ℝ} {offset : Rgb ℝ} {i : Rgb ℕ}
    (hi : (ofAffine size b offset).grid.HasPoint i) :
    (ofAffine size b offset).grid.entryAt i = Grid.affineMap b offset (Grid.colorOf size i) :=
  entryAt_of_entries_eq rfl hi

theorem inCube_of_mem_gridColors {size : ℕ} {p : Rgb ℝ} (h : p ∈ gridColors size) : p.InCube := by
  obtain ⟨i, rfl⟩ := Array.mem_ofFn.mp h
  obtain ⟨r, g, b, hr, hg, hb, hi⟩ := exists_index i.isLt
  obtain ⟨hred, hgreen, hblue⟩ := index_digits (r := r) hg hb
  rw [hi, gridColor, hred, hgreen, hblue]
  refine inCube_colorOf (i := ⟨r, g, b⟩) fun ch => ?_
  cases ch <;> assumption

end Lut3D

/-- The inverse of a table has as many points, and its entries are colours of the cube. Each is
found by a search that looks up values of such colours only. In a table of the values of an affine
map that is not nearly singular, a colour that has an input in the cube is approached straight:
each step leaves a fifth of the miss, and the search stops where the miss is small, or after 30
steps. -/
theorem searches_stay_in_the_cube_and_close_in (lut : Lut3D ℝ) (hsize : 2 ≤ lut.size) :
    let inverse := lut.invert
    inverse.size = lut.size ∧ inverse.entries.size = lut.size ^ 3 ∧
    (∀ entry ∈ inverse.entries, entry.InCube) ∧
    (∀ value? : Rgb ℝ → Option (Rgb ℝ),
      (∀ p : Rgb ℝ, p.InCube → value? p = some (lut.grid.tetrahedral p)) →
        ∀ i, lut.grid.HasPoint i → let target := Grid.colorOf lut.size i
          Grid.newton? value? target Grid.newtonSteps target =
            some (inverse.get i.red i.green i.blue)) ∧
    ∀ (b : Matrix Channel Channel ℝ) (offset : Rgb ℝ), 1 / 10 ^ 10 ≤ |b.det| →
      (∀ i, lut.grid.HasPoint i →
        lut.get i.red i.green i.blue = Grid.affineMap b offset (Grid.colorOf lut.size i)) →
      ∀ i, lut.grid.HasPoint i → let target := Grid.colorOf lut.size i
        let entry := inverse.get i.red i.green i.blue
        let miss (p : Rgb ℝ) (ch : Channel) := (Grid.affineMap b offset p).get ch - target.get ch
        (∃ q : Rgb ℝ, q.InCube ∧ Grid.affineMap b offset q = target) →
          ∃ k ≤ 30, (∀ ch, miss entry ch = (1 - 4 / 5) ^ k * miss target ch) ∧
            (√(∑ ch, miss entry ch ^ 2) < 1 / 10 ^ 6 ∨ k = 30) := by
  intro inverse
  refine ⟨rfl, Lut3D.size_map_gridColors _ _, ?_, ?_, ?_⟩
  · intro entry hentry
    obtain ⟨target, htarget, rfl⟩ := Array.mem_map.mp hentry
    exact Grid.inCube_newton target _ (Lut3D.inCube_of_mem_gridColors htarget)
  · intro value? hvalue i hi target
    rw [Lut3D.get_invert hi]
    exact Grid.newton?_eq hvalue target _ (Lut3D.inCube_colorOf hi)
  · intro b offset hdet hsampled i hi target entry miss hreached
    obtain ⟨q, hq, htarget⟩ := hreached
    have hvalue : ∀ {p : Rgb ℝ}, p.InCube →
        lut.grid.tetrahedral p = Grid.affineMap b offset p :=
      fun hp => Grid.tetrahedral_of_affine hsize hsampled hp
    have hguess : target.InCube := Lut3D.inCube_colorOf hi
    have hentry : entry = lut.grid.newton (lut.grid.tetrahedral q) 30 target := by
      rw [hvalue hq, htarget]
      exact Lut3D.get_invert hi
    obtain ⟨k, hk, hway, hend⟩ := Grid.newton_of_follows_exactly
      (Grid.follows_of_affine hsize hsampled) hdet hq 30 hguess
    rw [← hentry] at hway hend
    have hmiss : ∀ p : Rgb ℝ, miss p = b.mulVec (p.get - q.get) := by
      intro p
      rw [← Grid.get_affineMap_sub p q, htarget]
      rfl
    refine ⟨k, hk, ?_, hend.imp_left fun hclose => ?_⟩
    · intro ch
      rw [hmiss, hmiss, hway, Matrix.mulVec_smul, Pi.smul_apply, smul_eq_mul]
      norm_num
    · have hinside : entry.InCube := hentry ▸ Grid.inCube_newton _ 30 hguess
      rw [hvalue hinside, hvalue hq, htarget, Grid.length3_eq, Grid.closeEnough_eq] at hclose
      simpa only [Grid.miss, Rgb.get_ofFn] using hclose

/-- Each channel is made of itself and the next one. -/
def mixedWithNext (share : ℝ) : Matrix Channel Channel ℝ := Matrix.of fun i j =>
  match i, j with
  | .red, .red | .red, .green | .green, .green | .green, .blue | .blue, .blue | .blue, .red => share
  | _, _ => 0

theorem affineMap_mixedWithNext (share : ℝ) (p : Rgb ℝ) :
    Grid.affineMap (mixedWithNext share) (Rgb.gray 0) p =
      ⟨share * (p.red + p.green), share * (p.green + p.blue), share * (p.blue + p.red)⟩ := by
  refine Rgb.eq_of_get_eq fun ch => ?_
  rw [Grid.affineMap, Rgb.get_ofFn, Matrix.mulVec, dotProduct, sum_channels]
  cases ch <;> simp [mixedWithNext, Rgb.get, Rgb.gray] <;> ring

theorem det_mixedWithNext (share : ℝ) : (mixedWithNext share).det = 2 * share ^ 3 := by
  rw [Grid.det_eq]
  simp only [mixedWithNext, Matrix.of_apply]
  ring

/-- In a table of three points to an axis whose channels are means of two, the search for the input
of a light blue leaves green and blue with a fifth of their miss after each step. -/
theorem a_light_blue_is_approached_straight :
    let b := mixedWithNext (1 / 2)
    let lut := Lut3D.ofAffine 3 b (Rgb.gray 0)
    2 ≤ lut.size ∧ 1 / 10 ^ 10 ≤ |b.det| ∧
      Grid.affineMap b (Rgb.gray 0) ⟨1, 0, 1⟩ = ⟨1 / 2, 1 / 2, 1⟩ ∧
      ∃ k ≤ 30, ∀ ch,
        (Grid.affineMap b (Rgb.gray 0) (lut.invert.get 1 1 2)).get ch -
            (⟨1 / 2, 1 / 2, 1⟩ : Rgb ℝ).get ch =
          (1 - 4 / 5) ^ k * (⟨0, 1 / 4, -1 / 4⟩ : Rgb ℝ).get ch := by
  intro b lut
  have hsize : 2 ≤ lut.size := by change 2 ≤ 3; decide
  have hdet : 1 / 10 ^ 10 ≤ |b.det| := by
    rw [det_mixedWithNext]
    norm_num
  have hpoint : lut.grid.HasPoint ⟨1, 1, 2⟩ := by
    intro ch
    change _ < 3
    cases ch <;> decide
  have hcolor : Grid.colorOf lut.size ⟨1, 1, 2⟩ = ⟨1 / 2, 1 / 2, 1⟩ := by
    have hcoordinate : ∀ i : ℕ, (Lut3D.coordinate lut.size i : ℝ) = i / 2 := by
      intro i
      rw [Lut3D.coordinate_eq, Grid.inputAt]
      rfl
    simp only [Grid.colorOf, Rgb.map, hcoordinate]
    norm_num
  have hreached : Grid.affineMap b (Rgb.gray 0) ⟨1, 0, 1⟩ = ⟨1 / 2, 1 / 2, 1⟩ := by
    rw [affineMap_mixedWithNext]
    norm_num
  have hinside : (⟨1, 0, 1⟩ : Rgb ℝ).InCube := by
    intro ch
    cases ch <;> constructor <;> norm_num [Rgb.get]
  obtain ⟨_, _, _, _, hcloses⟩ := searches_stay_in_the_cube_and_close_in lut hsize
  obtain ⟨k, hk, hmiss, _⟩ := hcloses b (Rgb.gray 0) hdet
    (fun _ hi => Lut3D.entryAt_ofAffine hi) _ hpoint ⟨_, hinside, hreached.trans hcolor.symm⟩
  refine ⟨hsize, hdet, hreached, k, hk, fun ch => ?_⟩
  have hway := hmiss ch
  rw [hcolor] at hway
  refine hway.trans (congrArg _ ?_)
  dsimp only
  rw [affineMap_mixedWithNext]
  cases ch <;> norm_num [Rgb.get]

end ColorPipeline
