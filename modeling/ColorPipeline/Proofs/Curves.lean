-- Curves over the real numbers. Between two samples a curve is a line, and its inverse goes
-- back along that line. Where a curve is flat there is no way back, and a curve that takes
-- the nearest sample has steps instead of lines.
import ColorPipeline.Lut.Curve
import ColorPipeline.Proofs.Exact

open scoped ColorPipeline.RealScalar

namespace ColorPipeline

namespace Curve

variable {c : Curve ℝ}

/-- No sample is below the one before it. -/
def NonDecreasing (c : Curve ℝ) : Prop := ∀ i, i + 1 < c.size → c.sample i ≤ c.sample (i + 1)

/-- Every sample is above the one before it. -/
def Increasing (c : Curve ℝ) : Prop := ∀ i, i + 1 < c.size → c.sample i < c.sample (i + 1)

theorem Increasing.nonDecreasing (h : c.Increasing) : c.NonDecreasing :=
  fun i hi => le_of_lt (h i hi)

theorem NonDecreasing.le (h : c.NonDecreasing) {i j : Nat} (hij : i ≤ j) (hj : j < c.size) :
    c.sample i ≤ c.sample j := by
  induction j, hij using Nat.le_induction with
  | base => exact le_rfl
  | succ j hij ih => exact (ih (by omega)).trans (h j hj)

/-! ## Lines between samples -/

theorem position_eq (c : Curve ℝ) (v : ℝ) :
    c.position v = min (max v 0) 1 * ((c.size - 1 : ℕ) : ℝ) := by
  have h : c.position v = Scalar.clamp v ((0 : ℕ) : ℝ) ((1 : ℕ) : ℝ) * ((c.size - 1 : ℕ) : ℝ) :=
    rfl
  rw [h, RealScalar.clamp_unit]

theorem cast_size_sub_one_pos {size : ℕ} (hsize : 2 ≤ size) : 0 < ((size - 1 : ℕ) : ℝ) := by
  rw [Nat.cast_pos]
  omega

/-- Every input lies on a line between two samples. -/
theorem exists_position (hsize : 2 ≤ c.size) (v : ℝ) :
    ∃ (k : Nat) (f : ℝ), k + 1 < c.size ∧ 0 ≤ f ∧ f ≤ 1 ∧ c.position v = k + f := by
  have hlow : 0 ≤ c.position v := by
    rw [position_eq]
    exact mul_nonneg (le_min (le_max_right v 0) zero_le_one) (Nat.cast_nonneg _)
  have hhigh : c.position v ≤ ((c.size - 1 : ℕ) : ℝ) := by
    rw [position_eq]
    exact mul_le_of_le_one_left (Nat.cast_nonneg _) (min_le_right _ _)
  by_cases hend : ⌊c.position v⌋₊ + 1 < c.size
  · have hfloor := Nat.floor_le hlow
    have hnext := Nat.lt_floor_add_one (c.position v)
    exact ⟨⌊c.position v⌋₊, c.position v - ⌊c.position v⌋₊, hend, by linarith, by linarith, by ring⟩
  · have hlast : ((c.size - 1 : ℕ) : ℝ) ≤ c.position v := by
      rw [← Nat.le_floor_iff hlow]
      omega
    have heq : c.position v = ((c.size - 2 : ℕ) : ℝ) + 1 := by
      have hsucc : c.size - 1 = (c.size - 2) + 1 := by omega
      rw [le_antisymm hhigh hlast, hsucc, Nat.cast_succ]
    exact ⟨c.size - 2, 1, by omega, zero_le_one, le_rfl, heq⟩

/-- The input of a place on a line. -/
theorem position_div (hsize : 2 ≤ c.size) {k : Nat} {f : ℝ} (hk : k + 1 < c.size) (hf : 0 ≤ f)
    (hf' : f ≤ 1) : c.position ((k + f) / ((c.size - 1 : ℕ) : ℝ)) = k + f := by
  have hpos := cast_size_sub_one_pos hsize
  have hlow : 0 ≤ (k + f) / ((c.size - 1 : ℕ) : ℝ) := by positivity
  have hhigh : (k + f) / ((c.size - 1 : ℕ) : ℝ) ≤ 1 := by
    have hlast : (k : ℝ) + 1 ≤ ((c.size - 1 : ℕ) : ℝ) := by
      exact_mod_cast (by omega : k + 1 ≤ c.size - 1)
    rw [div_le_one hpos]
    linarith
  rw [position_eq, max_eq_left hlow, min_eq_left hhigh, div_mul_cancel₀ _ (ne_of_gt hpos)]

theorem linear_eq {k : Nat} {f v : ℝ} (hk : k + 1 < c.size) (hf : 0 ≤ f) (hf' : f ≤ 1)
    (h : c.position v = k + f) :
    c.linear v = c.sample k + (c.sample (k + 1) - c.sample k) * f := by
  have hlinear : c.linear v =
      let i := min ⌊((⌊c.position v⌋ : ℤ) : ℝ)⌋₊ (c.size - 2)
      c.sample i + (c.sample (i + 1) - c.sample i) * (c.position v - (i : ℝ)) := rfl
  have hfloor : ⌊((⌊(k : ℝ) + f⌋ : ℤ) : ℝ)⌋₊ = ⌊(k : ℝ) + f⌋₊ := by
    rw [← Int.floor_toNat, Int.floor_intCast, Int.floor_toNat]
  rw [hlinear]
  simp only [h, hfloor]
  rcases lt_or_eq_of_le hf' with hinside | rfl
  · have hk' : ⌊(k : ℝ) + f⌋₊ = k := by
      rw [Nat.floor_eq_iff (by positivity)]
      constructor <;> linarith
    rw [hk', min_eq_left (by omega)]
    ring
  · -- the end of a line is the start of the next one, if there is one
    have hk' : ⌊(k : ℝ) + 1⌋₊ = k + 1 := by exact_mod_cast Nat.floor_natCast (k + 1)
    rw [hk']
    by_cases hnext : k + 1 ≤ c.size - 2
    · rw [min_eq_left hnext, Nat.cast_succ]
      ring
    · have hlast : min (k + 1) (c.size - 2) = k := by omega
      rw [hlast]
      ring

/-! ## The way back -/

/-- The search finds the place up to which the samples are below the value. -/
theorem firstNotBelow_spec (hc : c.NonDecreasing) (y : ℝ) {lo hi : Nat} (hlohi : lo ≤ hi)
    (hhi : hi ≤ c.size) (hbelow : ∀ i < lo, c.sample i < y)
    (hnot : ∀ i, hi ≤ i → i < c.size → y ≤ c.sample i) :
    (∀ i < c.firstNotBelow y lo hi, c.sample i < y) ∧
      ∀ i, c.firstNotBelow y lo hi ≤ i → i < c.size → y ≤ c.sample i := by
  fun_induction firstNotBelow c y lo hi with
  | case1 lo hi hlt middle hmiddle ih =>
    refine ih (by omega) hhi ?_ hnot
    intro i hi
    exact lt_of_le_of_lt (hc.le (by omega) (by omega)) hmiddle
  | case2 lo hi hlt middle hmiddle ih =>
    refine ih (by omega) (by omega) hbelow ?_
    intro i hi hsize
    exact (not_lt.mp hmiddle).trans (hc.le hi hsize)
  | case3 lo hi hge =>
    exact ⟨hbelow, fun i hi => hnot i (by omega)⟩

theorem firstNotBelow_eq (hc : c.NonDecreasing) {k : Nat} {y : ℝ}
    (hbelow : ∀ i < k, c.sample i < y) (hk : k < c.size) (hy : y ≤ c.sample k) :
    c.firstNotBelow y 0 c.size = k := by
  obtain ⟨hlow, hhigh⟩ := firstNotBelow_spec hc y (Nat.zero_le _) le_rfl
    (fun i hi => absurd hi (Nat.not_lt_zero i)) (fun i hi hsize => absurd hsize (not_lt.mpr hi))
  rcases Nat.lt_trichotomy (c.firstNotBelow y 0 c.size) k with h | h | h
  · exact absurd (hhigh _ le_rfl (h.trans hk)) (not_le.mpr (hbelow _ h))
  · exact h
  · exact absurd hy (not_le.mpr (hlow k h))

theorem withinSamples_eq (c : Curve ℝ) (v : ℝ) :
    c.withinSamples v = min (max v (c.sample 0)) (c.sample (c.size - 1)) := by
  unfold withinSamples
  rw [RealScalar.minNum_eq, RealScalar.maxNum_eq]

theorem withinSamples_of_mem {v : ℝ} (hlow : c.sample 0 ≤ v) (hhigh : v ≤ c.sample (c.size - 1)) :
    c.withinSamples v = v := by
  rw [withinSamples_eq, max_eq_left hlow, min_eq_left hhigh]

theorem withinSamples_mem (hsize : 2 ≤ c.size) (hc : c.NonDecreasing) (v : ℝ) :
    c.sample 0 ≤ c.withinSamples v ∧ c.withinSamples v ≤ c.sample (c.size - 1) := by
  rw [withinSamples_eq]
  exact ⟨le_min (le_max_right _ _) (hc.le (Nat.zero_le _) (by omega)), min_le_right _ _⟩

theorem invert_def (hsize : 2 ≤ c.size) (v : ℝ) : c.invert v =
    let y := c.withinSamples v
    let i := c.firstNotBelow y 0 c.size
    if i = 0 then ((0 : ℕ) : ℝ)
    else if c.size ≤ i then ((1 : ℕ) : ℝ)
    else (((i - 1 : ℕ) : ℝ) + (y - c.sample (i - 1)) / (c.sample i - c.sample (i - 1))) /
      ((c.size - 1 : ℕ) : ℝ) := by
  unfold invert
  rw [if_neg (by omega)]
  rfl

theorem invert_withinSamples (hsize : 2 ≤ c.size) (hc : c.NonDecreasing) (v : ℝ) :
    c.invert (c.withinSamples v) = c.invert v := by
  obtain ⟨hlow, hhigh⟩ := withinSamples_mem hsize hc v
  rw [invert_def hsize, invert_def hsize, withinSamples_of_mem hlow hhigh]

theorem invert_of_le (hsize : 2 ≤ c.size) (hc : c.NonDecreasing) {v : ℝ} (hv : v ≤ c.sample 0) :
    c.invert v = 0 := by
  have hwithin : c.withinSamples v = c.sample 0 := by
    rw [withinSamples_eq, max_eq_right hv, min_eq_left (hc.le (Nat.zero_le _) (by omega))]
  have hfirst : c.firstNotBelow (c.sample 0) 0 c.size = 0 :=
    firstNotBelow_eq hc (fun i hi => absurd hi (Nat.not_lt_zero i)) (by omega) le_rfl
  rw [invert_def hsize, hwithin]
  simp only [hfirst, if_true, Nat.cast_zero]

/-- A value on a rising line comes from the place on the line where it is. -/
theorem invert_eq (hsize : 2 ≤ c.size) (hc : c.NonDecreasing) {k : Nat} {v : ℝ}
    (hk : k + 1 < c.size) (hlow : c.sample k < v) (hhigh : v ≤ c.sample (k + 1)) :
    c.invert v = (k + (v - c.sample k) / (c.sample (k + 1) - c.sample k)) /
      ((c.size - 1 : ℕ) : ℝ) := by
  have hwithin : c.withinSamples v = v :=
    withinSamples_of_mem ((hc.le (Nat.zero_le k) (by omega)).trans (le_of_lt hlow))
      (hhigh.trans (hc.le (by omega) (by omega)))
  have hfirst : c.firstNotBelow v 0 c.size = k + 1 :=
    firstNotBelow_eq hc (fun i hi => lt_of_le_of_lt (hc.le (by omega) (by omega)) hlow) hk hhigh
  rw [invert_def hsize, hwithin]
  simp only [hfirst, Nat.add_sub_cancel]
  rw [if_neg (Nat.succ_ne_zero k), if_neg (not_le.mpr hk)]

/-- Values inside the samples are the first sample, or lie on a rising line. -/
theorem exists_line (hsize : 2 ≤ c.size) {y : ℝ} (hlow : c.sample 0 ≤ y)
    (hhigh : y ≤ c.sample (c.size - 1)) :
    y = c.sample 0 ∨ ∃ k, k + 1 < c.size ∧ c.sample k < y ∧ y ≤ c.sample (k + 1) := by
  by_contra hnone
  rw [not_or, not_exists] at hnone
  have hall : ∀ k, k < c.size → c.sample k < y := by
    intro k
    induction k with
    | zero => exact fun _ => lt_of_le_of_ne hlow (Ne.symm hnone.1)
    | succ k ih =>
      intro hk
      by_contra hy
      exact hnone.2 k ⟨hk, ih (by omega), not_lt.mp hy⟩
  exact absurd hhigh (not_le.mpr (hall _ (by omega)))

/-! ## Both ways -/

/-- A value that is inverted and then evaluated is moved into the samples. -/
theorem linear_invert (hsize : 2 ≤ c.size) (hc : c.NonDecreasing) (v : ℝ) :
    c.linear (c.invert v) = c.withinSamples v := by
  obtain ⟨hlow, hhigh⟩ := withinSamples_mem hsize hc v
  rw [← invert_withinSamples hsize hc]
  rcases exists_line hsize hlow hhigh with hfirst | ⟨k, hk, hbelow, habove⟩
  · have hzero : c.position 0 = ((0 : ℕ) : ℝ) + 0 := by
      rw [position_eq]
      simp
    rw [hfirst, invert_of_le hsize hc le_rfl, linear_eq (by omega) le_rfl zero_le_one hzero]
    ring
  · have hrise : 0 < c.sample (k + 1) - c.sample k := by linarith
    have hf : 0 ≤ (c.withinSamples v - c.sample k) / (c.sample (k + 1) - c.sample k) :=
      div_nonneg (by linarith) (le_of_lt hrise)
    have hf' : (c.withinSamples v - c.sample k) / (c.sample (k + 1) - c.sample k) ≤ 1 := by
      rw [div_le_one hrise]
      linarith
    rw [invert_eq hsize hc hk hbelow habove,
      linear_eq hk hf hf' (position_div hsize hk hf hf'), mul_div_cancel₀ _ (ne_of_gt hrise)]
    ring

/-- An input that is evaluated and then inverted on a curve that rises everywhere is moved
into the inputs of the curve. -/
theorem invert_linear (hsize : 2 ≤ c.size) (hc : c.Increasing) (v : ℝ) :
    c.invert (c.linear v) = min (max v 0) 1 := by
  obtain ⟨k, f, hk, hf, hf', hposition⟩ := exists_position hsize v
  have hpos := cast_size_sub_one_pos hsize
  have hinput : min (max v 0) 1 = (k + f) / ((c.size - 1 : ℕ) : ℝ) := by
    rw [eq_div_iff (ne_of_gt hpos), ← position_eq, hposition]
  have hrise : 0 < c.sample (k + 1) - c.sample k := by
    have := hc k hk
    linarith
  rw [hinput, linear_eq hk hf hf' hposition]
  rcases lt_or_eq_of_le hf with hinside | rfl
  · have hlow : c.sample k < c.sample k + (c.sample (k + 1) - c.sample k) * f := by
      have := mul_pos hrise hinside
      linarith
    have hhigh : c.sample k + (c.sample (k + 1) - c.sample k) * f ≤ c.sample (k + 1) := by
      have := mul_le_of_le_one_right (le_of_lt hrise) hf'
      linarith
    rw [invert_eq hsize hc.nonDecreasing hk hlow hhigh, add_sub_cancel_left,
      mul_div_cancel_left₀ _ (ne_of_gt hrise)]
  · -- a sample is the end of the line before it, and the first one the end of none
    rw [mul_zero, add_zero, add_zero]
    cases k with
    | zero => rw [invert_of_le hsize hc.nonDecreasing le_rfl, Nat.cast_zero, zero_div]
    | succ k =>
      have hbefore := hc k (by omega)
      rw [invert_eq hsize hc.nonDecreasing (by omega) hbefore le_rfl,
        div_self (by linarith), Nat.cast_succ]

/-- What is not above a sample comes from an input not beyond it. -/
theorem invert_le (hsize : 2 ≤ c.size) (hc : c.NonDecreasing) {k : Nat} {v : ℝ} (hk : k < c.size)
    (hv : v ≤ c.sample k) : c.invert v ≤ k / ((c.size - 1 : ℕ) : ℝ) := by
  obtain ⟨hlow, hhigh⟩ := withinSamples_mem hsize hc v
  have hpos := cast_size_sub_one_pos hsize
  rw [← invert_withinSamples hsize hc]
  rcases exists_line hsize hlow hhigh with hfirst | ⟨m, hm, hbelow, habove⟩
  · rw [hfirst, invert_of_le hsize hc le_rfl]
    positivity
  · have hmk : m < k := by
      by_contra hge
      have hwithin : c.withinSamples v ≤ c.sample k := by
        rw [withinSamples_eq]
        exact (min_le_left _ _).trans (max_le hv (hc.le (Nat.zero_le k) hk))
      have := hc.le (not_lt.mp hge) (by omega)
      linarith
    have hrise : 0 < c.sample (m + 1) - c.sample m := by linarith
    have hf : (c.withinSamples v - c.sample m) / (c.sample (m + 1) - c.sample m) ≤ 1 := by
      rw [div_le_one hrise]
      linarith
    have hnext : (m : ℝ) + 1 ≤ k := by exact_mod_cast hmk
    rw [invert_eq hsize hc hm hbelow habove]
    exact div_le_div_of_nonneg_right (by linarith) (le_of_lt hpos)

/-- The end of a flat line is lost: the way back leads to its start at the furthest. -/
theorem invert_linear_ne (hsize : 2 ≤ c.size) (hc : c.NonDecreasing) {k : Nat}
    (hk : k + 1 < c.size) (hflat : c.sample (k + 1) ≤ c.sample k) :
    ∃ v, c.invert (c.linear v) ≠ min (max v 0) 1 := by
  have hpos := cast_size_sub_one_pos hsize
  refine ⟨(k + 1) / ((c.size - 1 : ℕ) : ℝ), ?_⟩
  have hposition := position_div hsize hk zero_le_one le_rfl
  have hinput : min (max ((k + 1) / ((c.size - 1 : ℕ) : ℝ)) 0) 1 =
      (k + 1) / ((c.size - 1 : ℕ) : ℝ) := by
    rw [eq_div_iff (ne_of_gt hpos), ← position_eq, hposition]
  have hlinear : c.linear ((k + 1) / ((c.size - 1 : ℕ) : ℝ)) = c.sample (k + 1) := by
    rw [linear_eq hk zero_le_one le_rfl hposition]
    ring
  have hback := invert_le hsize hc (by omega) hflat
  have hbefore : (k : ℝ) / ((c.size - 1 : ℕ) : ℝ) < (k + 1) / ((c.size - 1 : ℕ) : ℝ) :=
    div_lt_div_of_pos_right (by linarith) hpos
  rw [hinput, hlinear]
  exact ne_of_lt (lt_of_le_of_lt hback hbefore)

/-! ## Nearest samples -/

theorem exists_nearest_eq (hsize : 2 ≤ c.size) (v : ℝ) :
    ∃ i < c.size, c.nearest v = c.sample i := by
  unfold nearest
  exact ⟨_, by omega, rfl⟩

/-- Inputs less than half a step from the first sample have it as their nearest one. -/
theorem nearest_eq_first {v : ℝ} (hlow : 0 ≤ c.position v) (hhigh : c.position v < 1 / 2) :
    c.nearest v = c.sample 0 := by
  have hround : Scalar.round (c.position v) =
      if c.position v < 0 then ((⌈c.position v - 1 / 2⌉ : ℤ) : ℝ)
      else ((⌊c.position v + 1 / 2⌋ : ℤ) : ℝ) := rfl
  have hfloor : ⌊c.position v + 1 / 2⌋ = 0 := by
    rw [Int.floor_eq_zero_iff]
    constructor <;> linarith
  have hindex : Scalar.toNat (Scalar.round (c.position v)) = 0 := by
    rw [hround, if_neg (not_lt.mpr hlow), hfloor, Int.cast_zero]
    exact Nat.floor_zero
  unfold nearest
  rw [hindex, Nat.zero_min]

/-- Two inputs next to the first sample cannot be told apart from it. -/
theorem invert_nearest_ne (hsize : 2 ≤ c.size) :
    ∃ v, c.invert (c.nearest v) ≠ min (max v 0) 1 := by
  have hpos := cast_size_sub_one_pos hsize
  have hzero : c.position (((0 : ℕ) + 0) / ((c.size - 1 : ℕ) : ℝ)) = (0 : ℕ) + 0 :=
    position_div hsize (by omega) le_rfl zero_le_one
  have hquarter : c.position (((0 : ℕ) + 1 / 4) / ((c.size - 1 : ℕ) : ℝ)) = (0 : ℕ) + 1 / 4 :=
    position_div hsize (by omega) (by norm_num) (by norm_num)
  by_contra hall
  simp only [not_exists, not_not] at hall
  have hfirst := hall (((0 : ℕ) + 0) / ((c.size - 1 : ℕ) : ℝ))
  have hnext := hall (((0 : ℕ) + 1 / 4) / ((c.size - 1 : ℕ) : ℝ))
  rw [nearest_eq_first (by rw [hzero]; norm_num) (by rw [hzero]; norm_num)] at hfirst
  rw [nearest_eq_first (by rw [hquarter]; norm_num) (by rw [hquarter]; norm_num), hfirst] at hnext
  have hsame := congrArg (· * ((c.size - 1 : ℕ) : ℝ)) hnext
  simp only [← position_eq, hzero, hquarter] at hsame
  norm_num at hsame

/-- A value between two samples is the nearest sample of no input. -/
theorem nearest_invert_ne (hsize : 2 ≤ c.size) (hc : c.NonDecreasing)
    (hspan : c.sample 0 < c.sample (c.size - 1)) :
    ∃ v, c.nearest (c.invert v) ≠ c.withinSamples v := by
  rcases exists_line hsize (le_of_lt hspan) le_rfl with hfirst | ⟨k, hk, hbelow, habove⟩
  · exact absurd hfirst (ne_of_gt hspan)
  · have hrise : c.sample k < c.sample (k + 1) := lt_of_lt_of_le hbelow habove
    have hstart := hc.le (Nat.zero_le k) (by omega)
    have hend : c.sample (k + 1) ≤ c.sample (c.size - 1) := hc.le (by omega) (by omega)
    refine ⟨(c.sample k + c.sample (k + 1)) / 2, ?_⟩
    rw [withinSamples_of_mem (by linarith) (by linarith)]
    obtain ⟨i, hi, hnearest⟩ :=
      exists_nearest_eq hsize (c.invert ((c.sample k + c.sample (k + 1)) / 2))
    rw [hnearest]
    rcases Nat.lt_or_ge k i with hki | hik
    · have := hc.le hki hi
      linarith
    · have := hc.le hik (by omega)
      linarith

/-! ## When one way undoes the other -/

theorem eval_eq (hsize : 2 ≤ c.size) (toNearest : Bool) (v : ℝ) :
    c.eval toNearest v = if toNearest then c.nearest v else c.linear v := by
  unfold eval
  rw [if_neg (by omega), if_neg (by omega)]

/-- Evaluating and then inverting only limits the inputs on a curve of lines that all rise,
and on no other curve. -/
theorem invert_eval_iff (hsize : 2 ≤ c.size) (hc : c.NonDecreasing) (toNearest : Bool) :
    (∀ v, c.invert (c.eval toNearest v) = min (max v 0) 1) ↔
      toNearest = false ∧ c.Increasing := by
  simp only [eval_eq hsize]
  constructor
  · intro hall
    cases toNearest with
    | true =>
      obtain ⟨v, hv⟩ := invert_nearest_ne hsize
      exact absurd (hall v) hv
    | false =>
      refine ⟨rfl, ?_⟩
      intro k hk
      by_contra hflat
      obtain ⟨v, hv⟩ := invert_linear_ne hsize hc hk (not_lt.mp hflat)
      exact hv (hall v)
  · rintro ⟨rfl, hrises⟩ v
    exact invert_linear hsize hrises v

/-- Inverting and then evaluating only limits the values on a curve of lines, flat or not,
and not on a curve of steps. -/
theorem eval_invert_iff (hsize : 2 ≤ c.size) (hc : c.NonDecreasing)
    (hspan : c.sample 0 < c.sample (c.size - 1)) (toNearest : Bool) :
    (∀ v, c.eval toNearest (c.invert v) = c.withinSamples v) ↔ toNearest = false := by
  simp only [eval_eq hsize]
  constructor
  · intro hall
    cases toNearest with
    | true =>
      obtain ⟨v, hv⟩ := nearest_invert_ne hsize hc hspan
      exact absurd (hall v) hv
    | false => rfl
  · rintro rfl v
    exact linear_invert hsize hc v

end Curve

end ColorPipeline
