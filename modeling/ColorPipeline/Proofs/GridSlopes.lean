-- What a walk through a cell makes of numbers at the points of a grid, over the real numbers. It
-- is their mean over all thresholds, where a threshold stands for one point, the corner that is
-- one step on along the axes whose fractions reach it. No cell is needed to say which point that
-- is. So a walk goes up and down by no more than the numbers do from point to point.
import ColorPipeline.Proofs.GridSearches
import Mathlib.MeasureTheory.Integral.IntervalIntegral.Basic

open scoped ColorPipeline.RealScalar
open MeasureTheory

namespace ColorPipeline

/-! ## Step functions -/

/-- A function with one value inside of an interval. -/
theorem integral_of_const {a b v : ℝ} {f : ℝ → ℝ} (hab : a ≤ b)
    (h : ∀ x ∈ Set.Ioo a b, f x = v) :
    IntervalIntegrable f volume a b ∧ ∫ x in a..b, f x = (b - a) * v := by
  have hsame : Set.EqOn (fun _ => v) f (Set.uIoo a b) := by
    rw [Set.uIoo_of_le hab]
    exact fun x hx => (h x hx).symm
  refine ⟨intervalIntegrable_const.congr_uIoo hsame, ?_⟩
  rw [← intervalIntegral.integral_congr_uIoo hsame, intervalIntegral.integral_const, smul_eq_mul]

/-- One piece more of a step function. -/
theorem integral_append {a b c s v : ℝ} {f : ℝ → ℝ}
    (hleft : IntervalIntegrable f volume a b ∧ ∫ x in a..b, f x = s) (hbc : b ≤ c)
    (h : ∀ x ∈ Set.Ioo b c, f x = v) :
    IntervalIntegrable f volume a c ∧ ∫ x in a..c, f x = s + (c - b) * v := by
  obtain ⟨hright, hvalue⟩ := integral_of_const hbc h
  refine ⟨hleft.1.trans hright, ?_⟩
  rw [← intervalIntegral.integral_add_adjacent_intervals hleft.1 hright, hleft.2, hvalue]

namespace Grid

variable {g : Grid ℝ} {p q : Rgb ℝ} {u v : Rgb ℕ → ℝ}

/-! ## Walks over numbers -/

/-- What a walk makes of a number for each point. -/
noncomputable def walked (g : Grid ℝ) (u : Rgb ℕ → ℝ) (p : Rgb ℝ) : ℝ :=
  let cell := g.place p
  ∑ c, walkWeight (axisOrder cell.fraction) cell.fraction c * u (stepOn cell.base c)

/-- The point that a threshold between 0 and 1 stands for. -/
noncomputable def thresholdPoint (size : ℕ) (p : Rgb ℝ) (t : ℝ) : Rgb ℕ :=
  p.map fun v => ⌊steps size v + (1 - t)⌋₊

theorem thresholdPoint_eq (hsize : 2 ≤ g.size) (p : Rgb ℝ) {t : ℝ} (ht : t ∈ Set.Ioo (0 : ℝ) 1) :
    thresholdPoint g.size p t =
      stepOn (g.place p).base ((g.place p).fraction.map fun f => decide (t ≤ f)) := by
  refine Rgb.eq_of_get_eq fun ch => ?_
  obtain ⟨hlow, hhigh⟩ := ht
  have hfraction := get_fraction g p ch
  have hnonneg := fraction_nonneg g p ch
  have hle := fraction_le_one hsize p ch
  rw [get_stepOn, thresholdPoint, Rgb.get_map, Rgb.get_map,
    Nat.floor_eq_iff (add_nonneg (steps_nonneg _ _) (by linarith)), Nat.cast_add]
  by_cases hreached : t ≤ (g.place p).fraction.get ch
  · rw [decide_eq_true hreached, Bool.toNat_true, Nat.cast_one]
    constructor <;> linarith
  · rw [decide_eq_false hreached, Bool.toNat_false, Nat.cast_zero]
    constructor <;> linarith

theorem eq_along {f : Rgb ℝ} {axes : List Channel} {t : ℝ}
    (h : ∀ ch, t ≤ f.get ch ↔ ch ∈ axes) : (f.map fun v => decide (t ≤ v)) = along axes := by
  refine Rgb.eq_of_get_eq fun ch => ?_
  rw [Rgb.get_map, along, Rgb.get_ofFn, List.contains_eq_mem, decide_eq_decide]
  exact h ch

/-- The thresholds between two neighbouring fractions stand for one corner of the walk. -/
theorem integral_corners {f : Rgb ℝ} {o : AxisOrder} (h : o.Descends f) (hlow : ∀ ch, 0 ≤ f.get ch)
    (hhigh : ∀ ch, f.get ch ≤ 1) (u : Rgb Bool → ℝ) :
    IntervalIntegrable (fun t => u (f.map fun v => decide (t ≤ v))) volume 0 1 ∧
      ∫ t in (0 : ℝ)..1, u (f.map fun v => decide (t ≤ v)) = ∑ c, walkWeight o f c * u c := by
  have hnodup := h.nodup
  simp only [List.nodup_cons, List.mem_cons, List.not_mem_nil, or_false, not_or] at hnodup
  obtain ⟨⟨hsecond, hthird⟩, hthird', _⟩ := hnodup
  have hle := h.second_le
  have hle' := h.third_le
  have hall := integral_of_const (f := fun t => u (f.map fun v => decide (t ≤ v)))
      (v := u (Rgb.gray true)) (hlow o.third) fun t ht => by
    refine congrArg u (Rgb.eq_of_get_eq fun ch => ?_)
    rw [Rgb.get_map, Rgb.get_gray, decide_eq_true_iff]
    exact (le_of_lt ht.2).trans (h.third_le_get ch)
  have htwo := integral_append hall hle' (v := u (along [o.first, o.second])) fun t ht => by
    obtain ⟨ht, ht'⟩ := ht
    refine congrArg u (eq_along fun ch => ?_)
    obtain rfl | rfl | rfl := h.eq_first_or_second_or_third ch
    · exact iff_of_true (by linarith) (by simp)
    · exact iff_of_true (by linarith) (by simp)
    · exact iff_of_false (by linarith) (by simp [Ne.symm hthird, Ne.symm hthird'])
  have hone := integral_append htwo hle (v := u (along [o.first])) fun t ht => by
    obtain ⟨ht, ht'⟩ := ht
    refine congrArg u (eq_along fun ch => ?_)
    obtain rfl | rfl | rfl := h.eq_first_or_second_or_third ch
    · exact iff_of_true (by linarith) (by simp)
    · exact iff_of_false (by linarith) (by simp [Ne.symm hsecond])
    · exact iff_of_false (by linarith) (by simp [Ne.symm hthird])
  have hnone := integral_append hone (hhigh o.first) (v := u (along [])) fun t ht => by
    refine congrArg u (eq_along fun ch => iff_of_false ?_ List.not_mem_nil)
    exact not_le.mpr ((h.le_first ch).trans_lt ht.1)
  refine ⟨hnone.1, hnone.2.trans ?_⟩
  rw [sum_walkWeight]
  ring

/-- A walk is a mean over thresholds. -/
theorem walked_eq_integral (hsize : 2 ≤ g.size) (u : Rgb ℕ → ℝ) (p : Rgb ℝ) :
    IntervalIntegrable (fun t => u (thresholdPoint g.size p t)) volume 0 1 ∧
      g.walked u p = ∫ t in (0 : ℝ)..1, u (thresholdPoint g.size p t) := by
  obtain ⟨hintegrable, hvalue⟩ := integral_corners (axisOrder_descends (g.place p).fraction)
    (fraction_nonneg g p) (fraction_le_one hsize p) fun c => u (stepOn (g.place p).base c)
  have hsame : ∀ t ∈ Set.Ioo (0 : ℝ) 1, u (stepOn (g.place p).base
      ((g.place p).fraction.map fun f => decide (t ≤ f))) = u (thresholdPoint g.size p t) :=
    fun t ht => congrArg u (thresholdPoint_eq hsize p ht).symm
  refine ⟨?_, ?_⟩
  · refine hintegrable.congr_uIoo ?_
    rw [Set.uIoo_of_le zero_le_one]
    exact hsame
  · rw [← intervalIntegral.integral_congr_Ioo_of_le zero_le_one hsame]
    exact hvalue.symm

theorem walked_le_walked (hsize : 2 ≤ g.size)
    (h : ∀ t ∈ Set.Ioo (0 : ℝ) 1, u (thresholdPoint g.size p t) ≤ v (thresholdPoint g.size q t)) :
    g.walked u p ≤ g.walked v q := by
  obtain ⟨hu, hwalked⟩ := walked_eq_integral hsize u p
  obtain ⟨hv, hwalked'⟩ := walked_eq_integral hsize v q
  rw [hwalked, hwalked']
  exact intervalIntegral.integral_mono_on_of_le_Ioo zero_le_one hu hv h

/-! ## Slopes -/

/-- Multiples of the numbers of a point come through a walk as multiples of the steps. -/
theorem walked_add_linear (hsize : 2 ≤ g.size) (u : Rgb ℕ → ℝ) (s : Channel → ℝ) (p : Rgb ℝ) :
    g.walked (fun i => u i + ∑ ch, s ch * (i.get ch : ℝ)) p =
      g.walked u p + ∑ ch, s ch * steps g.size (p.get ch) := by
  let w := CornerWeights.walked (axisOrder_descends (g.place p).fraction) (fraction_nonneg g p)
    (fraction_le_one hsize p)
  have hwalked : ∀ u, g.walked u p = w.mean fun c => u (stepOn (g.place p).base c) := fun _ => rfl
  have hsteps : ∀ ch, w.mean (fun c => ((stepOn (g.place p).base c).get ch : ℝ)) =
      steps g.size (p.get ch) := by
    intro ch
    have hbalance : w.mean (fun c => ((c.get ch).toNat : ℝ)) = (g.place p).fraction.get ch :=
      w.balance ch
    simp only [get_stepOn, Nat.cast_add, w.mean_add, w.mean_const]
    rw [hbalance, get_fraction, add_sub_cancel]
  simp only [hwalked, sum_channels, w.mean_add, w.mean_mul, hsteps]

/-- The numbers change by no more than `most` from each point to the next one along an axis. -/
def Varies (size : ℕ) (u : Rgb ℕ → ℝ) (most : ℝ) : Prop :=
  ∀ (i : Rgb ℕ) (ch : Channel), (∀ c, i.get c < size) → i.get ch + 1 < size →
    |u (i.set ch (i.get ch + 1)) - u i| ≤ most

variable {most : ℝ} {i j : Rgb ℕ} {size : ℕ}

/-- Along an axis they change by no more than that for each step. -/
theorem Varies.along_axis (h : Varies size u most) (hi : ∀ c, i.get c < size) (ch : Channel)
    {a b : ℕ} (ha : a < size) (hb : b < size) :
    |u (i.set ch a) - u (i.set ch b)| ≤ most * |(a : ℝ) - b| := by
  have hset : ∀ n < size, ∀ c, (i.set ch n).get c < size := by
    intro n hn c
    rw [Rgb.get_set, Function.update_apply]
    split
    · exact hn
    · exact hi c
  have hup : ∀ b n, b + n < size → |u (i.set ch (b + n)) - u (i.set ch b)| ≤ most * n := by
    intro b n hn
    induction n with
    | zero => rw [Nat.add_zero, sub_self, abs_zero, Nat.cast_zero, mul_zero]
    | succ n ih =>
      have hown : (i.set ch (b + n)).get ch = b + n := by rw [Rgb.get_set, Function.update_self]
      have hstep := h (i.set ch (b + n)) ch (hset _ (by omega)) (by omega)
      rw [hown, Rgb.set_set] at hstep
      have hbefore := ih (by omega)
      have hsum := abs_sub_le (u (i.set ch (b + n + 1))) (u (i.set ch (b + n))) (u (i.set ch b))
      rw [← Nat.add_assoc, Nat.cast_succ]
      linarith
  rcases le_total b a with hle | hle
  · obtain ⟨n, rfl⟩ := Nat.exists_eq_add_of_le hle
    rw [Nat.cast_add, add_sub_cancel_left, Nat.abs_cast]
    exact hup b n ha
  · obtain ⟨n, rfl⟩ := Nat.exists_eq_add_of_le hle
    rw [abs_sub_comm, abs_sub_comm (a : ℝ), Nat.cast_add, add_sub_cancel_left, Nat.abs_cast]
    exact hup a n hb

theorem Varies.abs_sub_le (h : Varies size u most) (hi : ∀ c, i.get c < size)
    (hj : ∀ c, j.get c < size) : |u i - u j| ≤ most * ∑ ch, |(i.get ch : ℝ) - j.get ch| := by
  obtain ⟨r, g, b⟩ := i
  obtain ⟨r', g', b'⟩ := j
  -- one axis after the other
  have hred : |u ⟨r, g, b⟩ - u ⟨r', g, b⟩| ≤ most * |(r : ℝ) - r'| :=
    h.along_axis hi .red (hi .red) (hj .red)
  have hgreen : |u ⟨r', g, b⟩ - u ⟨r', g', b⟩| ≤ most * |(g : ℝ) - g'| := by
    refine h.along_axis (i := ⟨r', g, b⟩) (fun c => ?_) .green (hi .green) (hj .green)
    cases c
    · exact hj .red
    · exact hi .green
    · exact hi .blue
  have hblue : |u ⟨r', g', b⟩ - u ⟨r', g', b'⟩| ≤ most * |(b : ℝ) - b'| :=
    h.along_axis (i := ⟨r', g', b'⟩) hj .blue (hi .blue) (hj .blue)
  calc |u ⟨r, g, b⟩ - u ⟨r', g', b'⟩|
      ≤ |u ⟨r, g, b⟩ - u ⟨r', g, b⟩| + |u ⟨r', g, b⟩ - u ⟨r', g', b'⟩| := abs_sub_le _ _ _
    _ ≤ |u ⟨r, g, b⟩ - u ⟨r', g, b⟩| +
        (|u ⟨r', g, b⟩ - u ⟨r', g', b⟩| + |u ⟨r', g', b⟩ - u ⟨r', g', b'⟩|) :=
      add_le_add_right (abs_sub_le _ _ _) _
    _ ≤ most * |(r : ℝ) - r'| + (most * |(g : ℝ) - g'| + most * |(b : ℝ) - b'|) :=
      add_le_add hred (add_le_add hgreen hblue)
    _ = most * ∑ ch, |((⟨r, g, b⟩ : Rgb ℕ).get ch : ℝ) - (⟨r', g', b'⟩ : Rgb ℕ).get ch| := by
      rw [sum_channels]
      simp only [Rgb.get]
      ring

theorem thresholdPoint_lt (hsize : 2 ≤ size) (p : Rgb ℝ) {t : ℝ} (ht : t ∈ Set.Ioo (0 : ℝ) 1)
    (ch : Channel) : (thresholdPoint size p t).get ch < size := by
  obtain ⟨hlow, hhigh⟩ := ht
  have hnonneg := steps_nonneg size (p.get ch)
  have hle := steps_le size (p.get ch)
  rw [Nat.cast_sub (by omega), Nat.cast_one] at hle
  rw [thresholdPoint, Rgb.get_map, Nat.floor_lt (by linarith)]
  linarith

/-- Walks change by no more than the numbers do, for each step of the way along the axes. -/
theorem Varies.walked_sub_le (h : Varies g.size u most) (hsize : 2 ≤ g.size) (p q : Rgb ℝ) :
    g.walked u p - g.walked u q ≤
      most * ∑ ch, |steps g.size (p.get ch) - steps g.size (q.get ch)| := by
  -- the side on which the first colour is stays the same for the points of all thresholds
  let side (ch : Channel) : ℝ := if steps g.size (q.get ch) ≤ steps g.size (p.get ch) then 1 else -1
  have hsteps : ∀ ch, |steps g.size (p.get ch) - steps g.size (q.get ch)| =
      side ch * (steps g.size (p.get ch) - steps g.size (q.get ch)) := by
    intro ch
    unfold side
    split
    · rename_i hle
      rw [one_mul, abs_of_nonneg (sub_nonneg.mpr hle)]
    · rename_i hlt
      rw [neg_one_mul, abs_of_neg (sub_neg.mpr (not_le.mp hlt))]
  have hpoints : ∀ t ch,
      |((thresholdPoint g.size p t).get ch : ℝ) - (thresholdPoint g.size q t).get ch| =
      side ch * ((thresholdPoint g.size p t).get ch - (thresholdPoint g.size q t).get ch) := by
    intro t ch
    unfold side
    rw [thresholdPoint, thresholdPoint, Rgb.get_map, Rgb.get_map]
    split
    · rename_i hle
      rw [one_mul, abs_of_nonneg]
      exact sub_nonneg.mpr (Nat.cast_le.mpr (Nat.floor_mono (by linarith)))
    · rename_i hlt
      rw [neg_one_mul, abs_of_nonpos]
      exact sub_nonpos.mpr (Nat.cast_le.mpr (Nat.floor_mono (by linarith)))
  have hwalked := walked_le_walked (g := g) (p := p) (q := q) hsize
    (u := fun i => u i + ∑ ch, -(most * side ch) * (i.get ch : ℝ))
    (v := fun i => u i + ∑ ch, -(most * side ch) * (i.get ch : ℝ)) fun t ht => by
      have hbound := (le_abs_self _).trans
        (h.abs_sub_le (thresholdPoint_lt hsize p ht) (thresholdPoint_lt hsize q ht))
      simp only [hpoints, sum_channels] at hbound ⊢
      linarith
  rw [walked_add_linear hsize, walked_add_linear hsize] at hwalked
  simp only [hsteps, sum_channels] at hwalked ⊢
  linarith

theorem Varies.abs_walked_sub_le (h : Varies g.size u most) (hsize : 2 ≤ g.size) (p q : Rgb ℝ) :
    |g.walked u p - g.walked u q| ≤
      most * ∑ ch, |steps g.size (p.get ch) - steps g.size (q.get ch)| := by
  refine abs_sub_le_iff.mpr ⟨h.walked_sub_le hsize p q, ?_⟩
  simp only [abs_sub_comm (steps g.size (p.get _))]
  exact h.walked_sub_le hsize q p

/-! ## Entries that nearly follow a linear map -/

variable {b : Matrix Channel Channel ℝ} {part : ℝ}

/-- From each point to the next one along an axis, the entries change as a linear map does, up to
a part of the way between the points. The way is measured where the map comes from. -/
def IsNearLinear (g : Grid ℝ) (b : Matrix Channel Channel ℝ) (part : ℝ) : Prop :=
  ∀ (i : Rgb ℕ) (axis : Channel), g.HasPoint i → i.get axis + 1 < g.size → ∀ ch,
    |b⁻¹.mulVec ((g.entryAt (i.set axis (i.get axis + 1))).get - (g.entryAt i).get) ch -
      (Pi.single axis (1 / ((g.size : ℝ) - 1)) : Channel → ℝ) ch| ≤ part / ((g.size : ℝ) - 1)

/-- From the colour of a point to the input that the linear map takes to its entry. -/
noncomputable def bend (g : Grid ℝ) (b : Matrix Channel Channel ℝ) (ch : Channel) (i : Rgb ℕ) : ℝ :=
  b⁻¹.mulVec (g.entryAt i).get ch - (colorOf g.size i).get ch

theorem size_sub_one_pos (hsize : 2 ≤ size) : 0 < (size : ℝ) - 1 := by
  have htwo : (2 : ℝ) ≤ size := Nat.cast_le.mpr hsize
  linarith

theorem get_colorOf (hsize : 2 ≤ size) (i : Rgb ℕ) (ch : Channel) :
    (colorOf size i).get ch = i.get ch / ((size : ℝ) - 1) := by
  rw [colorOf, Rgb.get_map, Lut3D.coordinate_eq, inputAt, Nat.cast_sub (by omega), Nat.cast_one]

theorem colorOf_next_sub (hsize : 2 ≤ size) (i : Rgb ℕ) (axis ch : Channel) :
    (colorOf size (i.set axis (i.get axis + 1))).get ch - (colorOf size i).get ch =
      (Pi.single axis (1 / ((size : ℝ) - 1)) : Channel → ℝ) ch := by
  rw [get_colorOf hsize, get_colorOf hsize, ← sub_div, Rgb.get_set, Function.update_apply,
    Pi.single_apply]
  split
  · rename_i hch
    rw [hch, Nat.cast_succ, add_sub_cancel_left]
  · rw [sub_self, zero_div]

theorem varies_bend (hsize : 2 ≤ g.size) (h : g.IsNearLinear b part) (ch : Channel) :
    Varies g.size (g.bend b ch) (part / ((g.size : ℝ) - 1)) := by
  intro i axis hi hnext
  have hbend : g.bend b ch (i.set axis (i.get axis + 1)) - g.bend b ch i =
      b⁻¹.mulVec ((g.entryAt (i.set axis (i.get axis + 1))).get - (g.entryAt i).get) ch -
        (Pi.single axis (1 / ((g.size : ℝ) - 1)) : Channel → ℝ) ch := by
    rw [← colorOf_next_sub hsize, Matrix.mulVec_sub, Pi.sub_apply, bend, bend]
    ring
  rw [hbend]
  exact h i axis hi hnext ch

/-- The values of an affine map are not off at all. -/
theorem isNearLinear_of_affine (hsize : 2 ≤ g.size) (hb : b.det ≠ 0) {offset : Rgb ℝ}
    (hentry : ∀ i, g.HasPoint i → g.entryAt i = affineMap b offset (colorOf g.size i)) :
    g.IsNearLinear b 0 := by
  intro i axis hi hnext ch
  have hpoint : g.HasPoint (i.set axis (i.get axis + 1)) := by
    intro c
    rw [Rgb.get_set, Function.update_apply]
    split
    · exact hnext
    · exact hi c
  rw [hentry _ hpoint, hentry _ hi, get_affineMap_sub, Matrix.mulVec_mulVec,
    Matrix.nonsing_inv_mul b hb.isUnit, Matrix.one_mulVec, Pi.sub_apply, colorOf_next_sub hsize,
    sub_self, abs_zero, zero_div]

theorem mean_colorOf (hsize : 2 ≤ g.size) (p : Rgb ℝ) (w : CornerWeights (g.place p).fraction)
    (ch : Channel) : w.mean (fun c => (colorOf g.size (stepOn (g.place p).base c)).get ch) =
      (p.map fun v => min (max v 0) 1).get ch := by
  rw [← color_colorOf hsize p w, CornerWeights.color, Rgb.get_ofFn]

/-- A mean of corners is the value of the linear map at the input, moved by the mean of the
bends. -/
theorem get_color_eq (hsize : 2 ≤ g.size) (hb : b.det ≠ 0) (p : Rgb ℝ)
    (w : CornerWeights (g.place p).fraction) :
    (w.color (g.cornerAt (g.place p).base)).get =
      b.mulVec ((p.map fun v => min (max v 0) 1).get +
        fun ch => w.mean fun c => g.bend b ch (stepOn (g.place p).base c)) := by
  have hentry : ∀ i, (g.entryAt i).get =
      b.mulVec fun ch => (colorOf g.size i).get ch + g.bend b ch i := by
    intro i
    have hinput : (fun ch => (colorOf g.size i).get ch + g.bend b ch i) =
        b⁻¹.mulVec (g.entryAt i).get := funext fun ch => add_sub_cancel _ _
    rw [hinput, Matrix.mulVec_mulVec, Matrix.mul_nonsing_inv b hb.isUnit, Matrix.one_mulVec]
  funext ch
  rw [CornerWeights.color, Rgb.get_ofFn]
  simp only [cornerAt, hentry, Matrix.mulVec, dotProduct, sum_channels, w.mean_add, w.mean_mul,
    mean_colorOf hsize, Pi.add_apply]

theorem get_tetrahedral_eq (hsize : 2 ≤ g.size) (hb : b.det ≠ 0) (p : Rgb ℝ) :
    (g.tetrahedral p).get = b.mulVec ((p.map fun v => min (max v 0) 1).get +
      fun ch => g.walked (g.bend b ch) p) := by
  rw [tetrahedral_eq_color hsize, get_color_eq hsize hb]
  rfl

theorem steps_sub_of_inCube (hsize : 2 ≤ size) {p q : Rgb ℝ} (hp : p.InCube) (hq : q.InCube)
    (ch : Channel) : |steps size (p.get ch) - steps size (q.get ch)| =
      ((size : ℝ) - 1) * |p.get ch - q.get ch| := by
  have hlast : ((size - 1 : ℕ) : ℝ) = (size : ℝ) - 1 := by
    rw [Nat.cast_sub (by omega), Nat.cast_one]
  rw [steps, steps, max_eq_left (hp ch).1, max_eq_left (hq ch).1, min_eq_left (hp ch).2,
    min_eq_left (hq ch).2, ← sub_mul, abs_mul, Nat.abs_cast, hlast, mul_comm]

theorem abs_walked_bend_sub_le (hsize : 2 ≤ g.size) (h : g.IsNearLinear b part) (hp : p.InCube)
    (hq : q.InCube) (ch : Channel) :
    |g.walked (g.bend b ch) p - g.walked (g.bend b ch) q| ≤
      part * ∑ ch, |p.get ch - q.get ch| := by
  refine ((varies_bend hsize h ch).abs_walked_sub_le hsize p q).trans_eq ?_
  simp only [steps_sub_of_inCube hsize hp hq, ← Finset.mul_sum]
  rw [← mul_assoc, div_mul_cancel₀ _ (ne_of_gt (size_sub_one_pos hsize))]

/-- So the values between the points follow the linear map as the entries do. -/
theorem follows_of_isNearLinear (hsize : 2 ≤ g.size) (hb : b.det ≠ 0) (h : g.IsNearLinear b part) :
    g.Follows b part := by
  have : Nonempty Channel := ⟨.red⟩
  intro p q hp hq
  refine ⟨fun ch => g.walked (g.bend b ch) p - g.walked (g.bend b ch) q, ?_, ?_⟩
  · rw [pi_norm_le_iff_of_nonempty]
    exact abs_walked_bend_sub_le hsize h hp hq
  · rw [get_tetrahedral_eq hsize hb, get_tetrahedral_eq hsize hb, ← Matrix.mulVec_sub, hp.limited,
      hq.limited]
    congr 1
    funext ch
    simp only [Pi.add_apply, Pi.sub_apply]
    ring

end Grid

end ColorPipeline
