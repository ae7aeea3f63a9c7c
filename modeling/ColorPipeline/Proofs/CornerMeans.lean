-- What is found between the entries of a grid, over the real numbers, is a mean of the eight
-- corners of a cell. The weights are those with which the corners themselves balance at the
-- input. So a mean of the values of an affine map is its value at the input, and where the input
-- is a corner no other corner counts.
import ColorPipeline.Proofs.GridListings
import ColorPipeline.Proofs.IdentityTables

open scoped ColorPipeline.RealScalar

namespace ColorPipeline

theorem Rgb.eq_of_get_eq {S : Type} {p q : Rgb S} (h : ∀ ch, p.get ch = q.get ch) : p = q := by
  obtain ⟨red, green, blue⟩ := p
  exact congr (congr (congrArg mk (h .red)) (h .green)) (h .blue)

/-! ## Corners -/

/-- The corners of a cell, by the axes along which they are one step on. -/
def cornerEquiv : Bool × Bool × Bool ≃ Rgb Bool where
  toFun c := ⟨c.1, c.2.1, c.2.2⟩
  invFun c := (c.red, c.green, c.blue)

instance : Fintype (Rgb Bool) := Fintype.ofEquiv _ cornerEquiv

theorem sum_corners (u : Rgb Bool → ℝ) :
    ∑ c, u c = u ⟨true, true, true⟩ + u ⟨true, true, false⟩ +
      (u ⟨true, false, true⟩ + u ⟨true, false, false⟩) +
      (u ⟨false, true, true⟩ + u ⟨false, true, false⟩ +
        (u ⟨false, false, true⟩ + u ⟨false, false, false⟩)) := by
  rw [← cornerEquiv.sum_comp]
  simp only [Fintype.sum_prod_type, Fintype.sum_bool]
  rfl

/-- The corner of the axes given. -/
def along (axes : List Channel) : Rgb Bool := Rgb.ofFn axes.contains

/-- Weights of the corners of a cell with which they balance at a place in it. -/
structure CornerWeights (f : Rgb ℝ) where
  weight : Rgb Bool → ℝ
  nonneg : ∀ c, 0 ≤ weight c
  total : ∑ c, weight c = 1
  balance : ∀ ch, ∑ c, weight c * ((c.get ch).toNat : ℝ) = f.get ch

namespace CornerWeights

variable {f : Rgb ℝ} (w : CornerWeights f)

/-- The mean of a number for each corner. -/
noncomputable def mean (u : Rgb Bool → ℝ) : ℝ := ∑ c, w.weight c * u c

/-- The mean of a colour for each corner, with the same weights in all channels. -/
noncomputable def color (u : Rgb Bool → Rgb ℝ) : Rgb ℝ :=
  Rgb.ofFn fun ch => w.mean fun c => (u c).get ch

theorem mean_const (v : ℝ) : w.mean (fun _ => v) = v := by
  unfold mean
  rw [← Finset.sum_mul, w.total, one_mul]

theorem mean_add (u v : Rgb Bool → ℝ) : w.mean (fun c => u c + v c) = w.mean u + w.mean v := by
  simp only [mean, mul_add, Finset.sum_add_distrib]

theorem mean_mul (a : ℝ) (u : Rgb Bool → ℝ) : w.mean (fun c => a * u c) = a * w.mean u := by
  simp only [mean, Finset.mul_sum, mul_left_comm]

theorem mean_mono {u v : Rgb Bool → ℝ} (h : ∀ c, u c ≤ v c) : w.mean u ≤ w.mean v :=
  Finset.sum_le_sum fun c _ => mul_le_mul_of_nonneg_left (h c) (w.nonneg c)

/-- A mean is within the bounds of its numbers. -/
theorem mean_mem_Icc {lo hi : ℝ} {u : Rgb Bool → ℝ} (h : ∀ c, u c ∈ Set.Icc lo hi) :
    w.mean u ∈ Set.Icc lo hi := by
  constructor
  · exact (w.mean_const lo).symm.trans_le (w.mean_mono fun c => (h c).1)
  · exact (w.mean_mono fun c => (h c).2).trans_eq (w.mean_const hi)

/-- As the corners balance at the place, so do the inputs that are theirs. -/
theorem mean_inputAt (size : ℕ) (k : ℝ) (ch : Channel) :
    w.mean (fun c => Grid.inputAt size (k + (c.get ch).toNat)) =
      Grid.inputAt size (k + f.get ch) := by
  have hinput : ∀ t : ℝ, Grid.inputAt size (k + t) =
      1 / ((size - 1 : ℕ) : ℝ) * k + 1 / ((size - 1 : ℕ) : ℝ) * t := by
    intro t
    unfold Grid.inputAt
    ring
  have hbalance : w.mean (fun c => ((c.get ch).toNat : ℝ)) = f.get ch := w.balance ch
  simp only [hinput, mean_add, mean_mul, mean_const, hbalance]

/-- At a corner, those on the other side along an axis do not count. -/
theorem weight_eq_zero {own c : Rgb Bool} {ch : Channel} (h : f.get ch = (own.get ch).toNat)
    (hc : c.get ch ≠ own.get ch) : w.weight c = 0 := by
  -- all of those together have what the fraction leaves for their side, which is nothing
  have hsum : ∑ c, w.weight c * (if c.get ch = own.get ch then 0 else 1) = 0 := by
    have hbalance := (w.balance ch).trans h
    cases hown : own.get ch with
    | false =>
      rw [hown] at hbalance
      refine Eq.trans (Finset.sum_congr rfl fun c _ => ?_) (hbalance.trans Nat.cast_zero)
      cases c.get ch <;> simp
    | true =>
      rw [hown] at hbalance
      have hrest := sub_eq_zero_of_eq (w.total.trans (hbalance.trans Nat.cast_one).symm)
      rw [← Finset.sum_sub_distrib] at hrest
      refine Eq.trans (Finset.sum_congr rfl fun c _ => ?_) hrest
      cases c.get ch <;> simp
  have hnonneg : ∀ c ∈ Finset.univ,
      0 ≤ w.weight c * (if c.get ch = own.get ch then 0 else 1) := by
    intro c _
    exact mul_nonneg (w.nonneg c) (by split <;> norm_num)
  have hterm := (Finset.sum_eq_zero_iff_of_nonneg hnonneg).mp hsum c (Finset.mem_univ c)
  rwa [if_neg hc, mul_one] at hterm

/-- At a corner the mean is the value of the corner, since no other corner has a weight. -/
theorem mean_at_corner {own : Rgb Bool} (h : ∀ ch, f.get ch = (own.get ch).toNat)
    (u : Rgb Bool → ℝ) : w.mean u = u own := by
  have hterm : ∀ c, w.weight c * u c = w.weight c * u own := by
    intro c
    by_cases hc : c = own
    · rw [hc]
    · obtain ⟨ch, hch⟩ : ∃ ch, c.get ch ≠ own.get ch :=
        not_forall.mp (mt Rgb.eq_of_get_eq hc)
      rw [w.weight_eq_zero (h ch) hch, zero_mul, zero_mul]
  exact (Finset.sum_congr rfl fun c _ => hterm c).trans (w.mean_const (u own))

/-! ## Blends -/

/-- The part that a corner has in a blend along one axis. -/
noncomputable def share (t : ℝ) (on : Bool) : ℝ := if on then t else 1 - t

theorem share_nonneg {t : ℝ} (ht : 0 ≤ t) (ht' : t ≤ 1) (on : Bool) : 0 ≤ share t on := by
  cases on with
  | false => exact sub_nonneg.mpr ht'
  | true => exact ht

/-- The weights of blends along one axis after the other. -/
noncomputable def blended (f : Rgb ℝ) (hlow : ∀ ch, 0 ≤ f.get ch) (hhigh : ∀ ch, f.get ch ≤ 1) :
    CornerWeights f where
  weight c := share f.red c.red * share f.green c.green * share f.blue c.blue
  nonneg c := mul_nonneg (mul_nonneg (share_nonneg (hlow .red) (hhigh .red) _)
    (share_nonneg (hlow .green) (hhigh .green) _)) (share_nonneg (hlow .blue) (hhigh .blue) _)
  total := by
    rw [sum_corners]
    simp only [share, Bool.false_eq_true, if_true, if_false]
    ring
  balance ch := by
    rw [sum_corners]
    cases ch <;> simp [share, Rgb.get] <;> ring

end CornerWeights

/-! ## Walks -/

namespace Grid

/-- An order of the axes that takes each of them once, and never a larger fraction after a
smaller one. -/
structure AxisOrder.Descends (o : AxisOrder) (f : Rgb ℝ) : Prop where
  nodup : [o.first, o.second, o.third].Nodup
  second_le : f.get o.second ≤ f.get o.first
  third_le : f.get o.third ≤ f.get o.second

theorem axisOrder_descends (f : Rgb ℝ) : (axisOrder f).Descends f :=
  ⟨axisOrder_nodup f, (axisOrder_sorted f).2, (axisOrder_sorted f).1⟩

namespace AxisOrder.Descends

variable {o o' : AxisOrder} {f : Rgb ℝ}

theorem eq_first_or_second_or_third (h : o.Descends f) (ch : Channel) :
    ch = o.first ∨ ch = o.second ∨ ch = o.third := by
  have hnodup := h.nodup
  obtain ⟨first, second, third⟩ := o
  clear h
  revert hnodup
  cases first <;> cases second <;> cases third <;> cases ch <;> decide

theorem le_first (h : o.Descends f) (ch : Channel) : f.get ch ≤ f.get o.first := by
  obtain rfl | rfl | rfl := h.eq_first_or_second_or_third ch
  · exact le_rfl
  · exact h.second_le
  · exact h.third_le.trans h.second_le

theorem third_le_get (h : o.Descends f) (ch : Channel) : f.get o.third ≤ f.get ch := by
  obtain rfl | rfl | rfl := h.eq_first_or_second_or_third ch
  · exact h.third_le.trans h.second_le
  · exact h.third_le
  · exact le_rfl

theorem sum_eq (h : o.Descends f) :
    f.get o.first + f.get o.second + f.get o.third = f.red + f.green + f.blue := by
  have hnodup := h.nodup
  obtain ⟨first, second, third⟩ := o
  cases first <;> cases second <;> cases third <;>
    first
    | exact absurd hnodup (by decide)
    | simp only [Rgb.get] <;> ring

/-- All such orders come past the same fractions. -/
theorem get_eq (h : o.Descends f) (h' : o'.Descends f) : f.get o.first = f.get o'.first ∧
    f.get o.second = f.get o'.second ∧ f.get o.third = f.get o'.third := by
  have hfirst := le_antisymm (h'.le_first o.first) (h.le_first o'.first)
  have hthird := le_antisymm (h.third_le_get o'.third) (h'.third_le_get o.third)
  have hsum := h.sum_eq.trans h'.sum_eq.symm
  exact ⟨hfirst, by linarith, hthird⟩

/-- Where the first axis of two such orders differs, its fraction is that of the second. -/
theorem second_eq_first (h : o.Descends f) (h' : o'.Descends f) (hne : o.first ≠ o'.first) :
    f.get o.second = f.get o.first := by
  refine le_antisymm h.second_le ?_
  rw [(h.get_eq h').1]
  obtain heq | heq | heq := h.eq_first_or_second_or_third o'.first
  · exact absurd heq.symm hne
  · rw [heq]
  · rw [heq]
    exact h.third_le

/-- Two orders of one place differ only where fractions are equal. -/
theorem third_eq_second (h : o.Descends f) (h' : o'.Descends f) (hne : o.third ≠ o'.third) :
    f.get o.third = f.get o.second := by
  refine le_antisymm h.third_le ?_
  rw [(h.get_eq h').2.2]
  obtain heq | heq | heq := h.eq_first_or_second_or_third o'.third
  · rw [heq]
    exact h.second_le
  · rw [heq]
  · exact absurd heq.symm hne

/-- The axes before the third one are the others. -/
theorem along_eq (h : o.Descends f) :
    along [o.first, o.second] = Rgb.ofFn fun ch => decide (ch ≠ o.third) := by
  have hnodup := h.nodup
  obtain ⟨first, second, third⟩ := o
  clear h
  revert hnodup
  cases first <;> cases second <;> cases third <;> decide

end AxisOrder.Descends

/-- The corners that a walk comes past, each with what its edge counts by more than the next. -/
noncomputable def walkWeight (o : AxisOrder) (f : Rgb ℝ) (c : Rgb Bool) : ℝ :=
  (if c = along [] then 1 - f.get o.first else 0) +
    (if c = along [o.first] then f.get o.first - f.get o.second else 0) +
    (if c = along [o.first, o.second] then f.get o.second - f.get o.third else 0) +
    if c = Rgb.gray true then f.get o.third else 0

/-- Only four corners of a walk have weights. -/
theorem sum_walkWeight (o : AxisOrder) (f : Rgb ℝ) (u : Rgb Bool → ℝ) :
    ∑ c, walkWeight o f c * u c = (1 - f.get o.first) * u (along []) +
      (f.get o.first - f.get o.second) * u (along [o.first]) +
      (f.get o.second - f.get o.third) * u (along [o.first, o.second]) +
      f.get o.third * u (Rgb.gray true) := by
  simp only [walkWeight, add_mul, ite_mul, zero_mul, Finset.sum_add_distrib, Finset.sum_ite_eq',
    Finset.mem_univ, if_true]

/-- Where the orders differ, the corner that only one of them comes past does not count. -/
theorem sum_walkWeight_eq {o o' : AxisOrder} {f : Rgb ℝ} (h : o.Descends f)
    (h' : o'.Descends f) (u : Rgb Bool → ℝ) :
    ∑ c, walkWeight o f c * u c = ∑ c, walkWeight o' f c * u c := by
  obtain ⟨hfirst, hsecond, hthird⟩ := h.get_eq h'
  have hone : (f.get o.first - f.get o.second) * u (along [o.first]) =
      (f.get o'.first - f.get o'.second) * u (along [o'.first]) := by
    by_cases hsame : o.first = o'.first
    · rw [hsecond, hsame]
    · rw [h.second_eq_first h' hsame, h'.second_eq_first h (Ne.symm hsame), sub_self, sub_self,
        zero_mul, zero_mul]
  have htwo : (f.get o.second - f.get o.third) * u (along [o.first, o.second]) =
      (f.get o'.second - f.get o'.third) * u (along [o'.first, o'.second]) := by
    by_cases hsame : o.third = o'.third
    · rw [h.along_eq, h'.along_eq, hsecond, hsame]
    · rw [h.third_eq_second h' hsame, h'.third_eq_second h (Ne.symm hsame), sub_self, sub_self,
        zero_mul, zero_mul]
  rw [sum_walkWeight, sum_walkWeight, hone, htwo, hfirst, hthird]

end Grid

/-- The weights of a walk along the edges of a cell. -/
noncomputable def CornerWeights.walked {f : Rgb ℝ} {o : Grid.AxisOrder} (h : o.Descends f)
    (hlow : ∀ ch, 0 ≤ f.get ch) (hhigh : ∀ ch, f.get ch ≤ 1) : CornerWeights f where
  weight := Grid.walkWeight o f
  nonneg c := by
    have hfirst := hhigh o.first
    have hsecond := h.second_le
    have hthird := h.third_le
    have hlast := hlow o.third
    unfold Grid.walkWeight
    refine add_nonneg (add_nonneg (add_nonneg ?_ ?_) ?_) ?_ <;> split <;> linarith
  total := by
    have hsum := Grid.sum_walkWeight o f fun _ => 1
    simp only [mul_one] at hsum
    rw [hsum]
    ring
  balance ch := by
    have hnodup := h.nodup
    simp only [List.nodup_cons, List.mem_cons, List.not_mem_nil, or_false, not_or] at hnodup
    obtain ⟨⟨hsecond, hthird⟩, hthird', _⟩ := hnodup
    rw [Grid.sum_walkWeight]
    simp only [along, Rgb.get_ofFn, Rgb.get_gray]
    obtain rfl | rfl | rfl := h.eq_first_or_second_or_third ch
    · simp
    · simp [Ne.symm hsecond]
    · simp [Ne.symm hthird, Ne.symm hthird']

namespace Grid

variable {g : Grid ℝ}

/-- The corner of a cell in a grid. -/
def cornerAt (g : Grid ℝ) (base : Rgb ℕ) (c : Rgb Bool) : Rgb ℝ := g.entryAt (stepOn base c)

theorem trilinear_eq_color (hsize : 2 ≤ g.size) (p : Rgb ℝ) :
    let cell := g.place p
    g.trilinear p = (CornerWeights.blended cell.fraction (fraction_nonneg g p)
      (fraction_le_one hsize p)).color (g.cornerAt cell.base) := by
  have hcorner : ∀ (base : Rgb ℕ) (red green blue : Bool),
      g.corner base red green blue = g.cornerAt base ⟨red, green, blue⟩ := fun _ _ _ _ => rfl
  intro cell
  unfold trilinear CornerWeights.color
  refine congrArg Rgb.ofFn (funext fun ch => ?_)
  unfold CornerWeights.mean
  rw [sum_corners]
  simp only [hcorner, blend_eq, CornerWeights.blended, CornerWeights.share, Bool.false_eq_true,
    if_true, if_false]
  ring

theorem get_walk (g : Grid ℝ) (cell : CellPlace ℝ) (o : AxisOrder) (ch : Channel) :
    (g.walk cell o).get ch =
      ∑ c, walkWeight o cell.fraction c * (g.cornerAt cell.base c).get ch := by
  have hcorner : ∀ axes, g.cornerAlong cell.base axes = g.cornerAt cell.base (along axes) :=
    fun _ => rfl
  have hlast : g.corner cell.base true true true = g.cornerAt cell.base (Rgb.gray true) := rfl
  unfold walk
  rw [Rgb.get_ofFn, sum_walkWeight, hcorner, hcorner, hcorner, hlast]
  ring

/-- A walk along the axes in the order of the fractions is a mean of its corners. -/
theorem walk_eq_color {cell : CellPlace ℝ} {o : AxisOrder} (h : o.Descends cell.fraction)
    (hlow : ∀ ch, 0 ≤ cell.fraction.get ch) (hhigh : ∀ ch, cell.fraction.get ch ≤ 1) :
    g.walk cell o = (CornerWeights.walked h hlow hhigh).color (g.cornerAt cell.base) := by
  refine Rgb.eq_of_get_eq fun ch => ?_
  rw [get_walk, CornerWeights.color, Rgb.get_ofFn]
  rfl

/-- All orders of the axes that keep larger fractions first lead to the same value. -/
theorem walk_eq_walk {cell : CellPlace ℝ} {o o' : AxisOrder} (h : o.Descends cell.fraction)
    (h' : o'.Descends cell.fraction) : g.walk cell o = g.walk cell o' := by
  refine Rgb.eq_of_get_eq fun ch => ?_
  rw [get_walk, get_walk, sum_walkWeight_eq h h']

theorem tetrahedral_eq_color (hsize : 2 ≤ g.size) (p : Rgb ℝ) :
    let cell := g.place p
    g.tetrahedral p = (CornerWeights.walked (axisOrder_descends cell.fraction)
      (fraction_nonneg g p) (fraction_le_one hsize p)).color (g.cornerAt cell.base) :=
  walk_eq_color _ _ _

end Grid

/-! ## Affine maps -/

/-- Each channel is a sum of multiples of the channels and a number. -/
def IsAffine (a : Rgb ℝ → Rgb ℝ) : Prop :=
  ∀ ch, ∃ (row : Rgb ℝ) (offset : ℝ), ∀ p,
    (a p).get ch = row.red * p.red + row.green * p.green + row.blue * p.blue + offset

/-- An affine map of a mean is the mean of its values. -/
theorem CornerWeights.color_of_affine {f : Rgb ℝ} (w : CornerWeights f) {a : Rgb ℝ → Rgb ℝ}
    (ha : IsAffine a) (u : Rgb Bool → Rgb ℝ) : w.color (fun c => a (u c)) = a (w.color u) := by
  refine Rgb.eq_of_get_eq fun ch => ?_
  obtain ⟨row, offset, hrow⟩ := ha ch
  rw [hrow, color, Rgb.get_ofFn]
  simp only [hrow, mean_add, mean_mul, mean_const]
  rfl

namespace Grid

variable {g : Grid ℝ}

/-- The colour of a point. -/
noncomputable def colorOf (size : ℕ) (i : Rgb ℕ) : Rgb ℝ := i.map (Lut3D.coordinate size)

theorem get_stepOn (base : Rgb ℕ) (c : Rgb Bool) (ch : Channel) :
    (stepOn base c).get ch = base.get ch + (c.get ch).toNat := Rgb.get_ofFn _ ch

theorem hasPoint_stepOn (hsize : 2 ≤ g.size) (p : Rgb ℝ) (c : Rgb Bool) :
    g.HasPoint (stepOn (g.place p).base c) := by
  intro ch
  have hbase := base_lt hsize p ch
  have hstep := Bool.toNat_le (c.get ch)
  rw [get_stepOn]
  omega

/-- The colours of the corners balance at the input. -/
theorem color_colorOf (hsize : 2 ≤ g.size) (p : Rgb ℝ)
    (w : CornerWeights (g.place p).fraction) :
    w.color (fun c => colorOf g.size (stepOn (g.place p).base c)) =
      p.map fun v => min (max v 0) 1 := by
  refine Rgb.eq_of_get_eq fun ch => ?_
  rw [CornerWeights.color, Rgb.get_ofFn, Rgb.get_map, ← inputAt_place hsize p ch,
    ← w.mean_inputAt]
  simp only [colorOf, Rgb.get_map, Lut3D.coordinate_eq, get_stepOn, Nat.cast_add]

/-- Where the entries are the values of an affine map, so are the means of corners. -/
theorem color_of_sampled (hsize : 2 ≤ g.size) {a : Rgb ℝ → Rgb ℝ} (ha : IsAffine a)
    (hentry : ∀ i, g.HasPoint i → g.entryAt i = a (colorOf g.size i)) (p : Rgb ℝ)
    (w : CornerWeights (g.place p).fraction) :
    w.color (g.cornerAt (g.place p).base) = a (p.map fun v => min (max v 0) 1) := by
  have hcorner : g.cornerAt (g.place p).base =
      fun c => a (colorOf g.size (stepOn (g.place p).base c)) :=
    funext fun c => hentry _ (hasPoint_stepOn hsize p c)
  rw [hcorner, w.color_of_affine ha, color_colorOf hsize]

/-! ## Points -/

/-- The corner of its cell that a point is. -/
def ownCorner (size : ℕ) (i : Rgb ℕ) : Rgb Bool := i.map fun k => decide (size - 2 < k)

section Point

variable {i : Rgb ℕ}

/-- The colour of a point is as many steps away as the point. -/
theorem steps_colorOf (hsize : 2 ≤ g.size) (hi : g.HasPoint i) (ch : Channel) :
    steps g.size ((colorOf g.size i).get ch) = i.get ch := by
  have hlast : i.get ch ≤ g.size - 1 := Nat.le_sub_one_of_lt (hi ch)
  rw [colorOf, Rgb.get_map, Lut3D.coordinate_eq]
  exact steps_inputAt hsize (Nat.cast_nonneg _) (Nat.cast_le.mpr hlast)

theorem base_add_ownCorner (hsize : 2 ≤ g.size) (hi : g.HasPoint i) (ch : Channel) :
    (g.place (colorOf g.size i)).base.get ch + ((ownCorner g.size i).get ch).toNat =
      i.get ch := by
  have hlast := hi ch
  rw [get_base, steps_colorOf hsize hi, Nat.floor_natCast, ownCorner, Rgb.get_map]
  by_cases hend : g.size - 2 < i.get ch
  · rw [decide_eq_true hend, Bool.toNat_true]
    omega
  · rw [decide_eq_false hend, Bool.toNat_false]
    omega

/-- At a point the value is the entry, with all weights that balance there. -/
theorem color_at_point (hsize : 2 ≤ g.size) (hi : g.HasPoint i)
    (w : CornerWeights (g.place (colorOf g.size i)).fraction) :
    w.color (g.cornerAt (g.place (colorOf g.size i)).base) = g.entryAt i := by
  have hfraction : ∀ ch, (g.place (colorOf g.size i)).fraction.get ch =
      ((ownCorner g.size i).get ch).toNat := by
    intro ch
    rw [get_fraction, steps_colorOf hsize hi, ← base_add_ownCorner hsize hi ch, Nat.cast_add,
      add_sub_cancel_left]
  have hpoint : stepOn (g.place (colorOf g.size i)).base (ownCorner g.size i) = i := by
    refine Rgb.eq_of_get_eq fun ch => ?_
    rw [get_stepOn, base_add_ownCorner hsize hi]
  refine Rgb.eq_of_get_eq fun ch => ?_
  rw [CornerWeights.color, Rgb.get_ofFn, w.mean_at_corner hfraction, cornerAt, hpoint]

/-- At a point its own entry is the nearest one. -/
theorem nearest_at_point (hsize : 2 ≤ g.size) (hi : g.HasPoint i) :
    g.nearest (colorOf g.size i) = g.entryAt i := by
  rw [nearest_eq hsize]
  refine congrArg g.entryAt (Rgb.eq_of_get_eq fun ch => ?_)
  rw [Rgb.get_map, nearestPoint_eq_iff, steps_colorOf hsize hi]
  constructor <;> linarith

end Point

end Grid

/-! ## Tables -/

namespace Lut3D

variable {lut : Lut3D ℝ}

theorem entries_index (hentries : lut.entries.size = lut.size ^ 3) {i : Rgb ℕ}
    (hi : lut.grid.HasPoint i) :
    lut.entries[lut.index i.red i.green i.blue]? = some (lut.grid.entryAt i) := by
  have hlt : lut.index i.red i.green i.blue < lut.entries.size := by
    rw [hentries, pow_succ, pow_two]
    exact index_lt (hi .red) (hi .green) (hi .blue)
  have hget : lut.grid.entryAt i =
      lut.entries.getD (lut.index i.red i.green i.blue) (Rgb.gray ((0 : ℕ) : ℝ)) := rfl
  rw [hget, Array.getD_eq_getD_getElem?, Array.getElem?_eq_getElem hlt, Option.getD_some]

theorem size_map_gridColors (n : ℕ) (f : Rgb ℝ → Rgb ℝ) : ((gridColors n).map f).size = n ^ 3 := by
  rw [Array.size_map, gridColors, Array.size_ofFn, pow_succ, pow_two]

/-- Among the values of a function at the colours of the points, each point has its own. -/
theorem entryAt_of_entries_eq {f : Rgb ℝ → Rgb ℝ} (h : lut.entries = (gridColors lut.size).map f)
    {i : Rgb ℕ} (hi : lut.grid.HasPoint i) :
    lut.grid.entryAt i = f (Grid.colorOf lut.size i) := by
  have hentry := entries_index (h ▸ size_map_gridColors lut.size f) hi
  obtain ⟨r, g, b⟩ := i
  have hr : r < lut.size := hi .red
  have hg : g < lut.size := hi .green
  have hb : b < lut.size := hi .blue
  obtain ⟨hred, hgreen, hblue⟩ := index_digits (r := r) hg hb
  rw [h, index, Array.getElem?_map, gridColors, Array.getElem?_ofFn,
    dif_pos (index_lt hr hg hb)] at hentry
  simp only [gridColor, hred, hgreen, hblue] at hentry
  exact (Option.some.inj hentry).symm

/-- A table of the values of a function has one for each point, at its colour. -/
theorem of_ofFn {n : ℕ} {f : Rgb ℝ → Rgb ℝ} (h : ofFn n f = .ok lut) :
    lut.size = n ∧ 2 ≤ n ∧ lut.entries.size = n ^ 3 ∧
      ∀ i, lut.grid.HasPoint i → lut.grid.entryAt i = f (Grid.colorOf n i) := by
  unfold ofFn ofEntries at h
  split at h
  · cases h
  · rename_i htwo
    cases hcheck : checkEntries ((gridColors n).map f).size n with
    | error e =>
      rw [hcheck] at h
      cases h
    | ok _ =>
      rw [hcheck] at h
      cases h
      exact ⟨rfl, not_lt.mp htwo, size_map_gridColors n f, fun i hi => entryAt_of_entries_eq rfl hi⟩

end Lut3D

/-- What is found in a table at a colour, along blends or along a walk, is a mean of the eight
entries at the corners of the cell around it, with weights that balance there. For a walk it makes
no difference which of equal fractions comes first. So both stay within the bounds of the corners,
and between values of an affine map they find its value. At the points of the table all methods
find the entries. -/
theorem values_are_means_of_corners (lut : Lut3D ℝ) (hsize : 2 ≤ lut.size)
    (hentries : lut.entries.size = lut.size ^ 3) :
    let g := lut.grid
    (∀ p, let cell := g.place p
      let corner := g.cornerAt cell.base
      (∀ ch, cell.base.get ch + 1 < lut.size ∧
        min (max (p.get ch) 0) 1 ∈ Set.Icc (Lut3D.coordinate lut.size (cell.base.get ch))
          (Lut3D.coordinate lut.size (cell.base.get ch + 1))) ∧
      (∀ c, let i := Grid.stepOn cell.base c
        lut.entries[lut.index i.red i.green i.blue]? = some (corner c)) ∧
      (∃ w : CornerWeights cell.fraction, g.trilinear p = w.color corner) ∧
      (∃ w : CornerWeights cell.fraction, g.tetrahedral p = w.color corner) ∧
      (∀ o : Grid.AxisOrder, o.Descends cell.fraction → g.walk cell o = g.tetrahedral p) ∧
      ∀ (ch : Channel) (lo hi : ℝ), (∀ c, (corner c).get ch ∈ Set.Icc lo hi) →
        (g.trilinear p).get ch ∈ Set.Icc lo hi ∧ (g.tetrahedral p).get ch ∈ Set.Icc lo hi) ∧
    (∀ a : Rgb ℝ → Rgb ℝ, IsAffine a →
      (∀ i, g.HasPoint i → g.entryAt i = a (Grid.colorOf lut.size i)) →
        ∀ p, (∀ ch, p.get ch ∈ Set.Icc 0 1) → g.trilinear p = a p ∧ g.tetrahedral p = a p) ∧
    ∀ i : Rgb ℕ, g.HasPoint i → let p := Grid.colorOf lut.size i
      let entry := lut.get i.red i.green i.blue
      g.nearest p = entry ∧ g.trilinear p = entry ∧ g.tetrahedral p = entry := by
  intro g
  refine ⟨?_, ?_, ?_⟩
  · intro p cell corner
    have htrilinear := Grid.trilinear_eq_color (g := g) hsize p
    have htetrahedral := Grid.tetrahedral_eq_color (g := g) hsize p
    refine ⟨?_, ?_, ⟨_, htrilinear⟩, ⟨_, htetrahedral⟩, ?_, ?_⟩
    · intro ch
      refine ⟨Grid.base_lt hsize p ch, ?_⟩
      rw [← Grid.inputAt_place (g := g) hsize p ch, Lut3D.coordinate_eq, Lut3D.coordinate_eq,
        Nat.cast_succ]
      have hlow := Grid.fraction_nonneg g p ch
      have hhigh := Grid.fraction_le_one (g := g) hsize p ch
      constructor
      · exact Grid.inputAt_mono _ (le_add_of_nonneg_right hlow)
      · exact Grid.inputAt_mono _ (add_le_add_right hhigh _)
    · intro c i
      exact Lut3D.entries_index hentries (Grid.hasPoint_stepOn hsize p c)
    · intro o ho
      exact Grid.walk_eq_walk ho (Grid.axisOrder_descends _)
    · intro ch lo hi hcorner
      rw [htrilinear, htetrahedral, CornerWeights.color, CornerWeights.color, Rgb.get_ofFn,
        Rgb.get_ofFn]
      exact ⟨CornerWeights.mean_mem_Icc _ hcorner, CornerWeights.mean_mem_Icc _ hcorner⟩
  · intro a ha hentry p hp
    have hinside : p.map (fun v => min (max v 0) 1) = p := by
      refine Rgb.eq_of_get_eq fun ch => ?_
      rw [Rgb.get_map, max_eq_left (hp ch).1, min_eq_left (hp ch).2]
    have hmean := Grid.color_of_sampled (g := g) hsize ha hentry p
    rw [hinside] at hmean
    exact ⟨(Grid.trilinear_eq_color hsize p).trans (hmean _),
      (Grid.tetrahedral_eq_color hsize p).trans (hmean _)⟩
  · intro i hi p entry
    exact ⟨Grid.nearest_at_point hsize hi,
      (Grid.trilinear_eq_color hsize p).trans (Grid.color_at_point hsize hi _),
      (Grid.tetrahedral_eq_color hsize p).trans (Grid.color_at_point hsize hi _)⟩

/-- Each channel is made of the others. -/
noncomputable def mixedOn (p : Rgb ℝ) : Rgb ℝ := ⟨p.green + p.blue, 1 - p.blue, p.red - p.green⟩

theorem isAffine_mixedOn : IsAffine mixedOn := by
  intro ch
  cases ch with
  | red =>
    refine ⟨⟨0, 1, 1⟩, 0, fun p => ?_⟩
    change p.green + p.blue = 0 * p.red + 1 * p.green + 1 * p.blue + 0
    ring
  | green =>
    refine ⟨⟨0, 0, -1⟩, 1, fun p => ?_⟩
    change 1 - p.blue = 0 * p.red + 0 * p.green + -1 * p.blue + 1
    ring
  | blue =>
    refine ⟨⟨1, -1, 0⟩, 0, fun p => ?_⟩
    change p.red - p.green = 1 * p.red + -1 * p.green + 0 * p.blue + 0
    ring

/-- A table of eight mixed colours mixes the colours between its points too. -/
theorem eight_mixed_colors_mix_all :
    ∃ lut : Lut3D ℝ, Lut3D.ofFn 2 mixedOn = .ok lut ∧
      lut.grid.trilinear ⟨1 / 2, 1 / 4, 1 / 8⟩ = ⟨3 / 8, 7 / 8, 1 / 4⟩ ∧
      lut.grid.tetrahedral ⟨1 / 2, 1 / 4, 1 / 8⟩ = ⟨3 / 8, 7 / 8, 1 / 4⟩ ∧
      lut.grid.tetrahedral (Grid.colorOf 2 ⟨1, 0, 1⟩) = lut.get 1 0 1 := by
  obtain ⟨lut, hlut⟩ : ∃ lut : Lut3D ℝ, Lut3D.ofFn 2 mixedOn = .ok lut := by
    have hcheck : Lut3D.checkEntries ((Lut3D.gridColors 2).map mixedOn).size 2 = .ok () := by
      rw [Array.size_map, Lut3D.gridColors, Array.size_ofFn]
      decide
    unfold Lut3D.ofFn Lut3D.ofEntries
    rw [hcheck]
    exact ⟨_, rfl⟩
  obtain ⟨htwo, hle, hcount, hsampled⟩ := Lut3D.of_ofFn hlut
  obtain ⟨hmeans, haffine, hpoints⟩ := values_are_means_of_corners lut (htwo.symm ▸ hle)
    (htwo.symm ▸ hcount)
  have hp : ∀ ch, (⟨1 / 2, 1 / 4, 1 / 8⟩ : Rgb ℝ).get ch ∈ Set.Icc (0 : ℝ) 1 := by
    intro ch
    cases ch <;> constructor <;> norm_num [Rgb.get]
  obtain ⟨htrilinear, htetrahedral⟩ := haffine mixedOn isAffine_mixedOn (htwo.symm ▸ hsampled) _ hp
  have hvalue : mixedOn ⟨1 / 2, 1 / 4, 1 / 8⟩ = ⟨3 / 8, 7 / 8, 1 / 4⟩ := by
    unfold mixedOn
    norm_num
  have hi : lut.grid.HasPoint ⟨1, 0, 1⟩ := by
    intro ch
    change _ < lut.size
    rw [htwo]
    cases ch <;> decide
  obtain ⟨_, _, hpoint⟩ := hpoints _ hi
  rw [htwo] at hpoint
  exact ⟨lut, hlut, htrilinear.trans hvalue, htetrahedral.trans hvalue, hpoint⟩

end ColorPipeline
