-- Grids whose entries are close to the colours of their own points, over the real numbers. What
-- is found between such entries by blends or walks is close to its own colour too. An entry that
-- stands for all colours around its point is close to them where it is close to the middles
-- between the point and its neighbours, and only there.
import ColorPipeline.Proofs.GridTextures

open scoped ColorPipeline.RealScalar

namespace ColorPipeline

namespace Grid

/-! ## Steps and inputs -/

/-- The input that is some steps from the first point of an axis. -/
noncomputable def inputAt (size : ℕ) (t : ℝ) : ℝ := t / ((size - 1 : ℕ) : ℝ)

variable {size : ℕ}

theorem inputAt_steps (hsize : 2 ≤ size) (v : ℝ) : inputAt size (steps size v) = min (max v 0) 1 :=
  mul_div_cancel_right₀ _ (ne_of_gt (Curve.cast_size_sub_one_pos hsize))

theorem steps_inputAt (hsize : 2 ≤ size) {t : ℝ} (ht : 0 ≤ t) (ht' : t ≤ ((size - 1 : ℕ) : ℝ)) :
    steps size (inputAt size t) = t := by
  have hpos := Curve.cast_size_sub_one_pos hsize
  have hlow : 0 ≤ inputAt size t := div_nonneg ht (le_of_lt hpos)
  have hhigh : inputAt size t ≤ 1 := (div_le_one hpos).mpr ht'
  unfold steps
  rw [max_eq_left hlow, min_eq_left hhigh]
  exact div_mul_cancel₀ t (ne_of_gt hpos)

theorem inputAt_mono (size : ℕ) : Monotone (inputAt size) :=
  fun _ _ h => div_le_div_of_nonneg_right h (Nat.cast_nonneg _)

/-! ## Blends -/

/-- Each step of a walk counts by what it has over the next one, so a walk past numbers that
are small ends at a small one. -/
theorem abs_walk_le {d₁ d₂ d₃ d₄ x y z e : ℝ} (hx : x ≤ 1) (hy : y ≤ x) (hz : z ≤ y)
    (hz' : 0 ≤ z) (h₁ : |d₁| ≤ e) (h₂ : |d₂| ≤ e) (h₃ : |d₃| ≤ e) (h₄ : |d₄| ≤ e) :
    |d₁ + x * (d₂ - d₁) + y * (d₃ - d₂) + z * (d₄ - d₃)| ≤ e := by
  have hpart : ∀ {w d : ℝ}, 0 ≤ w → |d| ≤ e → |w * d| ≤ w * e := by
    intro w d hw hd
    rw [abs_mul, abs_of_nonneg hw]
    exact mul_le_mul_of_nonneg_left hd hw
  calc |d₁ + x * (d₂ - d₁) + y * (d₃ - d₂) + z * (d₄ - d₃)|
      = |(1 - x) * d₁ + (x - y) * d₂ + (y - z) * d₃ + z * d₄| := by ring_nf
    _ ≤ |(1 - x) * d₁| + |(x - y) * d₂| + |(y - z) * d₃| + |z * d₄| := by
        refine (abs_add_le _ _).trans ?_
        gcongr
        exact abs_add_three _ _ _
    _ ≤ (1 - x) * e + (x - y) * e + (y - z) * e + z * e := by
        refine add_le_add (add_le_add (add_le_add ?_ ?_) ?_) ?_
        · exact hpart (sub_nonneg.mpr hx) h₁
        · exact hpart (sub_nonneg.mpr hy) h₂
        · exact hpart (sub_nonneg.mpr hz) h₃
        · exact hpart hz' h₄
    _ = e := by ring

theorem blend_eq (a b t : ℝ) : blend a b t = a * (1 - t) + b * t := by
  have h : blend a b t = a * (((1 : ℕ) : ℝ) - t) + b * t := rfl
  rw [h, Nat.cast_one]

theorem blend_self (v t : ℝ) : blend v v t = v := by
  rw [blend_eq]
  ring

theorem blend_inputAt (k t : ℝ) :
    blend (inputAt size k) (inputAt size (k + 1)) t = inputAt size (k + t) := by
  rw [blend_eq]
  unfold inputAt
  ring

/-- A blend of two numbers is as close to the blend of two others as those are. -/
theorem abs_blend_sub_le {a b x y t e : ℝ} (ht : 0 ≤ t) (ht' : t ≤ 1) (ha : |a - x| ≤ e)
    (hb : |b - y| ≤ e) : |blend a b t - blend x y t| ≤ e := by
  have hzero : |(0 : ℝ)| ≤ e := by
    rw [abs_zero]
    exact (abs_nonneg _).trans ha
  have hwalk := abs_walk_le ht' ht le_rfl le_rfl ha hb hzero hzero
  have heq : blend a b t - blend x y t =
      (a - x) + t * ((b - y) - (a - x)) + 0 * (0 - (b - y)) + 0 * (0 - 0) := by
    rw [blend_eq, blend_eq]
    ring
  rwa [heq]

/-! ## Cells -/

section Cells

variable {g : Grid ℝ}

theorem fraction_nonneg (g : Grid ℝ) (p : Rgb ℝ) (ch : Channel) :
    0 ≤ (g.place p).fraction.get ch := by
  have hfloor := Nat.floor_le (steps_nonneg g.size (p.get ch))
  have hbase : ((min ⌊steps g.size (p.get ch)⌋₊ (g.size - 2) : ℕ) : ℝ) ≤
      ⌊steps g.size (p.get ch)⌋₊ := Nat.cast_le.mpr (min_le_left _ _)
  rw [get_fraction, get_base]
  linarith

theorem fraction_le_one (hsize : 2 ≤ g.size) (p : Rgb ℝ) (ch : Channel) :
    (g.place p).fraction.get ch ≤ 1 := by
  rw [get_fraction, get_base]
  rcases le_total ⌊steps g.size (p.get ch)⌋₊ (g.size - 2) with hinside | hend
  · have hnext := Nat.lt_floor_add_one (steps g.size (p.get ch))
    rw [min_eq_left hinside]
    linarith
  · have hlast := steps_le g.size (p.get ch)
    have hsucc : g.size - 1 = (g.size - 2) + 1 := by omega
    rw [hsucc, Nat.cast_succ] at hlast
    rw [min_eq_right hend]
    linarith

/-- The place in a cell is that of the input. -/
theorem inputAt_place (hsize : 2 ≤ g.size) (p : Rgb ℝ) (ch : Channel) :
    inputAt g.size ((g.place p).base.get ch + (g.place p).fraction.get ch) =
      min (max (p.get ch) 0) 1 := by
  rw [get_fraction, add_sub_cancel, inputAt_steps hsize]

/-- The entry at a point. -/
def entryAt (g : Grid ℝ) (i : Rgb ℕ) : Rgb ℝ := g.point i.red i.green i.blue

/-- The point is one of the grid. -/
def HasPoint (g : Grid ℝ) (i : Rgb ℕ) : Prop := ∀ ch, i.get ch < g.size

/-- Every entry is close to the colour of its own point. -/
def IsNearIdentity (g : Grid ℝ) (e : ℝ) : Prop :=
  ∀ i, g.HasPoint i → ∀ ch, |(g.entryAt i).get ch - inputAt g.size (i.get ch)| ≤ e

/-- The point one step on along some axes. -/
def stepOn (base : Rgb ℕ) (along : Rgb Bool) : Rgb ℕ :=
  Rgb.ofFn fun ch => base.get ch + (along.get ch).toNat

theorem abs_corner_sub_le {e : ℝ} (hsize : 2 ≤ g.size) (hnear : g.IsNearIdentity e) (p : Rgb ℝ)
    (along : Rgb Bool) (ch : Channel) :
    |(g.corner (g.place p).base along.red along.green along.blue).get ch -
      inputAt g.size ((g.place p).base.get ch + (along.get ch).toNat)| ≤ e := by
  have hpoint : g.HasPoint (stepOn (g.place p).base along) := by
    intro c
    have hbase := base_lt hsize p c
    have hstep := Bool.toNat_le (along.get c)
    unfold stepOn
    rw [Rgb.get_ofFn]
    omega
  have hcorner := hnear _ hpoint ch
  unfold stepOn at hcorner
  rw [Rgb.get_ofFn, Nat.cast_add] at hcorner
  exact hcorner

/-- Blends along one axis after the other stay close to the input. -/
theorem abs_trilinear_sub_le {e : ℝ} (hsize : 2 ≤ g.size) (hnear : g.IsNearIdentity e)
    (p : Rgb ℝ) (ch : Channel) :
    |(g.trilinear p).get ch - min (max (p.get ch) 0) 1| ≤ e := by
  have hlow := fraction_nonneg g p
  have hhigh := fraction_le_one hsize p
  have hcorner := fun red green blue => abs_corner_sub_le hsize hnear p ⟨red, green, blue⟩ ch
  have hred := fun green blue => abs_blend_sub_le (hlow .red) (hhigh .red)
    (hcorner false green blue) (hcorner true green blue)
  have hgreen := fun blue => abs_blend_sub_le (hlow .green) (hhigh .green)
    (hred false blue) (hred true blue)
  have hblue := abs_blend_sub_le (hlow .blue) (hhigh .blue) (hgreen false) (hgreen true)
  unfold trilinear
  rw [Rgb.get_ofFn, ← inputAt_place hsize]
  refine hblue.trans_eq' ?_
  cases ch <;> simp [Rgb.get, blend_self, blend_inputAt]

/-- A walk takes the axis of the largest fraction first and that of the least one last. -/
theorem axisOrder_sorted (f : Rgb ℝ) :
    f.get (axisOrder f).third ≤ f.get (axisOrder f).second ∧
      f.get (axisOrder f).second ≤ f.get (axisOrder f).first := by
  unfold axisOrder
  split_ifs <;> simp only [Rgb.get] <;> constructor <;> linarith

/-- A walk takes every axis, each of them once. -/
theorem axisOrder_nodup (f : Rgb ℝ) :
    [(axisOrder f).first, (axisOrder f).second, (axisOrder f).third].Nodup := by
  unfold axisOrder
  split_ifs <;> decide

theorem mem_axisOrder (f : Rgb ℝ) (ch : Channel) :
    ch ∈ [(axisOrder f).first, (axisOrder f).second, (axisOrder f).third] := by
  unfold axisOrder
  split_ifs <;> cases ch <;> decide

/-- On its own axis a step of a walk counts by the fraction, and on the others it adds nothing. -/
theorem inputAt_walk {o : AxisOrder} {ch : Channel} (hnodup : [o.first, o.second, o.third].Nodup)
    (hmem : ch ∈ [o.first, o.second, o.third]) (f : Rgb ℝ) (size : ℕ) (k : ℝ) :
    let at' (axes : List Channel) := inputAt size (k + (axes.contains ch).toNat)
    at' [] + f.get o.first * (at' [o.first] - at' []) +
      f.get o.second * (at' [o.first, o.second] - at' [o.first]) +
      f.get o.third * (inputAt size (k + true.toNat) - at' [o.first, o.second]) =
        inputAt size (k + f.get ch) := by
  intro at'
  simp only [List.nodup_cons, List.mem_cons, List.not_mem_nil, or_false, not_or] at hnodup hmem
  obtain ⟨⟨hsecond, hthird⟩, hthird', _⟩ := hnodup
  unfold at' inputAt
  rcases hmem with rfl | rfl | rfl
  · simp
    ring
  · simp [Ne.symm hsecond]
    ring
  · simp [Ne.symm hthird, Ne.symm hthird']
    ring

/-- Walks along the edges of a cell stay close to the input. -/
theorem abs_tetrahedral_sub_le {e : ℝ} (hsize : 2 ≤ g.size) (hnear : g.IsNearIdentity e)
    (p : Rgb ℝ) (ch : Channel) :
    |(g.tetrahedral p).get ch - min (max (p.get ch) 0) 1| ≤ e := by
  have hcorner : ∀ axes : List Channel, |(g.cornerAlong (g.place p).base axes).get ch -
      inputAt g.size ((g.place p).base.get ch + (axes.contains ch).toNat)| ≤ e := by
    intro axes
    have h := abs_corner_sub_le hsize hnear p (Rgb.ofFn axes.contains) ch
    rwa [Rgb.get_ofFn] at h
  have hlast : |(g.corner (g.place p).base true true true).get ch -
      inputAt g.size ((g.place p).base.get ch + true.toNat)| ≤ e := by
    have h := abs_corner_sub_le hsize hnear p (Rgb.gray true) ch
    rwa [Rgb.get_gray] at h
  have hlow := fraction_nonneg g p
  have hhigh := fraction_le_one hsize p
  unfold tetrahedral walk
  rw [Rgb.get_ofFn, ← inputAt_place hsize]
  generalize (g.place p).fraction = f at hlow hhigh ⊢
  obtain ⟨hthird, hsecond⟩ := axisOrder_sorted f
  rw [← inputAt_walk (axisOrder_nodup f) (mem_axisOrder f ch)]
  generalize axisOrder f = o at hthird hsecond ⊢
  have hwalk := abs_walk_le (hhigh o.first) hsecond hthird (hlow o.third) (hcorner [])
    (hcorner [o.first]) (hcorner [o.first, o.second]) hlast
  refine hwalk.trans_eq' (congrArg abs ?_)
  ring

/-! ## Nearest points -/

/-- The number of the point that is nearest to an input. -/
noncomputable def nearestPoint (size : ℕ) (v : ℝ) : ℕ := Scalar.toNat (Scalar.round (steps size v))

theorem nearestPoint_eq_iff {size i : ℕ} {v : ℝ} :
    nearestPoint size v = i ↔ (i : ℝ) - 1 / 2 ≤ steps size v ∧ steps size v < i + 1 / 2 := by
  have hsteps := steps_nonneg size v
  unfold nearestPoint
  rw [RealScalar.toNat_round hsteps, Nat.floor_eq_iff (by linarith)]
  constructor <;> rintro ⟨hlow, hhigh⟩ <;> constructor <;> linarith

theorem nearestPoint_lt {size : ℕ} (hsize : 2 ≤ size) (v : ℝ) : nearestPoint size v < size := by
  have hlast := steps_le size v
  have hlow := (nearestPoint_eq_iff.mp (@rfl ℕ (nearestPoint size v))).1
  have hreach : (nearestPoint size v : ℝ) < ((size - 1 : ℕ) : ℝ) + 1 := by linarith
  have hlt : nearestPoint size v < size - 1 + 1 := by exact_mod_cast hreach
  omega

theorem nearest_eq (hsize : 2 ≤ g.size) (p : Rgb ℝ) :
    g.nearest p = g.entryAt (p.map (nearestPoint g.size)) := by
  have hpoint : ∀ ch, min (Scalar.toNat (Scalar.round ((g.position p).get ch))) (g.size - 1) =
      nearestPoint g.size (p.get ch) := by
    intro ch
    have hlast := nearestPoint_lt hsize (p.get ch)
    rw [get_position]
    exact min_eq_left (by unfold nearestPoint at hlast; omega)
  unfold nearest entryAt
  exact congr (congr (congrArg g.point (hpoint .red)) (hpoint .green)) (hpoint .blue)

/-- A value is close to the inputs halfway from a point to its neighbours. -/
structure NearMiddles (size : ℕ) (e : ℝ) (i : ℕ) (v : ℝ) : Prop where
  after : i + 1 < size → |v - inputAt size (i + 1 / 2)| ≤ e
  before : 0 < i → |v - inputAt size (i - 1 / 2)| ≤ e

theorem abs_sub_le_of_between {v a b x e : ℝ} (ha : |v - a| ≤ e) (hb : |v - b| ≤ e) (hax : a ≤ x)
    (hxb : x ≤ b) : |v - x| ≤ e := by
  rw [abs_le] at ha hb ⊢
  constructor <;> linarith

/-- What is close to all inputs before a middle is close to the middle. -/
theorem abs_sub_inputAt_le {size i : ℕ} {e v : ℝ} (hsize : 2 ≤ size)
    (h : ∀ t : ℝ, i ≤ t → t < i + 1 / 2 → |v - inputAt size t| ≤ e) :
    |v - inputAt size (i + 1 / 2)| ≤ e := by
  have hpos := Curve.cast_size_sub_one_pos hsize
  have hpoint := h i le_rfl (by linarith)
  -- the middle itself belongs to the next point, but inputs before it come as near as one likes
  have hreach : (i : ℝ) + 1 / 2 ≤ (v + e) * ((size - 1 : ℕ) : ℝ) := by
    apply le_of_forall_lt_imp_le_of_dense
    intro t ht
    have hnear := h (max t i) (le_max_right _ _) (max_lt ht (by linarith))
    have hbelow : max t i / ((size - 1 : ℕ) : ℝ) ≤ v + e := by
      have := (abs_le.mp hnear).1
      unfold inputAt at this
      linarith
    exact (le_max_left _ _).trans ((div_le_iff₀ hpos).mp hbelow)
  have hmiddle : inputAt size (i + 1 / 2) ≤ v + e := (div_le_iff₀ hpos).mpr hreach
  have hmono : inputAt size i ≤ inputAt size (i + 1 / 2) := inputAt_mono size (by linarith)
  rw [abs_le] at hpoint ⊢
  constructor <;> linarith

/-- A value that is close to a point is close to all inputs around it where it is close to the
middles on both sides. -/
theorem forall_nearestPoint_iff {size i : ℕ} {e v : ℝ} (hsize : 2 ≤ size) (hi : i < size)
    (hpoint : |v - inputAt size i| ≤ e) :
    (∀ x, nearestPoint size x = i → |v - min (max x 0) 1| ≤ e) ↔ NearMiddles size e i v := by
  have hlast : (i : ℝ) ≤ ((size - 1 : ℕ) : ℝ) := Nat.cast_le.mpr (by omega)
  simp only [← inputAt_steps hsize, nearestPoint_eq_iff]
  constructor
  · intro h
    have haround : ∀ t : ℝ, 0 ≤ t → t ≤ ((size - 1 : ℕ) : ℝ) → (i : ℝ) - 1 / 2 ≤ t →
        t < i + 1 / 2 → |v - inputAt size t| ≤ e := by
      intro t ht ht' hlow hhigh
      have hinput := h (inputAt size t)
      rw [steps_inputAt hsize ht ht'] at hinput
      exact hinput ⟨hlow, hhigh⟩
    constructor
    · intro hnext
      have hroom : (i : ℝ) + 1 ≤ ((size - 1 : ℕ) : ℝ) := by
        exact_mod_cast (by omega : i + 1 ≤ size - 1)
      apply abs_sub_inputAt_le hsize
      intro t hlow hhigh
      have hnonneg : (0 : ℝ) ≤ i := Nat.cast_nonneg i
      exact haround t (by linarith) (by linarith) (by linarith) hhigh
    · intro hfirst
      have hroom : (1 : ℝ) ≤ i := by exact_mod_cast hfirst
      exact haround _ (by linarith) (by linarith) le_rfl (by linarith)
  · rintro hmiddles x ⟨hlow, hhigh⟩
    rcases le_total (i : ℝ) (steps size x) with hup | hdown
    · by_cases hnext : i + 1 < size
      · exact abs_sub_le_of_between hpoint (hmiddles.after hnext) (inputAt_mono size hup)
          (inputAt_mono size (le_of_lt hhigh))
      · -- there is nothing behind the last point
        have hend : ((size - 1 : ℕ) : ℝ) = i := by exact_mod_cast (by omega : size - 1 = i)
        have hsame : steps size x = i := le_antisymm (hend ▸ steps_le size x) hup
        rwa [hsame]
    · by_cases hfirst : 0 < i
      · exact abs_sub_le_of_between (hmiddles.before hfirst) hpoint (inputAt_mono size hlow)
          (inputAt_mono size hdown)
      · have hzero : (i : ℝ) = 0 := by exact_mod_cast (by omega : i = 0)
        have hsame : steps size x = i := le_antisymm hdown (hzero ▸ steps_nonneg size x)
        rwa [hsame]

/-- Every entry is close to the middles around its own point. -/
def IsNearMiddles (g : Grid ℝ) (e : ℝ) : Prop :=
  ∀ i, g.HasPoint i → ∀ ch, NearMiddles g.size e (i.get ch) ((g.entryAt i).get ch)

/-- Nearest entries are close to all colours where each of them is close to the middles around
its point. -/
theorem forall_nearest_iff {e : ℝ} (hsize : 2 ≤ g.size) (hnear : g.IsNearIdentity e) :
    (∀ p ch, |(g.nearest p).get ch - min (max (p.get ch) 0) 1| ≤ e) ↔ g.IsNearMiddles e := by
  constructor
  · intro h i hi ch
    rw [← forall_nearestPoint_iff hsize (hi ch) (hnear i hi ch)]
    intro x hx
    -- the colour of the point with the input in one channel
    have hinput := h (Rgb.ofFn fun c => if c = ch then x else inputAt g.size (i.get c)) ch
    rw [nearest_eq hsize, Rgb.get_ofFn, if_pos rfl] at hinput
    have hpoint : (Rgb.ofFn fun c => if c = ch then x else inputAt g.size (i.get c)).map
        (nearestPoint g.size) = i := by
      have hchannel : ∀ c, nearestPoint g.size (if c = ch then x else inputAt g.size (i.get c)) =
          i.get c := by
        intro c
        by_cases hc : c = ch
        · rw [if_pos hc, hx, hc]
        · have hlast : (i.get c : ℝ) ≤ ((g.size - 1 : ℕ) : ℝ) := by
            have := hi c
            exact_mod_cast (by omega : i.get c ≤ g.size - 1)
          rw [if_neg hc, nearestPoint_eq_iff, steps_inputAt hsize (Nat.cast_nonneg _) hlast]
          constructor <;> linarith
      obtain ⟨red, green, blue⟩ := i
      exact congr (congr (congrArg Rgb.mk (hchannel .red)) (hchannel .green)) (hchannel .blue)
    rwa [hpoint] at hinput
  · intro h p ch
    have hi : g.HasPoint (p.map (nearestPoint g.size)) := by
      intro c
      rw [Rgb.get_map]
      exact nearestPoint_lt hsize _
    have hmiddles := h _ hi ch
    rw [← forall_nearestPoint_iff hsize (hi ch) (hnear _ hi ch)] at hmiddles
    rw [nearest_eq hsize]
    exact hmiddles _ (Rgb.get_map _ _ _).symm

/-! ## Methods -/

/-- The value at a colour, as a method finds it. -/
noncomputable def eval (g : Grid ℝ) : Interpolation → Rgb ℝ → Rgb ℝ
  | .nearest => g.nearest
  | .linear => g.trilinear
  | .tetrahedral | .best => g.tetrahedral

theorem forall_eval_iff {e : ℝ} (hsize : 2 ≤ g.size) (hnear : g.IsNearIdentity e)
    (method : Interpolation) :
    (∀ p ch, |(g.eval method p).get ch - min (max (p.get ch) 0) 1| ≤ e) ↔
      (method = .nearest → g.IsNearMiddles e) := by
  cases method with
  | nearest => exact (forall_nearest_iff hsize hnear).trans (true_imp_iff.symm.trans (by simp))
  | linear => exact iff_of_true (abs_trilinear_sub_le hsize hnear) nofun
  | tetrahedral => exact iff_of_true (abs_tetrahedral_sub_le hsize hnear) nofun
  | best => exact iff_of_true (abs_tetrahedral_sub_le hsize hnear) nofun

end Cells

end Grid

end ColorPipeline
