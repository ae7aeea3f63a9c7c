-- Tables whose samples differ in the signs of zeros. Their inverses differ in such signs at
-- most: a curve is searched by comparisons, and is divided by no step that is zero. A grid is
-- searched from its own points, which are no negative zeros, so the guesses are the same.
import ColorPipeline.Op.Tables
import ColorPipeline.Proofs.Checks
import ColorPipeline.Proofs.Emission
import ColorPipeline.Proofs.ZeroSigns

open scoped ColorPipeline.Scalar

namespace ColorPipeline

variable {S : Type} [Scalar S]

/-! ## Curves -/

namespace Curve

/-- Curves with samples that are alike. -/
structure Alike (c d : Curve S) : Prop where
  size : c.size = d.size
  sample : ∀ i, ColorPipeline.Alike (c.sample i) (d.sample i)

variable {c d : Curve S}

/-- The search ends between a sample that is below the value and one that is not. -/
theorem firstNotBelow_bounds (c : Curve S) (y : S) {lo hi : Nat} (hlohi : lo ≤ hi)
    (hlo : 0 < lo → c.sample (lo - 1) < y) (hhi : hi < c.size → ¬ c.sample hi < y) :
    let i := c.firstNotBelow y lo hi
    (0 < i → c.sample (i - 1) < y) ∧ (i < c.size → ¬ c.sample i < y) := by
  fun_induction firstNotBelow c y lo hi with
  | case1 lo hi hlt middle hbelow ih => exact ih (by omega) (fun _ => hbelow) hhi
  | case2 lo hi hlt middle hnot ih => exact ih (by omega) hlo fun _ => hnot
  | case3 lo hi hge =>
    obtain rfl : lo = hi := by omega
    exact ⟨hlo, hhi⟩

variable [SignlessZeros S]

/-- The search compares only, so it does not see the sign of a zero. -/
theorem Alike.firstNotBelow (h : c.Alike d) {x y : S} (hxy : ColorPipeline.Alike x y)
    (lo hi : Nat) :
    c.firstNotBelow x lo hi = d.firstNotBelow y lo hi := by
  fun_induction Curve.firstNotBelow c x lo hi with
  | case1 lo hi hlt middle hbelow ih =>
    rw [ih]
    conv_rhs => unfold Curve.firstNotBelow
    rw [if_pos hlt, if_pos ((SignlessZeros.lt_iff (h.sample middle) hxy).mp hbelow)]
  | case2 lo hi hlt middle hnot ih =>
    rw [ih]
    conv_rhs => unfold Curve.firstNotBelow
    rw [if_pos hlt, if_neg (mt (SignlessZeros.lt_iff (h.sample middle) hxy).mpr hnot)]
  | case3 lo hi hge =>
    unfold Curve.firstNotBelow
    rw [if_neg hge]

theorem Alike.withinSamples (h : c.Alike d) (v : S) :
    ColorPipeline.Alike (c.withinSamples v) (d.withinSamples v) := by
  unfold Curve.withinSamples
  rw [h.size]
  exact ((ColorPipeline.Alike.refl v).maxNum (h.sample 0)).minNum (h.sample _)

/-- The step between the samples around a value is not zero. -/
theorem step_ne_zero {x y v : S} (hx : Scalar.isFinite x) (hy : Scalar.isFinite y) (hbelow : x < v)
    (hnot : ¬ y < v) : ¬ (y - x == 0) = true := by
  intro hzero
  have halike := SignlessZeros.alike_of_sub hy hx hzero
  exact hnot ((SignlessZeros.lt_iff halike (.refl v)).mpr hbelow)

/-- The inverses of finite curves that are alike are alike. -/
theorem Alike.invert (h : c.Alike d) (hc : ∀ i < c.size, Scalar.isFinite (c.sample i)) (v : S) :
    ColorPipeline.Alike (c.invert v) (d.invert v) := by
  have hbounds := firstNotBelow_bounds c (c.withinSamples v) (Nat.zero_le c.size) nofun
    fun hlt => absurd hlt (lt_irrefl _)
  unfold Curve.invert
  dsimp only at hbounds ⊢
  rw [← h.size, ← h.firstNotBelow (h.withinSamples v)]
  generalize c.firstNotBelow (c.withinSamples v) 0 c.size = i at hbounds ⊢
  split_ifs with hsize hfirst hlast
  · exact .refl _
  · exact .refl _
  · exact .refl _
  · have hstep := step_ne_zero (hc (i - 1) (by omega)) (hc i (by omega)) (hbounds.1 (by omega))
      (hbounds.2 (by omega))
    have hfraction := (SignlessZeros.sub (h.withinSamples v) (h.sample (i - 1))).div_of_ne
      (SignlessZeros.sub (h.sample i) (h.sample (i - 1))) hstep
    exact SignlessZeros.div _ (SignlessZeros.add (.refl _) hfraction)

end Curve

/-! ## 1D tables -/

/-- Samples that are alike one by one. -/
theorem alike_of_tableNumbers {xs ys : Array (Rgb S)}
    (h : List.Forall₂ Alike (tableNumbers xs) (tableNumbers ys)) :
    List.Forall₂ Rgb.Alike xs.toList ys.toList := by
  unfold tableNumbers at h
  generalize xs.toList = ps at h ⊢
  generalize ys.toList = qs at h ⊢
  induction ps generalizing qs with
  | nil =>
    cases qs with
    | nil => exact .nil
    | cons q qs => cases h
  | cons p ps ih =>
    cases qs with
    | nil => cases h
    | cons q qs =>
      simp only [List.flatMap_cons, Rgb.toList, List.cons_append, List.nil_append,
        List.forall₂_cons] at h
      obtain ⟨hred, hgreen, hblue, hrest⟩ := h
      exact .cons (Rgb.alike_iff.mpr ⟨hred, hgreen, hblue⟩) (ih qs hrest)

theorem alike_getD {xs ys : Array (Rgb S)} (h : List.Forall₂ Rgb.Alike xs.toList ys.toList)
    (i : Nat) (p : Rgb S) : (xs.getD i p).Alike (ys.getD i p) := by
  have hlength : xs.size = ys.size := h.length_eq
  rw [Array.getD_eq_getD_getElem?, Array.getD_eq_getD_getElem?]
  by_cases hi : i < xs.size
  · have hi' : i < ys.size := hlength ▸ hi
    rw [Array.getElem?_eq_getElem hi, Array.getElem?_eq_getElem hi']
    exact h.get hi hi'
  · rw [Array.getElem?_eq_none (by omega), Array.getElem?_eq_none (by omega)]
    exact .refl p

namespace Lut1D

/-- Tables that differ in the signs of zeros at most. -/
structure Alike (lut other : Lut1D S) : Prop where
  size : lut.size = other.size
  interpolation : lut.interpolation = other.interpolation
  entry : ∀ i, (lut.entry i).Alike (other.entry i)

theorem Alike.curve {lut other : Lut1D S} (h : lut.Alike other) (ch : Channel) :
    (lut.curve ch).Alike (other.curve ch) := ⟨h.size, fun i => h.entry i ch⟩

theorem isFinite_entry {lut : Lut1D S} (h : ∀ v ∈ tableNumbers lut.samples, Scalar.isFinite v)
    {i : Nat} (hi : i < lut.size) (c : Channel) : Scalar.isFinite ((lut.entry i).get c) := by
  have hmem : lut.entry i ∈ lut.samples := by
    unfold entry
    rw [Array.getD_eq_getD_getElem?, Array.getElem?_eq_getElem hi]
    exact Array.getElem_mem hi
  refine h _ (mem_tableNumbers.mpr ⟨_, hmem, ?_⟩)
  cases c <;> simp [Rgb.toList, Rgb.get]

theorem entry_inverseCurves (lut : Lut1D S) (size i : Nat) : (lut.inverseCurves size).entry i =
    if i < size then lut.applyInverse (Rgb.gray (gridPoint size i)) else Rgb.gray 0 := by
  unfold entry inverseCurves
  rw [Array.getD_eq_getD_getElem?, Array.getElem?_ofFn]
  split_ifs <;> rfl

/-- Inverse tables divide by differences of samples that are not zero. -/
theorem Alike.inverseCurves [SignlessZeros S] {lut other : Lut1D S} (h : lut.Alike other)
    (hlut : ∀ v ∈ tableNumbers lut.samples, Scalar.isFinite v) (size : Nat) :
    (lut.inverseCurves size).Alike (other.inverseCurves size) where
  size := by
    unfold Lut1D.inverseCurves Lut1D.size
    rw [Array.size_ofFn, Array.size_ofFn]
  interpolation := rfl
  entry i := by
    rw [entry_inverseCurves, entry_inverseCurves]
    split_ifs
    · intro ch
      unfold applyInverse
      rw [Rgb.get_ofFn, Rgb.get_ofFn]
      exact (h.curve ch).invert (fun i hi => isFinite_entry hlut hi ch) _
    · exact .refl _

end Lut1D

/-! ## Grids -/

namespace Grid

/-- Grids with points that are alike. -/
structure Alike (g k : Grid S) : Prop where
  size : g.size = k.size
  point : ∀ r g' b, (g.point r g' b).Alike (k.point r g' b)

variable {g k : Grid S}

theorem Alike.place (h : g.Alike k) (p : Rgb S) : g.place p = k.place p := by
  unfold Grid.place Grid.position
  rw [h.size]

variable [SignlessZeros S]

theorem Alike.tetrahedral (h : g.Alike k) (p : Rgb S) :
    (g.tetrahedral p).Alike (k.tetrahedral p) := by
  unfold Grid.tetrahedral Grid.walk Grid.cornerAlong Grid.corner
  dsimp only
  rw [h.place p]
  intro c
  rw [Rgb.get_ofFn, Rgb.get_ofFn]
  have hedge : ∀ (w : S) (r g' b r' g'' b' : Nat), ColorPipeline.Alike
      (w * ((g.point r g' b).get c - (g.point r' g'' b').get c))
      (w * ((k.point r g' b).get c - (k.point r' g'' b').get c)) :=
    fun w r g' b r' g'' b' => SignlessZeros.mul (.refl w)
      (SignlessZeros.sub (h.point r g' b c) (h.point r' g'' b' c))
  exact SignlessZeros.add (SignlessZeros.add (SignlessZeros.add (h.point _ _ _ c) (hedge ..))
    (hedge ..)) (hedge ..)

theorem alike_det3 {x y z x' y' z' : Rgb S} (hx : x.Alike x') (hy : y.Alike y') (hz : z.Alike z') :
    ColorPipeline.Alike (det3 x y z) (det3 x' y' z') := by
  have hminor : ∀ {p p' q q' : Rgb S} (i j : Channel), p.Alike p' → q.Alike q' →
      ColorPipeline.Alike (p.get i * q.get j - q.get i * p.get j)
        (p'.get i * q'.get j - q'.get i * p'.get j) :=
    fun i j hp hq => SignlessZeros.sub (SignlessZeros.mul (hp i) (hq j))
      (SignlessZeros.mul (hq i) (hp j))
  exact SignlessZeros.add (SignlessZeros.sub
    (SignlessZeros.mul (hx .red) (hminor .green .blue hy hz))
    (SignlessZeros.mul (hy .red) (hminor .green .blue hx hz)))
    (SignlessZeros.mul (hz .red) (hminor .green .blue hx hy))

/-- A determinant that is not close to zero is no zero. -/
theorem ne_zero_of_large {v : S} (h : ¬ Scalar.abs v < 1e-10) : ¬ (v == 0) = true := by
  intro hzero
  have habs := SignlessZeros.abs (SignlessZeros.alike_of_beq hzero)
  rw [SignlessZeros.abs_zero] at habs
  exact h ((SignlessZeros.lt_iff habs (.refl _)).mpr (SignlessZeros.decimal_pos 10 le_rfl))

theorem alike_solve3 {x y z e x' y' z' e' : Rgb S} (hx : x.Alike x') (hy : y.Alike y')
    (hz : z.Alike z') (he : e.Alike e') : (solve3 x y z e).Alike (solve3 x' y' z' e') := by
  have hdet := alike_det3 hx hy hz
  have hlarge := SignlessZeros.lt_iff (SignlessZeros.abs hdet) (.refl (1e-10 : S))
  unfold solve3
  dsimp only
  by_cases hsmall : Scalar.abs (det3 x y z) < 1e-10
  · rw [if_pos hsmall, if_pos (hlarge.mp hsmall)]
    exact .refl _
  · rw [if_neg hsmall, if_neg (mt hlarge.mpr hsmall)]
    have hne := ne_zero_of_large hsmall
    exact Rgb.alike_iff.mpr ⟨(alike_det3 he hy hz).div_of_ne hdet hne,
      (alike_det3 hx he hz).div_of_ne hdet hne, (alike_det3 hx hy he).div_of_ne hdet hne⟩

theorem Alike.slope (h : g.Alike k) (guess : Rgb S) {v w : Rgb S} (hvw : v.Alike w) (c : Channel) :
    (g.slope guess v c).Alike (k.slope guess w c) := by
  intro i
  unfold Grid.slope Grid.slopeTo
  rw [Rgb.get_ofFn, Rgb.get_ofFn]
  exact SignlessZeros.div _ (SignlessZeros.sub (h.tetrahedral _ i) (hvw i))

theorem alike_miss {v w : Rgb S} (hvw : v.Alike w) (target : Rgb S) :
    (miss v target).Alike (miss w target) := by
  intro c
  unfold miss
  rw [Rgb.get_ofFn, Rgb.get_ofFn]
  exact SignlessZeros.sub (hvw c) (.refl _)

theorem alike_length3 {v w : Rgb S} (h : v.Alike w) :
    ColorPipeline.Alike (length3 v) (length3 w) := by
  have hsquare : ∀ c, ColorPipeline.Alike (v.get c * v.get c) (w.get c * w.get c) :=
    fun c => SignlessZeros.mul (h c) (h c)
  exact SignlessZeros.sqrt
    (SignlessZeros.add (SignlessZeros.add (hsquare .red) (hsquare .green)) (hsquare .blue))

end Grid

section Search

variable [PlainSums S] {g k : Grid S}

/-- No channel is a negative zero. -/
def Rgb.IsPlain (p : Rgb S) : Prop := ∀ c, ColorPipeline.IsPlain (p.get c)

/-- The sign of a zero does not show in a step from a guess that is no negative zero. -/
theorem Grid.Alike.newtonStep (h : g.Alike k) {guess v w : Rgb S} (hguess : guess.IsPlain)
    (hvw : v.Alike w) (target : Rgb S) :
    g.newtonStep guess v target = k.newtonStep guess w target := by
  have herror : (Rgb.map (fun v => -v) (Grid.miss v target)).Alike
      (Rgb.map (fun v => -v) (Grid.miss w target)) := by
    intro c
    rw [Rgb.get_map, Rgb.get_map]
    exact SignlessZeros.neg (Grid.alike_miss hvw target c)
  have hmove := Grid.alike_solve3 (h.slope guess hvw .red) (h.slope guess hvw .green)
    (h.slope guess hvw .blue) herror
  unfold Grid.newtonStep Grid.moved
  dsimp only
  congr 1
  funext c
  rw [PlainSums.add_eq (hguess c) (SignlessZeros.mul (.refl _) (hmove c))]

/-- A step is limited to the cube, where no zero is negative. -/
theorem Grid.isPlain_newtonStep {guess : Rgb S} (hguess : guess.IsPlain) (v target : Rgb S) :
    (g.newtonStep guess v target).IsPlain := by
  intro c
  unfold Grid.newtonStep Grid.moved
  rw [Rgb.get_ofFn]
  exact (PlainSums.isPlain_add _ (hguess c)).clamp

theorem Grid.Alike.newton (h : g.Alike k) (target : Rgb S) (n : Nat) {guess : Rgb S}
    (hguess : guess.IsPlain) : g.newton target n guess = k.newton target n guess := by
  induction n generalizing guess with
  | zero => rfl
  | succ n ih =>
    have hvalue := h.tetrahedral guess
    have hclose := SignlessZeros.lt_iff (Grid.alike_length3 (Grid.alike_miss hvalue target))
      (.refl (Grid.closeEnough : S))
    unfold Grid.newton
    dsimp only
    rw [← h.newtonStep hguess hvalue, ih (Grid.isPlain_newtonStep hguess _ _)]
    exact if_congr hclose rfl rfl

end Search

/-! ## 3D tables -/

namespace Lut3D

/-- Tables that differ in the signs of zeros at most. -/
structure Alike (lut other : Lut3D S) : Prop where
  size : lut.size = other.size
  interpolation : lut.interpolation = other.interpolation
  entries : List.Forall₂ Rgb.Alike lut.entries.toList other.entries.toList

theorem Alike.grid {lut other : Lut3D S} (h : lut.Alike other) : lut.grid.Alike other.grid where
  size := h.size
  point r g b := by
    change (lut.entries.getD (lut.index r g b) _).Alike (other.entries.getD (other.index r g b) _)
    unfold Lut3D.index
    rw [h.size]
    exact alike_getD h.entries _ _

theorem isPlain_of_mem_gridColors [PlainSums S] {size : Nat} {p : Rgb S} (h : p ∈ gridColors size) :
    p.IsPlain := by
  obtain ⟨i, rfl⟩ := Array.mem_ofFn.mp h
  intro c
  cases c <;> exact PlainSums.isPlain_mul_inverse _ _

/-- The inverse tables do not even differ in the signs of zeros. -/
theorem Alike.entries_invert [PlainSums S] {lut other : Lut3D S} (h : lut.Alike other) :
    lut.invert.entries = other.invert.entries := by
  unfold Lut3D.invert
  dsimp only
  rw [← h.size]
  exact Array.map_congr_left fun p hp => h.grid.newton p _ (isPlain_of_mem_gridColors hp)

end Lut3D

end ColorPipeline
