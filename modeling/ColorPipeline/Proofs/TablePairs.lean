-- A 1D table and its inverse over the real numbers: where the limits that take the place of
-- the two do what they do, and where they do not.
import ColorPipeline.Proofs.Checks
import ColorPipeline.Proofs.Curves
import ColorPipeline.Proofs.Walks
import ColorPipeline.Render.Renderer

open scoped ColorPipeline.RealScalar

namespace ColorPipeline

/-! ## Tables as curves -/

namespace Lut1D

variable {lut : Lut1D ℝ}

/-- A table never falls where its curves do not. -/
theorem isNonDecreasing_iff : lut.isNonDecreasing ↔ ∀ ch, (lut.curve ch).NonDecreasing := by
  unfold isNonDecreasing
  rw [List.all_eq_true]
  constructor
  · intro h ch i hi
    change i + 1 < lut.size at hi
    have hrow := h i (List.mem_range.mpr (by omega))
    simp only [Bool.and_eq_true, decide_eq_true_eq] at hrow
    cases ch with
    | red => exact hrow.1.1
    | green => exact hrow.1.2
    | blue => exact hrow.2
  · intro h i hi
    have hi : i + 1 < lut.size := by
      have := List.mem_range.mp hi
      omega
    simp only [Bool.and_eq_true, decide_eq_true_eq]
    exact ⟨⟨h .red i hi, h .green i hi⟩, h .blue i hi⟩

theorem mem_channel {ch : Channel} {v : ℝ} :
    v ∈ lut.samples.toList.map (fun p => p.get ch) ↔
      ∃ i < lut.size, (lut.curve ch).sample i = v := by
  have hsample : ∀ i, (hi : i < lut.samples.size) →
      (lut.curve ch).sample i = lut.samples[i].get ch := by
    intro i hi
    change (lut.samples.getD i _).get ch = lut.samples[i].get ch
    rw [Array.getD_eq_getD_getElem?, Array.getElem?_eq_getElem hi, Option.getD_some]
  rw [List.mem_map]
  constructor
  · rintro ⟨p, hp, rfl⟩
    obtain ⟨i, hi, rfl⟩ := Array.mem_iff_getElem.mp (Array.mem_toList_iff.mp hp)
    exact ⟨i, hi, hsample i hi⟩
  · rintro ⟨i, hi, rfl⟩
    exact ⟨_, Array.mem_toList_iff.mpr (Array.getElem_mem hi), (hsample i hi).symm⟩

end Lut1D

/-! ## Extents -/

namespace Lut1DOp

/-- A step that keeps the least and the greatest number finds them in a list. -/
theorem foldl_extent {f : Option (ℝ × ℝ) → ℝ → Option (ℝ × ℝ)}
    (hf : ∀ a b v, f (some (a, b)) v = some (min a v, max b v)) {vs : List ℝ} {a b lo hi : ℝ}
    (h : vs.foldl f (some (a, b)) = some (lo, hi)) :
    lo ∈ a :: vs ∧ hi ∈ b :: vs ∧ lo ≤ a ∧ b ≤ hi ∧ ∀ v ∈ vs, lo ≤ v ∧ v ≤ hi := by
  induction vs generalizing a b with
  | nil =>
    cases h
    simp
  | cons v vs ih =>
    rw [List.foldl_cons, hf] at h
    obtain ⟨hlo, hhi, hlow, hhigh, hall⟩ := ih h
    refine ⟨?_, ?_, hlow.trans (min_le_left a v), (le_max_left b v).trans hhigh, ?_⟩
    · rcases List.mem_cons.mp hlo with rfl | hlo
      · rcases min_choice a v with h | h <;> simp [h]
      · simp [hlo]
    · rcases List.mem_cons.mp hhi with rfl | hhi
      · rcases max_choice b v with h | h <;> simp [h]
      · simp [hhi]
    · refine List.forall_mem_cons.mpr ⟨?_, hall⟩
      exact ⟨hlow.trans (min_le_right a v), (le_max_right b v).trans hhigh⟩

/-- An extent is that of the samples, and both ends are met. -/
theorem extent_eq_some {vs : List ℝ} {lo hi : ℝ} (h : extent vs = some (lo, hi)) :
    lo ∈ vs ∧ hi ∈ vs ∧ ∀ v ∈ vs, lo ≤ v ∧ v ≤ hi := by
  unfold extent at h
  have hfilter : (vs.filter fun v => !Scalar.isNaN v) = vs := List.filter_eq_self.mpr fun _ _ => rfl
  rw [hfilter] at h
  cases vs with
  | nil => cases h
  | cons v vs =>
    rw [List.foldl_cons] at h
    obtain ⟨hlo, hhi, hlow, hhigh, hall⟩ := foldl_extent (a := v) (b := v) (by
      intro a b w
      rw [← RealScalar.minNum_eq, ← RealScalar.maxNum_eq]) h
    exact ⟨hlo, hhi, List.forall_mem_cons.mpr ⟨⟨hlow, hhigh⟩, hall⟩⟩

/-- Channels that never fall and have a common extent begin and end with it. -/
theorem commonExtent_eq_some {l : Lut1DOp ℝ} {lo hi : ℝ} (hsize : 2 ≤ l.lut.size)
    (hrising : l.lut.isNonDecreasing) (h : l.commonExtent = some (lo, hi)) :
    lo < hi ∧ ∀ ch, (l.lut.curve ch).sample 0 = lo ∧
      (l.lut.curve ch).sample (l.lut.size - 1) = hi := by
  have hends : ∀ (ch : Channel) (lo hi : ℝ),
      extent (l.lut.samples.toList.map fun p => p.get ch) = some (lo, hi) →
        (l.lut.curve ch).sample 0 = lo ∧ (l.lut.curve ch).sample (l.lut.size - 1) = hi := by
    intro ch lo hi hextent
    have hcurve := Lut1D.isNonDecreasing_iff.mp hrising ch
    obtain ⟨hlo, hhi, hall⟩ := extent_eq_some hextent
    obtain ⟨i, hi', hlo⟩ := Lut1D.mem_channel.mp hlo
    obtain ⟨j, hj, hhi⟩ := Lut1D.mem_channel.mp hhi
    have hfirst := hall _ (Lut1D.mem_channel.mpr ⟨0, by omega, rfl⟩)
    have hlast := hall _ (Lut1D.mem_channel.mpr ⟨l.lut.size - 1, by omega, rfl⟩)
    have hfrom := hcurve.le (Nat.zero_le i) hi'
    have hto : (l.lut.curve ch).sample j ≤ (l.lut.curve ch).sample (l.lut.size - 1) :=
      hcurve.le (by omega) (by change l.lut.size - 1 < l.lut.size; omega)
    constructor <;> linarith
  unfold commonExtent at h
  extract_lets channel at h
  split at h
  · rename_i lo₁ hi₁ lo₂ hi₂ lo₃ hi₃ hred hgreen hblue
    split at h
    · rename_i hsame
      cases h
      simp only [Bool.and_eq_true, decide_eq_true_eq, RealScalar.beq_iff] at hsame
      obtain ⟨⟨⟨⟨hspan, rfl⟩, rfl⟩, rfl⟩, rfl⟩ := hsame
      refine ⟨hspan, ?_⟩
      intro ch
      cases ch with
      | red => exact hends .red _ _ hred
      | green => exact hends .green _ _ hgreen
      | blue => exact hends .blue _ _ hblue
    · cases h
  · cases h

/-- Over the real numbers a table is well-formed both ways where no curve falls. -/
theorem validate_of_nonDecreasing (lut : Lut1D ℝ) (hsize : 2 ≤ lut.size)
    (hcurves : ∀ ch, (lut.curve ch).NonDecreasing) (d : Direction) :
    ((⟨lut, d⟩ : Lut1DOp ℝ).validate : Except (OpError ℝ) Unit) = .ok () :=
  (validate_iff _).mpr ⟨hsize, fun _ _ => rfl, fun _ => Lut1D.isNonDecreasing_iff.mpr hcurves⟩

end Lut1DOp

/-! ## Renderers -/

namespace Renderer

theorem ofData_clamp {lo hi : ℝ} (h : lo < hi) : ∃ limits : Renderer ℝ,
    ofData (.range (RangeOp.clamp lo hi) : OpData ℝ ℝ) = .ok limits ∧
      ∀ px, limits.apply px = px.mapRgb fun c => c.map fun v => min (max v lo) hi := by
  have hscale : (hi - lo) / (hi - lo) = 1 := div_self (by linarith)
  refine ⟨_, rfl, ?_⟩
  intro px
  have hrange : ∀ v : ℝ, Scalar.minNum (Scalar.maxNum
      (v * ((hi - lo) / (hi - lo)) + (lo - lo * ((hi - lo) / (hi - lo)))) lo) hi =
        min (max v lo) hi := by
    intro v
    rw [RealScalar.minNum_eq, RealScalar.maxNum_eq, hscale]
    ring_nf
  change (px.mapRgb fun c => c.map fun v => Scalar.minNum (Scalar.maxNum
      (v * ((hi - lo) / (hi - lo)) + (lo - lo * ((hi - lo) / (hi - lo)))) lo) hi) = _
  simp only [hrange]

theorem ofData_table {l : Lut1DOp ℝ} (h : (l.validate : Except (OpError ℝ) Unit) = .ok ()) :
    ofData (.lut1D l : OpData ℝ ℝ) = .ok (lut1D l.lut l.direction) := by
  have hdata : (ofData (.lut1D l : OpData ℝ ℝ) : Except (OpError ℝ) (Renderer ℝ)) =
      (l.validate : Except (OpError ℝ) Unit).map fun _ => lut1D l.lut l.direction := rfl
  rw [hdata, h]
  rfl

end Renderer

/-! ## Pairs -/

namespace Lut1D

variable {lut : Lut1D ℝ}

/-- Work on each channel is the same on all pixels where it is the same on all values. -/
theorem mapRgb_eq_iff (f g : Channel → ℝ → ℝ) :
    (∀ px : Rgba ℝ, (px.mapRgb fun c => Rgb.ofFn fun ch => f ch (c.get ch)) =
      px.mapRgb fun c => Rgb.ofFn fun ch => g ch (c.get ch)) ↔ ∀ ch v, f ch v = g ch v := by
  constructor
  · intro h ch v
    have hgray := congrArg (fun px => px.rgb.get ch) (h (.ofRgb (Rgb.gray v) v))
    cases ch <;> exact hgray
  · intro h px
    simp only [h]

/-- Evaluating a table that can be inverted, and then inverting it, limits the inputs where
the table is made of lines that all rise, and only there. -/
theorem applyInverse_apply_iff (hsize : 2 ≤ lut.size) (hrising : lut.isNonDecreasing) :
    (∀ px : Rgba ℝ, (px.mapRgb lut.apply).mapRgb lut.applyInverse =
      px.mapRgb fun c => c.map fun v => min (max v 0) 1) ↔
      lut.interpolation.onCurve ≠ .nearest ∧ ∀ ch, (lut.curve ch).Increasing := by
  have hchannels := mapRgb_eq_iff
    (fun ch v => (lut.curve ch).invert ((lut.curve ch).eval (lut.interpolation.onCurve == .nearest) v))
    (fun _ v => min (max v 0) 1)
  have hcurves := fun ch => Curve.invert_eval_iff hsize (isNonDecreasing_iff.mp hrising ch)
    (lut.interpolation.onCurve == .nearest)
  rw [← beq_eq_false_iff_ne]
  refine hchannels.trans ?_
  constructor
  · intro h
    exact ⟨((hcurves .red).mp (h .red)).1, fun ch => ((hcurves ch).mp (h ch)).2⟩
  · rintro ⟨hlines, hrises⟩ ch
    exact (hcurves ch).mpr ⟨hlines, hrises ch⟩

/-- Inverting a table and then evaluating it limits the values where the table is made of
lines, flat or not. -/
theorem apply_applyInverse_iff (hsize : 2 ≤ lut.size) (hrising : lut.isNonDecreasing) {lo hi : ℝ}
    (hspan : lo < hi) (hends : ∀ ch, (lut.curve ch).sample 0 = lo ∧
      (lut.curve ch).sample (lut.size - 1) = hi) :
    (∀ px : Rgba ℝ, (px.mapRgb lut.applyInverse).mapRgb lut.apply =
      px.mapRgb fun c => c.map fun v => min (max v lo) hi) ↔
      lut.interpolation.onCurve ≠ .nearest := by
  have hchannels := mapRgb_eq_iff
    (fun ch v => (lut.curve ch).eval (lut.interpolation.onCurve == .nearest) ((lut.curve ch).invert v))
    (fun _ v => min (max v lo) hi)
  have hwithin : ∀ ch v, (lut.curve ch).withinSamples v = min (max v lo) hi := by
    intro ch v
    obtain ⟨hfirst, hlast⟩ := hends ch
    rw [Curve.withinSamples_eq, hfirst]
    exact congrArg (min (max v lo)) hlast
  have hcurves : ∀ ch, (∀ v, (lut.curve ch).eval (lut.interpolation.onCurve == .nearest)
      ((lut.curve ch).invert v) = min (max v lo) hi) ↔
        (lut.interpolation.onCurve == .nearest) = false := by
    intro ch
    obtain ⟨hfirst, hlast⟩ := hends ch
    have hcurve : (lut.curve ch).sample 0 < (lut.curve ch).sample ((lut.curve ch).size - 1) := by
      rw [hfirst]
      exact lt_of_lt_of_eq hspan hlast.symm
    simp only [← hwithin ch]
    exact Curve.eval_invert_iff hsize (isNonDecreasing_iff.mp hrising ch) hcurve _
  rw [← beq_eq_false_iff_ne]
  refine hchannels.trans ?_
  constructor
  · intro h
    exact (hcurves .red).mp (h .red)
  · intro hlines ch
    exact (hcurves ch).mpr hlines

end Lut1D

namespace Pipeline

theorem sameTable_self (entries : Array (Rgb ℝ)) : sameTable entries entries := by
  unfold sameTable
  rw [Array.isEqv_eq_decide]
  simp

theorem table_isInverse (lut : Lut1D ℝ) (d : Direction) :
    (⟨lut, d⟩ : Lut1DOp ℝ).isInverse ⟨lut, d.flip⟩ := by
  have hdirection : (d != d.flip) = true := by cases d <;> rfl
  unfold Lut1DOp.isInverse
  rw [sameTable_self, hdirection]
  rfl

/-- The forward table first, then its inverse: the pair becomes a clamp to zero and one. -/
theorem cancelRule_forward_table (lut : Lut1D ℝ) (i j : Option String) :
    cancelRule (⟨.lut1D ⟨lut, .forward⟩, i⟩ : Op ℝ ℝ) ⟨.lut1D ⟨lut, .inverse⟩, j⟩ =
      .ok (.merge { data := .range (RangeOp.clamp 0 1) }) := by
  have hclamp : (⟨lut, .forward⟩ : Lut1DOp ℝ).replacement = .clamp (RangeOp.clamp (0 : ℝ) 1) := by
    rw [← Nat.cast_zero, ← Nat.cast_one]
    rfl
  have hinverse : (⟨.lut1D ⟨lut, .forward⟩, i⟩ : Op ℝ ℝ).isInverse ⟨.lut1D ⟨lut, .inverse⟩, j⟩ :=
    table_isInverse lut .forward
  exact (cancelRule_eq_merge_iff _ _ _).mpr ⟨hinverse, rfl, _, hclamp, rfl⟩

/-- A table and its inverse make way for limits, which do the same on all pixels where the
table is made of lines, and where those lines all rise too if the inverse comes second. -/
theorem limits_do_what_a_table_and_its_inverse_do_iff (lut : Lut1D ℝ) (d : Direction)
    {i j : Option String} {made : Op ℝ ℝ}
    (hvalid : ∀ e, ((⟨lut, e⟩ : Lut1DOp ℝ).validate : Except (OpError ℝ) Unit) = .ok ())
    (hmade : cancelRule (⟨.lut1D ⟨lut, d⟩, i⟩ : Op ℝ ℝ) ⟨.lut1D ⟨lut, d.flip⟩, j⟩ =
      .ok (.merge made)) :
    ∃ first second limits : Renderer ℝ,
      Renderer.ofData (.lut1D ⟨lut, d⟩ : OpData ℝ ℝ) = .ok first ∧
      Renderer.ofData (.lut1D ⟨lut, d.flip⟩ : OpData ℝ ℝ) = .ok second ∧
      Renderer.ofData made.data = .ok limits ∧
      ((∀ px, second.apply (first.apply px) = limits.apply px) ↔
        lut.interpolation.onCurve ≠ .nearest ∧
          (d = .forward → ∀ ch, (lut.curve ch).Increasing)) := by
  obtain ⟨hsize, _, hrising⟩ := (Lut1DOp.validate_iff _).mp (hvalid .inverse)
  replace hrising : lut.isNonDecreasing := hrising rfl
  obtain ⟨_, _, r, hr, rfl⟩ := (cancelRule_eq_merge_iff _ _ _).mp hmade
  rw [Renderer.ofData_table (hvalid d), Renderer.ofData_table (hvalid d.flip)]
  cases d with
  | forward =>
    have hclamp : r = RangeOp.clamp 0 1 := by
      cases hr
      exact congrArg₂ RangeOp.clamp Nat.cast_zero Nat.cast_one
    obtain ⟨limits, hlimits, happly⟩ := Renderer.ofData_clamp zero_lt_one
    refine ⟨_, _, limits, rfl, rfl, hclamp ▸ hlimits, ?_⟩
    simp only [happly, true_imp_iff]
    exact Lut1D.applyInverse_apply_iff hsize hrising
  | inverse =>
    change (⟨lut, .inverse⟩ : Lut1DOp ℝ).replacement = .clamp r at hr
    simp only [Lut1DOp.replacement] at hr
    split at hr
    · rename_i lo hi hextent
      cases hr
      obtain ⟨hspan, hends⟩ := Lut1DOp.commonExtent_eq_some hsize hrising hextent
      obtain ⟨limits, hlimits, happly⟩ := Renderer.ofData_clamp hspan
      refine ⟨_, _, limits, rfl, rfl, hlimits, ?_⟩
      simp only [happly, reduceCtorEq, false_imp_iff, and_true]
      exact Lut1D.apply_applyInverse_iff hsize hrising hspan hends
    · cases hr

/-- A table of two samples, from black to white. -/
noncomputable def risingTable : Lut1D ℝ := { samples := #[Rgb.gray 0, Rgb.gray 1] }

theorem limits_do_what_a_rising_table_does :
    (∀ e, ((⟨risingTable, e⟩ : Lut1DOp ℝ).validate : Except (OpError ℝ) Unit) = .ok ()) ∧
      ∃ first second limits : Renderer ℝ,
        Renderer.ofData (.lut1D ⟨risingTable, .forward⟩ : OpData ℝ ℝ) = .ok first ∧
        Renderer.ofData (.lut1D ⟨risingTable, .inverse⟩ : OpData ℝ ℝ) = .ok second ∧
        Renderer.ofData (.range (RangeOp.clamp 0 1) : OpData ℝ ℝ) = .ok limits ∧
        ∀ px, second.apply (first.apply px) = limits.apply px := by
  have hrises : ∀ ch, (risingTable.curve ch).Increasing := by
    intro ch i hi
    change i + 1 < 2 at hi
    obtain rfl : i = 0 := by omega
    have hfirst : (risingTable.curve ch).sample 0 = 0 := by cases ch <;> rfl
    have hlast : (risingTable.curve ch).sample 1 = 1 := by cases ch <;> rfl
    rw [hfirst, hlast]
    exact zero_lt_one
  have hvalid := Lut1DOp.validate_of_nonDecreasing risingTable le_rfl
    fun ch => (hrises ch).nonDecreasing
  obtain ⟨first, second, limits, hfirst, hsecond, hlimits, hiff⟩ :=
    limits_do_what_a_table_and_its_inverse_do_iff risingTable .forward hvalid
      (cancelRule_forward_table risingTable none none)
  refine ⟨hvalid, first, second, limits, hfirst, hsecond, hlimits, hiff.mpr ⟨nofun, ?_⟩⟩
  exact fun _ => hrises

/-- A table of three samples, the first two of them black. -/
noncomputable def flatTable : Lut1D ℝ := { samples := #[Rgb.gray 0, Rgb.gray 0, Rgb.gray 1] }

theorem size_flatTable (ch : Channel) : (flatTable.curve ch).size = 3 := rfl

theorem sample_flatTable (ch : Channel) : (flatTable.curve ch).sample 0 = 0 ∧
    (flatTable.curve ch).sample 1 = 0 ∧ (flatTable.curve ch).sample 2 = 1 := by
  cases ch <;> exact ⟨rfl, rfl, rfl⟩

theorem nonDecreasing_flatTable (ch : Channel) : (flatTable.curve ch).NonDecreasing := by
  intro i hi
  obtain ⟨hzero, hone, htwo⟩ := sample_flatTable ch
  rw [size_flatTable] at hi
  obtain rfl | rfl : i = 0 ∨ i = 1 := by omega
  · rw [hzero, hone]
  · rw [hone, htwo]
    exact zero_le_one

theorem flatTable_one_quarter (ch : Channel) : (flatTable.curve ch).eval false (1 / 4) = 0 := by
  obtain ⟨hzero, hone, _⟩ := sample_flatTable ch
  have hposition : (flatTable.curve ch).position (1 / 4) = (0 : ℕ) + 1 / 2 := by
    rw [Curve.position_eq, size_flatTable]
    norm_num
  rw [Curve.eval_eq (by rw [size_flatTable]; decide), if_neg Bool.false_ne_true,
    Curve.linear_eq (by rw [size_flatTable]; decide) (by norm_num) (by norm_num) hposition, hzero,
    hone]
  norm_num

/-- A dark gray becomes black and stays black, but the limits leave it as it is. -/
theorem limits_do_not_do_what_a_flat_table_does :
    (∀ e, ((⟨flatTable, e⟩ : Lut1DOp ℝ).validate : Except (OpError ℝ) Unit) = .ok ()) ∧
      ∃ (made : Op ℝ ℝ) (first second limits : Renderer ℝ),
        cancelRule (⟨.lut1D ⟨flatTable, .forward⟩, none⟩ : Op ℝ ℝ)
          ⟨.lut1D ⟨flatTable, .inverse⟩, none⟩ = .ok (.merge made) ∧
        Renderer.ofData (.lut1D ⟨flatTable, .forward⟩ : OpData ℝ ℝ) = .ok first ∧
        Renderer.ofData (.lut1D ⟨flatTable, .inverse⟩ : OpData ℝ ℝ) = .ok second ∧
        Renderer.ofData made.data = .ok limits ∧
        (second.apply (first.apply (.ofRgb (Rgb.gray (1 / 4)) 1))).rgb = Rgb.gray 0 ∧
        (limits.apply (.ofRgb (Rgb.gray (1 / 4)) 1)).rgb = Rgb.gray (1 / 4) := by
  have hvalid := Lut1DOp.validate_of_nonDecreasing flatTable (by change 2 ≤ 3; decide)
    nonDecreasing_flatTable
  have hback : ∀ ch, (flatTable.curve ch).invert 0 = 0 := by
    intro ch
    exact Curve.invert_of_le (by rw [size_flatTable]; decide) (nonDecreasing_flatTable ch)
      (le_of_eq (sample_flatTable ch).1.symm)
  obtain ⟨limits, hlimits, happly⟩ := Renderer.ofData_clamp zero_lt_one
  refine ⟨hvalid, _, _, _, limits, cancelRule_forward_table flatTable none none,
    Renderer.ofData_table (hvalid .forward), Renderer.ofData_table (hvalid .inverse), hlimits,
    ?_, ?_⟩
  · change (Rgb.ofFn fun ch => (flatTable.curve ch).invert
      ((flatTable.curve ch).eval false ((Rgb.gray (1 / 4)).get ch))) = _
    simp only [Rgb.get_gray, flatTable_one_quarter, hback]
    rfl
  · have hquarter : min (max (1 / 4 : ℝ) 0) 1 = 1 / 4 := by norm_num
    rw [happly]
    change Rgb.gray (min (max (1 / 4 : ℝ) 0) 1) = _
    rw [hquarter]

end Pipeline

end ColorPipeline
