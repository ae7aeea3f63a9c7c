-- A table for two tables one after the other, over the real numbers. It is sampled at its own
-- points, so there, and beyond both ends, it does what the two tables do; in between it goes its
-- own way. A table that never falls keeps all values in order, whatever it does in between, so
-- what two of them do one after the other never falls either.
import ColorPipeline.Proofs.IdentityTables
import ColorPipeline.Proofs.LeastInputs
import ColorPipeline.Proofs.Validity

open scoped ColorPipeline.RealScalar

namespace ColorPipeline

/-! ## Curves -/

namespace Curve

variable {c : Curve ℝ}

theorem nearest_eq (c : Curve ℝ) (v : ℝ) :
    c.nearest v = c.sample (min (Grid.nearestPoint c.size v) (c.size - 1)) := by
  have hposition : c.position v = Grid.steps c.size v := position_eq c v
  unfold nearest Grid.nearestPoint
  rw [hposition]

theorem nearest_limited (c : Curve ℝ) (v : ℝ) : c.nearest (min (max v 0) 1) = c.nearest v := by
  unfold nearest
  rw [position_limited]

/-- An input beyond the ends has the value of the nearer end, with lines or with steps. -/
theorem eval_limited (hsize : 2 ≤ c.size) (toNearest : Bool) (v : ℝ) :
    c.eval toNearest (min (max v 0) 1) = c.eval toNearest v := by
  rw [eval_eq hsize, eval_eq hsize, nearest_limited, linear_limited]

/-- The curve goes through its samples, with lines or with steps. -/
theorem eval_inputAt (hsize : 2 ≤ c.size) (toNearest : Bool) {i : ℕ} (hi : i < c.size) :
    c.eval toNearest (Grid.inputAt c.size i) = c.sample i := by
  have hlast : (i : ℝ) ≤ ((c.size - 1 : ℕ) : ℝ) := Nat.cast_le.mpr (by omega)
  have hsteps : Grid.steps c.size (Grid.inputAt c.size i) = i :=
    Grid.steps_inputAt hsize (Nat.cast_nonneg i) hlast
  have hposition : c.position (Grid.inputAt c.size i) = i := (position_eq c _).trans hsteps
  rw [eval_eq hsize]
  cases toNearest with
  | true =>
    have hpoint : Grid.nearestPoint c.size (Grid.inputAt c.size i) = i := by
      rw [Grid.nearestPoint_eq_iff, hsteps]
      constructor <;> linarith
    rw [if_pos rfl, nearest_eq, hpoint, min_eq_left (by omega)]
  | false =>
    rw [if_neg Bool.false_ne_true]
    -- the last sample is the end of a line, all others are the start of one
    rcases Nat.lt_or_ge (i + 1) c.size with hnext | hend
    · rw [linear_eq hnext le_rfl zero_le_one (by rw [hposition, add_zero]), mul_zero, add_zero]
    · obtain ⟨k, rfl⟩ : ∃ k, i = k + 1 := ⟨i - 1, by omega⟩
      rw [linear_eq (k := k) (by omega) zero_le_one le_rfl (by rw [hposition, Nat.cast_succ]),
        mul_one, add_sub_cancel]

theorem monotone_nearest (hsize : 2 ≤ c.size) (hc : c.NonDecreasing) : Monotone c.nearest := by
  intro u v huv
  have hlimited : min (max u 0) 1 ≤ min (max v 0) 1 := min_le_min_right 1 (max_le_max_right 0 huv)
  have hsteps : Grid.steps c.size u ≤ Grid.steps c.size v :=
    mul_le_mul_of_nonneg_right hlimited (Nat.cast_nonneg _)
  have hpoint : Grid.nearestPoint c.size u ≤ Grid.nearestPoint c.size v := by
    unfold Grid.nearestPoint
    rw [RealScalar.toNat_round (Grid.steps_nonneg _ _),
      RealScalar.toNat_round (Grid.steps_nonneg _ _)]
    exact Nat.floor_mono (by linarith)
  rw [nearest_eq, nearest_eq]
  exact hc.le (min_le_min_right _ hpoint) (by omega)

/-- A curve that never falls keeps values in order, with lines or with steps. -/
theorem monotone_eval (hsize : 2 ≤ c.size) (hc : c.NonDecreasing) (toNearest : Bool) :
    Monotone (c.eval toNearest) := by
  intro u v huv
  rw [eval_eq hsize, eval_eq hsize]
  cases toNearest with
  | true => exact monotone_nearest hsize hc huv
  | false => exact monotone_linear hsize hc huv

end Curve

/-! ## Tables -/

namespace Lut1D

variable {lut next table : Lut1D ℝ}

/-- What a channel of the table makes of a value. -/
noncomputable def onValue (lut : Lut1D ℝ) (ch : Channel) (v : ℝ) : ℝ :=
  (lut.curve ch).eval (lut.interpolation.onCurve == .nearest) v

theorem get_apply_eq (lut : Lut1D ℝ) (p : Rgb ℝ) (ch : Channel) :
    (lut.apply p).get ch = lut.onValue ch (p.get ch) := Rgb.get_ofFn _ ch

/-- Below its inputs a table has the value of its first sample. -/
theorem onValue_of_nonpos (hsize : 2 ≤ lut.size) {v : ℝ} (hv : v ≤ 0) (ch : Channel) :
    lut.onValue ch v = (lut.curve ch).sample 0 := by
  have hlimited : min (max v 0) 1 = Grid.inputAt lut.size (0 : ℕ) := by
    rw [max_eq_right hv, min_eq_left zero_le_one, Grid.inputAt, Nat.cast_zero, zero_div]
  unfold onValue
  rw [← Curve.eval_limited hsize, hlimited]
  exact Curve.eval_inputAt hsize _ (Nat.zero_lt_of_lt hsize)

/-- Above them it has that of its last. -/
theorem onValue_of_one_le (hsize : 2 ≤ lut.size) {v : ℝ} (hv : 1 ≤ v) (ch : Channel) :
    lut.onValue ch v = (lut.curve ch).sample (lut.size - 1) := by
  have hpos := Curve.cast_size_sub_one_pos hsize
  have hlimited : min (max v 0) 1 = Grid.inputAt lut.size (lut.size - 1 : ℕ) := by
    rw [max_eq_left (by linarith), min_eq_right hv, Grid.inputAt, div_self (ne_of_gt hpos)]
  unfold onValue
  rw [← Curve.eval_limited hsize, hlimited]
  exact Curve.eval_inputAt hsize _ (Nat.sub_lt (Nat.zero_lt_of_lt hsize) Nat.zero_lt_one)

/-- The samples of a composed table, and what it takes from the first table. -/
theorem of_compose {size : ℕ} (hsize : 2 ≤ size) (h : lut.compose next size = .ok table) :
    table.size = size ∧ table.interpolation = lut.interpolation ∧
      ∀ i < size, ∀ ch, (table.curve ch).sample i =
        next.onValue ch (lut.onValue ch (Grid.inputAt size i)) := by
  rw [compose_eq_ok lut next hsize] at h
  cases h
  refine ⟨Array.size_ofFn, rfl, ?_⟩
  intro i hi ch
  change (Array.getD _ i (Rgb.gray ((0 : ℕ) : ℝ))).get ch = _
  rw [Array.getD_eq_getD_getElem?, Array.getElem?_ofFn, dif_pos hi, Option.getD_some,
    get_apply_eq, get_apply_eq, Rgb.get_gray, gridPoint_eq]

/-- At its own points a composed table does what the two tables do. -/
theorem onValue_inputAt_of_compose {size : ℕ} (hsize : 2 ≤ size)
    (h : lut.compose next size = .ok table) {i : ℕ} (hi : i < size) (ch : Channel) :
    table.onValue ch (Grid.inputAt size i) =
      next.onValue ch (lut.onValue ch (Grid.inputAt size i)) := by
  obtain ⟨hcount, _, hsample⟩ := of_compose hsize h
  rw [← hsample i hi]
  subst hcount
  exact Curve.eval_inputAt hsize _ hi

/-- Beyond its ends it does what they do there. -/
theorem onValue_of_compose_of_not_mem {size : ℕ} (hlut : 2 ≤ lut.size) (hsize : 2 ≤ size)
    (h : lut.compose next size = .ok table) {v : ℝ} (hv : v ∉ Set.Icc (0 : ℝ) 1) (ch : Channel) :
    table.onValue ch v = next.onValue ch (lut.onValue ch v) := by
  obtain ⟨hcount, _, hsample⟩ := of_compose hsize h
  have htable : 2 ≤ table.size := hsize.trans_eq hcount.symm
  have hpos := Curve.cast_size_sub_one_pos hsize
  rw [Set.mem_Icc, not_and_or, not_le, not_le] at hv
  rcases hv with hlow | hhigh
  · have hfirst : Grid.inputAt size (0 : ℕ) = 0 := by rw [Grid.inputAt, Nat.cast_zero, zero_div]
    rw [onValue_of_nonpos htable (le_of_lt hlow), hsample 0 (by omega), hfirst,
      onValue_of_nonpos hlut le_rfl, onValue_of_nonpos hlut (le_of_lt hlow)]
  · have hlast : Grid.inputAt size (size - 1 : ℕ) = 1 := by
      rw [Grid.inputAt, div_self (ne_of_gt hpos)]
    rw [onValue_of_one_le htable (le_of_lt hhigh), hcount, hsample (size - 1) (by omega), hlast,
      onValue_of_one_le hlut le_rfl, onValue_of_one_le hlut (le_of_lt hhigh)]

theorem nonDecreasing_of_compose {size : ℕ} (hlut : 2 ≤ lut.size) (hnext : 2 ≤ next.size)
    (hsize : 2 ≤ size) (h : lut.compose next size = .ok table) {ch : Channel}
    (hfirst : (lut.curve ch).NonDecreasing) (hsecond : (next.curve ch).NonDecreasing) :
    (table.curve ch).NonDecreasing := by
  obtain ⟨hcount, _, hsample⟩ := of_compose hsize h
  intro i hi
  have hi : i + 1 < size := hcount ▸ hi
  have hinput : Grid.inputAt size (i : ℕ) ≤ Grid.inputAt size (i + 1 : ℕ) :=
    Grid.inputAt_mono size (Nat.cast_le.mpr (Nat.le_succ i))
  rw [hsample i (by omega), hsample (i + 1) hi]
  exact Curve.monotone_eval hnext hsecond _ (Curve.monotone_eval hlut hfirst _ hinput)

/-- Two tables compose to one of any size from two samples on. In each channel, at the inputs of
its samples and outside of the inputs from 0 to 1, it does exactly what the two do one after the
other. Where neither of the two ever falls, it never falls either, so it can be inverted. -/
theorem a_composed_table_does_what_both_do_at_its_samples (lut next : Lut1D ℝ)
    (hlut : 2 ≤ lut.size) (hnext : 2 ≤ next.size) {size : ℕ} (hsize : 2 ≤ size) :
    ∃ table, lut.compose next size = .ok table ∧ table.size = size ∧
      (∀ (p : Rgb ℝ) (ch : Channel),
        ((∃ i < size, p.get ch = i / (size - 1)) ∨ p.get ch ∉ Set.Icc 0 1) →
          (table.apply p).get ch = (next.apply (lut.apply p)).get ch) ∧
      (lut.isNonDecreasing → next.isNonDecreasing → table.isNonDecreasing ∧
        ((⟨table, .inverse⟩ : Lut1DOp ℝ).validate : Except (OpError ℝ) Unit) = .ok ()) := by
  have htable := compose_eq_ok lut next hsize
  obtain ⟨hcount, _, _⟩ := of_compose hsize htable
  refine ⟨_, htable, hcount, ?_, ?_⟩
  · intro p ch hinput
    rw [get_apply_eq, get_apply_eq, get_apply_eq]
    rcases hinput with ⟨i, hi, hpoint⟩ | houtside
    · have hpoint : p.get ch = Grid.inputAt size i := by
        rw [hpoint, Grid.inputAt, Nat.cast_sub (by omega), Nat.cast_one]
      rw [hpoint]
      exact onValue_inputAt_of_compose hsize htable hi ch
    · exact onValue_of_compose_of_not_mem hlut hsize htable houtside ch
  · intro hfirst hsecond
    have hcurves := fun ch => nonDecreasing_of_compose hlut hnext hsize htable
      (isNonDecreasing_iff.mp hfirst ch) (isNonDecreasing_iff.mp hsecond ch)
    exact ⟨isNonDecreasing_iff.mpr hcurves,
      Lut1DOp.validate_of_nonDecreasing _ (hcount.symm ▸ hsize) hcurves .inverse⟩

theorem nonDecreasing_steppedTable (ch : Channel) :
    (Pipeline.steppedTable.curve ch).NonDecreasing := by
  intro i hi
  change i + 1 < 2 at hi
  obtain rfl : i = 0 := by omega
  cases ch <;> exact zero_le_one

theorem plateau_one_quarter : plateau.onValue .red (1 / 4) = 1 / 2 := by
  have hlast : (((plateau.curve .red).size - 1 : ℕ) : ℝ) = ((2 : ℕ) : ℝ) := rfl
  have hposition : (plateau.curve .red).position (1 / 4) = (0 : ℕ) + 1 / 2 := by
    rw [Curve.position_eq, hlast]
    norm_num
  change (plateau.curve .red).eval false (1 / 4) = _
  rw [Curve.eval_eq two_le_size_plateau, if_neg Bool.false_ne_true,
    Curve.linear_eq (by change 1 < 3; decide) (by norm_num) (by norm_num) hposition]
  change (0 : ℝ) + (1 - 0) * (1 / 2) = 1 / 2
  norm_num

theorem steppedTable_one_half : Pipeline.steppedTable.onValue .red (1 / 2) = 1 := by
  have hpoint : Grid.nearestPoint 2 (1 / 2) = 1 := by
    rw [Grid.nearestPoint_eq_iff, Grid.steps]
    norm_num
  change (Pipeline.steppedTable.curve .red).eval true (1 / 2) = 1
  rw [Curve.eval_eq (Nat.le_refl 2), if_pos rfl, Curve.nearest_eq]
  change (Pipeline.steppedTable.curve .red).sample (min (Grid.nearestPoint 2 (1 / 2)) 1) = 1
  rw [hpoint]
  rfl

/-- A ramp to a plateau, and then steps: half of the ramp is enough for white. -/
theorem half_of_a_ramp_is_stepped_to_white :
    2 ≤ plateau.size ∧ 2 ≤ Pipeline.steppedTable.size ∧ plateau.isNonDecreasing ∧
      Pipeline.steppedTable.isNonDecreasing ∧
      ∃ table, plateau.compose Pipeline.steppedTable 5 = .ok table ∧
        table.apply ⟨1 / 4, -1, 2⟩ = ⟨1, 0, 1⟩ ∧ table.isNonDecreasing ∧
        ((⟨table, .inverse⟩ : Lut1DOp ℝ).validate : Except (OpError ℝ) Unit) = .ok () := by
  have hramp := two_le_size_plateau
  have hsteps : 2 ≤ Pipeline.steppedTable.size := Nat.le_refl 2
  have hrises : plateau.isNonDecreasing := isNonDecreasing_iff.mpr nonDecreasing_plateau
  have hrises' : Pipeline.steppedTable.isNonDecreasing :=
    isNonDecreasing_iff.mpr nonDecreasing_steppedTable
  obtain ⟨table, htable, _, hvalue, hkeeps⟩ :=
    a_composed_table_does_what_both_do_at_its_samples plateau Pipeline.steppedTable hramp hsteps
      (by decide : 2 ≤ 5)
  have happly : ∀ ch, (table.apply ⟨1 / 4, -1, 2⟩).get ch = (⟨1, 0, 1⟩ : Rgb ℝ).get ch := by
    intro ch
    have hboth := hvalue ⟨1 / 4, -1, 2⟩ ch
    rw [get_apply_eq _ (plateau.apply _), get_apply_eq plateau] at hboth
    cases ch with
    | red =>
      refine (hboth (.inl ⟨1, by decide, by norm_num [Rgb.get]⟩)).trans ?_
      exact (congrArg (Pipeline.steppedTable.onValue .red) plateau_one_quarter).trans
        steppedTable_one_half
    | green =>
      refine (hboth (.inr (by norm_num [Rgb.get]))).trans ?_
      rw [onValue_of_nonpos hramp (by norm_num [Rgb.get])]
      exact onValue_of_nonpos hsteps le_rfl _
    | blue =>
      refine (hboth (.inr (by norm_num [Rgb.get]))).trans ?_
      rw [onValue_of_one_le hramp (by norm_num [Rgb.get])]
      exact onValue_of_one_le hsteps le_rfl _
  obtain ⟨hkeeps, hvalid⟩ := hkeeps hrises hrises'
  have hcolor : table.apply ⟨1 / 4, -1, 2⟩ = ⟨1, 0, 1⟩ :=
    (Rgb.mk.injEq ..).mpr ⟨happly .red, happly .green, happly .blue⟩
  exact ⟨hramp, hsteps, hrises, hrises', table, htable, hcolor, hkeeps, hvalid⟩

end Lut1D

end ColorPipeline
