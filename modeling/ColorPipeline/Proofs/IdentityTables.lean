-- Tables that count as identities, over the real numbers. The identity test looks at the entries
-- alone, and the optimizer puts limits in the place of a table that passes it. They come close
-- to what the table does unless the table takes the nearest entry, and then only where the
-- entries are dense enough.
import ColorPipeline.Pipeline.Optimizer
import ColorPipeline.Proofs.NearGrids
import ColorPipeline.Proofs.TablePairs

open scoped ColorPipeline.RealScalar

namespace ColorPipeline

/-! ## Tables as grids -/

namespace Lut1D

variable {lut : Lut1D ℝ}

theorem gridPoint_eq (size i : ℕ) : (gridPoint size i : ℝ) = Grid.inputAt size i := by
  have h : (gridPoint size i : ℝ) = (i : ℝ) * (((1 : ℕ) : ℝ) / ((size - 1 : ℕ) : ℝ)) := rfl
  rw [h, Nat.cast_one, mul_one_div]
  rfl

/-- A table of curves as a grid with an axis for each of them. -/
noncomputable def asGrid (lut : Lut1D ℝ) : Grid ℝ where
  size := lut.size
  point r g b := ⟨(lut.entry r).red, (lut.entry g).green, (lut.entry b).blue⟩

theorem get_entryAt (lut : Lut1D ℝ) (i : Rgb ℕ) (ch : Channel) :
    (lut.asGrid.entryAt i).get ch = (lut.entry (i.get ch)).get ch := by
  cases ch <;> rfl

/-- The other axes blend equal values. -/
theorem trilinear_asGrid (lut : Lut1D ℝ) (p : Rgb ℝ) (ch : Channel) :
    let cell := lut.asGrid.place p
    (lut.asGrid.trilinear p).get ch = Grid.blend ((lut.curve ch).sample (cell.base.get ch))
      ((lut.curve ch).sample (cell.base.get ch + 1)) (cell.fraction.get ch) := by
  have hcorner : ∀ (base : Rgb ℕ) (red green blue : Bool),
      (lut.asGrid.corner base red green blue).get ch =
        (lut.curve ch).sample (base.get ch + ((⟨red, green, blue⟩ : Rgb Bool).get ch).toNat) := by
    intro base red green blue
    cases ch <;> rfl
  unfold Grid.trilinear
  simp only [Rgb.get_ofFn, hcorner]
  cases ch <;> simp [Rgb.get, Grid.blend_self]

/-- A curve table is a grid for each channel. -/
theorem get_apply (hsize : 2 ≤ lut.size) (p : Rgb ℝ) (ch : Channel) :
    (lut.apply p).get ch = (lut.asGrid.eval lut.interpolation.onCurve p).get ch := by
  have happly : (lut.apply p).get ch =
      (lut.curve ch).eval (lut.interpolation.onCurve == .nearest) (p.get ch) := Rgb.get_ofFn _ ch
  have hnearest : (lut.curve ch).nearest (p.get ch) = (lut.asGrid.nearest p).get ch := by
    cases ch <;> rfl
  have hlinear : (lut.curve ch).linear (p.get ch) = (lut.asGrid.trilinear p).get ch := by
    let cell := lut.asGrid.place p
    have hline : (lut.curve ch).linear (p.get ch) = (lut.curve ch).sample (cell.base.get ch) +
        ((lut.curve ch).sample (cell.base.get ch + 1) - (lut.curve ch).sample (cell.base.get ch)) *
          cell.fraction.get ch := by
      cases ch <;> rfl
    rw [trilinear_asGrid, hline, Grid.blend_eq]
    ring
  rw [happly, Curve.eval_eq hsize]
  cases lut.interpolation
  · exact hnearest
  · exact hlinear
  · exact hlinear
  · exact hlinear

theorem isIdentity_iff (e : ℝ) :
    lut.isIdentity e ↔ 2 ≤ lut.size ∧ lut.asGrid.IsNearIdentity e := by
  have hsample : ∀ i, (lut.entry i).toList.all
      (fun v => decide (Scalar.abs (v - gridPoint lut.size i) ≤ e)) ↔
        ∀ ch, |(lut.entry i).get ch - Grid.inputAt lut.size i| ≤ e := by
    intro i
    simp only [List.all_eq_true, decide_eq_true_eq, Rgb.forall_mem_toList, gridPoint_eq]
    rfl
  unfold isIdentity
  rw [Bool.and_eq_true, decide_eq_true_eq, List.all_eq_true]
  simp only [List.mem_range, hsample]
  refine and_congr_right fun _ => ?_
  constructor
  · intro h i hi ch
    rw [get_entryAt]
    exact h _ (hi ch) ch
  · intro h i hi ch
    have hgray := h (Rgb.gray i) (fun c => (Rgb.get_gray i c).symm ▸ hi) ch
    rwa [get_entryAt, Rgb.get_gray] at hgray

/-- A table of black and white, or nearly so, counts as an identity. -/
theorem isIdentity_of_two {w e : ℝ} (hsamples : lut.samples = #[Rgb.gray 0, Rgb.gray w])
    (hwhite : |w - 1| ≤ e) : lut.isIdentity e := by
  have hsize : lut.size = 2 := congrArg Array.size hsamples
  have hentry : ∀ i, lut.entry i = #[Rgb.gray 0, Rgb.gray w].getD i (Rgb.gray ((0 : ℕ) : ℝ)) :=
    fun i => congrArg (fun a => Array.getD a i (Rgb.gray ((0 : ℕ) : ℝ))) hsamples
  rw [isIdentity_iff]
  refine ⟨hsize.ge, ?_⟩
  intro i hi ch
  have hlt : i.get ch < 2 := (hi ch).trans_eq hsize
  have hlast : Grid.inputAt lut.asGrid.size (i.get ch) = i.get ch := by
    change ((i.get ch : ℕ) : ℝ) / ((lut.size - 1 : ℕ) : ℝ) = _
    rw [hsize, Nat.cast_one, div_one]
  rw [get_entryAt, hlast, hentry]
  obtain hzero | hone : i.get ch = 0 ∨ i.get ch = 1 := by omega
  · have hblack : (#[Rgb.gray 0, Rgb.gray w].getD 0 (Rgb.gray ((0 : ℕ) : ℝ))).get ch = 0 :=
      Rgb.get_gray 0 ch
    rw [hzero, hblack, Nat.cast_zero, sub_zero, abs_zero]
    exact (abs_nonneg _).trans hwhite
  · have hwhite' : (#[Rgb.gray 0, Rgb.gray w].getD 1 (Rgb.gray ((0 : ℕ) : ℝ))).get ch = w :=
      Rgb.get_gray w ch
    rw [hone, hwhite', Nat.cast_one]
    exact hwhite

end Lut1D

namespace Lut3D

variable {lut : Lut3D ℝ}

theorem coordinate_eq (size i : ℕ) : (coordinate size i : ℝ) = Grid.inputAt size i :=
  Lut1D.gridPoint_eq size i

theorem apply_eq (p : Rgb ℝ) : lut.apply p = lut.grid.eval lut.interpolation.onGrid p := by
  unfold apply
  cases lut.interpolation <;> rfl

theorem isIdentity_iff (e : ℝ) : lut.isIdentity e ↔ lut.grid.IsNearIdentity e := by
  unfold isIdentity isNear
  simp only [Bool.and_eq_true, decide_eq_true_eq, List.all_eq_true, List.mem_range,
    coordinate_eq]
  constructor
  · rintro h ⟨r, g, b⟩ hi ch
    obtain ⟨⟨hred, hgreen⟩, hblue⟩ := h r (hi .red) g (hi .green) b (hi .blue)
    cases ch with
    | red => exact hred
    | green => exact hgreen
    | blue => exact hblue
  · intro h r hr g hg b hb
    have hi : lut.grid.HasPoint ⟨r, g, b⟩ := by
      intro ch
      cases ch with
      | red => exact hr
      | green => exact hg
      | blue => exact hb
    exact ⟨⟨h _ hi .red, h _ hi .green⟩, h _ hi .blue⟩

end Lut3D

/-! ## Ops -/

theorem Renderer.ofData_grid {l : Lut3DOp ℝ}
    (h : (l.validate : Except (OpError ℝ) Unit) = .ok ()) :
    ofData (.lut3D l : OpData ℝ ℝ) = .ok (lut3D l.evaluatedGrid) := by
  have hdata : (ofData (.lut3D l : OpData ℝ ℝ) : Except (OpError ℝ) (Renderer ℝ)) =
      (l.validate : Except (OpError ℝ) Unit).map fun _ => lut3D l.evaluatedGrid := rfl
  rw [hdata, h]
  rfl

namespace OpData

/-- The grid of a forward table, and the method that it is read with. -/
noncomputable def forwardGrid? : OpData ℝ ℝ → Option (Grid ℝ × Interpolation)
  | .lut1D ⟨lut, .forward⟩ => some (lut.asGrid, lut.interpolation.onCurve)
  | .lut3D ⟨lut, .forward⟩ => some (lut.grid, lut.interpolation.onGrid)
  | _ => none

theorem tableTolerance_eq : (tableTolerance : ℝ) = 1 / 10 ^ 5 := by
  refine (RealScalar.ofDecimal_eq 1 5).trans ?_
  norm_num

/-- The op does what a method finds in a grid. -/
structure RendersGrid (data : OpData ℝ ℝ) (g : Grid ℝ) (method : Interpolation) : Prop where
  size : 2 ≤ g.size
  isIdentity : data.isIdentity ↔ g.IsNearIdentity (1 / 10 ^ 5)
  replacement : data.replacement = .clamp (RangeOp.clamp (0 : ℝ) 1)
  renderer : ∃ (renderer : Renderer ℝ) (f : Rgb ℝ → Rgb ℝ), Renderer.ofData data = .ok renderer ∧
    (∀ px, renderer.apply px = px.mapRgb f) ∧ ∀ p ch, (f p).get ch = (g.eval method p).get ch

/-- A forward table is rendered as its grid. -/
theorem rendersGrid {data : OpData ℝ ℝ} {g : Grid ℝ} {method : Interpolation}
    (hgrid : data.forwardGrid? = some (g, method))
    (hvalid : (data.validate : Except (OpError ℝ) Unit) = .ok ()) :
    data.RendersGrid g method := by
  have hclamp : RangeOp.clamp ((0 : ℕ) : ℝ) ((1 : ℕ) : ℝ) = RangeOp.clamp 0 1 :=
    congrArg₂ RangeOp.clamp Nat.cast_zero Nat.cast_one
  unfold forwardGrid? at hgrid
  split at hgrid
  · rename_i lut
    cases hgrid
    obtain ⟨hsize, _, _⟩ := (Lut1DOp.validate_iff _).mp hvalid
    refine ⟨hsize, ?_, congrArg Replacement.clamp hclamp, _, _, Renderer.ofData_table hvalid,
      fun _ => rfl, Lut1D.get_apply hsize⟩
    rw [← tableTolerance_eq]
    exact (lut.isIdentity_iff _).trans (and_iff_right hsize)
  · rename_i lut
    cases hgrid
    obtain ⟨hsize, _, _⟩ := (Lut3DOp.validate_iff _).mp hvalid
    refine ⟨hsize, ?_, congrArg Replacement.clamp hclamp, _, _, Renderer.ofData_grid hvalid,
      fun _ => rfl, fun p ch => congrArg (fun c => c.get ch) (lut.apply_eq p)⟩
    rw [← tableTolerance_eq]
    exact lut.isIdentity_iff _
  · cases hgrid

end OpData

namespace Pipeline

/-- The limits that take the place of a table that counts as an identity come as close to it as
its entries come to their own colours, on all pixels: always where values between the entries
are found by blends or walks, and where the nearest entry is taken if all entries are as close
to the middles around their points, and only then. -/
theorem limits_come_close_to_an_identity_table_iff (op : Op ℝ ℝ) {g : Grid ℝ}
    {method : Interpolation} (hgrid : op.data.forwardGrid? = some (g, method))
    (hvalid : (op.data.validate : Except (OpError ℝ) Unit) = .ok ()) (hidentity : op.isIdentity) :
    ∃ table limits : Renderer ℝ,
      withoutIdentity op = [{ data := .range (RangeOp.clamp 0 1) }] ∧
      Renderer.ofData op.data = .ok table ∧
      Renderer.ofData (.range (RangeOp.clamp 0 1) : OpData ℝ ℝ) = .ok limits ∧
      (∀ px, (table.apply px).alpha = (limits.apply px).alpha) ∧
      ((∀ px ch, |(table.apply px).rgb.get ch - (limits.apply px).rgb.get ch| ≤ 1 / 10 ^ 5) ↔
        (method = .nearest → g.IsNearMiddles (1 / 10 ^ 5))) := by
  obtain ⟨hsize, hnear, hreplacement, table, f, htable, happly, hvalue⟩ :=
    OpData.rendersGrid hgrid hvalid
  obtain ⟨limits, hlimits, happly'⟩ := Renderer.ofData_clamp zero_lt_one
  have hsingle : withoutIdentity op = [{ data := .range (RangeOp.clamp 0 1) }] := by
    unfold withoutIdentity
    rw [if_pos hidentity, hreplacement]
  refine ⟨table, limits, hsingle, htable, hlimits, ?_, ?_⟩
  · intro px
    rw [happly, happly']
    rfl
  · have htable : ∀ px ch, (table.apply px).rgb.get ch = (g.eval method px.rgb).get ch := by
      intro px ch
      rw [happly, ← hvalue]
      rfl
    have hlimits : ∀ px ch, (limits.apply px).rgb.get ch = min (max (px.rgb.get ch) 0) 1 := by
      intro px ch
      rw [happly']
      cases ch <;> rfl
    simp only [htable, hlimits]
    rw [← Grid.forall_eval_iff hsize (hnear.mp hidentity) method]
    constructor
    · intro h p
      exact h (Rgba.ofRgb p 1)
    · intro h px
      exact h px.rgb

/-- A table of two samples, the white one as bright as the identity test lets it be. -/
noncomputable def brightTable : Lut1D ℝ := { samples := #[Rgb.gray 0, Rgb.gray (1 + tableTolerance)] }

/-- A bright table is valid and counts as an identity, and the limits come close to it. -/
theorem limits_come_close_to_a_bright_table :
    let op : Op ℝ ℝ := { data := .lut1D ⟨brightTable, .forward⟩ }
    (op.data.validate : Except (OpError ℝ) Unit) = .ok () ∧ op.isIdentity ∧
      ∃ table limits : Renderer ℝ, withoutIdentity op = [{ data := .range (RangeOp.clamp 0 1) }] ∧
        Renderer.ofData op.data = .ok table ∧
        Renderer.ofData (.range (RangeOp.clamp 0 1) : OpData ℝ ℝ) = .ok limits ∧
        ∀ px ch, |(table.apply px).rgb.get ch - (limits.apply px).rgb.get ch| ≤ 1 / 10 ^ 5 := by
  intro op
  have hsize : 2 ≤ brightTable.size := Nat.le_refl 2
  have hvalid : (op.data.validate : Except (OpError ℝ) Unit) = .ok () :=
    (Lut1DOp.validate_iff _).mpr ⟨hsize, fun _ _ => rfl, nofun⟩
  have hidentity : op.isIdentity := by
    change brightTable.isIdentity tableTolerance
    apply Lut1D.isIdentity_of_two rfl
    rw [add_sub_cancel_left, OpData.tableTolerance_eq]
    norm_num
  obtain ⟨table, limits, hsingle, htable, hlimits, _, hiff⟩ :=
    limits_come_close_to_an_identity_table_iff op rfl hvalid hidentity
  exact ⟨hvalid, hidentity, table, limits, hsingle, htable, hlimits, hiff.mpr nofun⟩

/-- A table of two samples, with nothing between them. -/
noncomputable def steppedTable : Lut1D ℝ :=
  { samples := #[Rgb.gray 0, Rgb.gray 1], interpolation := .nearest }

theorem steppedTable_one_quarter (ch : Channel) :
    (steppedTable.curve ch).eval true (1 / 4) = 0 := by
  have hposition : (steppedTable.curve ch).position (1 / 4) = 1 / 4 := by
    have hlast : (steppedTable.curve ch).size - 1 = 1 := rfl
    rw [Curve.position_eq, hlast]
    norm_num
  rw [Curve.eval_eq (Nat.le_refl 2), if_pos rfl,
    Curve.nearest_eq_first (by rw [hposition]; norm_num) (by rw [hposition]; norm_num)]
  exact Rgb.get_gray 0 ch

/-- A dark gray is black after a table of steps, but the limits leave it as it is. -/
theorem limits_do_not_come_close_to_a_table_of_steps :
    let op : Op ℝ ℝ := { data := .lut1D ⟨steppedTable, .forward⟩ }
    (op.data.validate : Except (OpError ℝ) Unit) = .ok () ∧ op.isIdentity ∧
      ∃ table limits : Renderer ℝ, withoutIdentity op = [{ data := .range (RangeOp.clamp 0 1) }] ∧
        Renderer.ofData op.data = .ok table ∧
        Renderer.ofData (.range (RangeOp.clamp 0 1) : OpData ℝ ℝ) = .ok limits ∧
        (table.apply (.ofRgb (Rgb.gray (1 / 4)) 1)).rgb = Rgb.gray 0 ∧
        (limits.apply (.ofRgb (Rgb.gray (1 / 4)) 1)).rgb = Rgb.gray (1 / 4) ∧
        ¬ ∀ px ch, |(table.apply px).rgb.get ch - (limits.apply px).rgb.get ch| ≤ 1 / 10 ^ 5 := by
  intro op
  have hsize : 2 ≤ steppedTable.size := Nat.le_refl 2
  have hvalid : (op.data.validate : Except (OpError ℝ) Unit) = .ok () :=
    (Lut1DOp.validate_iff _).mpr ⟨hsize, fun _ _ => rfl, nofun⟩
  have hidentity : op.isIdentity := by
    change steppedTable.isIdentity tableTolerance
    apply Lut1D.isIdentity_of_two rfl
    rw [OpData.tableTolerance_eq, sub_self, abs_zero]
    norm_num
  obtain ⟨limits, hlimits, happly⟩ := Renderer.ofData_clamp zero_lt_one
  have hsingle : withoutIdentity op = [{ data := .range (RangeOp.clamp 0 1) }] := by
    unfold withoutIdentity
    rw [if_pos hidentity, (OpData.rendersGrid rfl hvalid).replacement]
  have hblack : ((Renderer.lut1D steppedTable .forward).apply (.ofRgb (Rgb.gray (1 / 4)) 1)).rgb =
      Rgb.gray 0 := by
    change Rgb.ofFn (fun ch => (steppedTable.curve ch).eval true ((Rgb.gray (1 / 4)).get ch)) = _
    simp only [Rgb.get_gray, steppedTable_one_quarter]
    rfl
  have hgray : (limits.apply (.ofRgb (Rgb.gray (1 / 4)) 1)).rgb = Rgb.gray (1 / 4) := by
    have hquarter : min (max (1 / 4 : ℝ) 0) 1 = 1 / 4 := by norm_num
    rw [happly]
    change Rgb.gray (min (max (1 / 4 : ℝ) 0) 1) = _
    rw [hquarter]
  refine ⟨hvalid, hidentity, _, limits, hsingle, Renderer.ofData_table hvalid, hlimits, hblack,
    hgray, ?_⟩
  intro hclose
  have hred := hclose (.ofRgb (Rgb.gray (1 / 4)) 1) .red
  rw [hblack, hgray, Rgb.get_gray, Rgb.get_gray] at hred
  norm_num at hred

end Pipeline

end ColorPipeline
