-- A 1D table in a texture, over the real numbers. The coordinates that the helper function
-- gives lie in one row, between two samples that are neighbours in the table, so that what
-- the host blends there is what the table gives.
import ColorPipeline.Proofs.Checks
import ColorPipeline.Proofs.Curves
import ColorPipeline.Proofs.ShaderVariables
import ColorPipeline.Proofs.WrittenCode

open scoped ColorPipeline.RealScalar

namespace ColorPipeline

/-! ## Texels along an axis -/

namespace TextureFilter

theorem edge_natCast {size i : Nat} : edge size (i : ℝ) = min i (size - 1) := by
  change min ⌊(i : ℝ)⌋₊ (size - 1) = _
  rw [Nat.floor_natCast]

theorem along_linear {size k : Nat} {f : ℝ} (hsize : 0 < size) (hf : 0 ≤ f) (hf' : f < 1)
    (texel : Nat → ℝ) : linear.along size ((k + f + 1 / 2) / size) texel =
      texel (min k (size - 1)) * (1 - f) + texel (min (k + 1) (size - 1)) * f := by
  have hpos : (0 : ℝ) < size := Nat.cast_pos.mpr hsize
  have hp : ((k + f + 1 / 2) / size : ℝ) * size - (5 : ℕ) / (10 : ℕ) ^ 1 = k + f := by
    rw [div_mul_cancel₀ _ (ne_of_gt hpos)]
    norm_num
  have hfloor : ((⌊(k : ℝ) + f⌋ : ℤ) : ℝ) = (k : ℝ) := by
    have hk : ⌊(k : ℝ) + f⌋ = (k : ℤ) := by
      rw [Int.floor_eq_iff]
      push_cast
      constructor <;> linarith
    rw [hk, Int.cast_natCast]
  have halong : linear.along size ((k + f + 1 / 2) / size) texel =
      let p : ℝ := ((k + f + 1 / 2) / size) * size - (5 : ℕ) / (10 : ℕ) ^ 1
      texel (edge size ((⌊p⌋ : ℤ) : ℝ)) * ((1 : ℕ) - (p - ((⌊p⌋ : ℤ) : ℝ))) +
        texel (edge size (((⌊p⌋ : ℤ) : ℝ) + (1 : ℕ))) * (p - ((⌊p⌋ : ℤ) : ℝ)) := rfl
  rw [halong]
  simp only [hp, hfloor]
  rw [← Nat.cast_add, edge_natCast, edge_natCast, Nat.cast_one, add_sub_cancel_left]

/-- At the centre of a texel both filters give that texel. -/
theorem along_center (filter : TextureFilter) {size k : Nat} (hk : k < size) (texel : Nat → ℝ) :
    filter.along size ((k + 1 / 2 : ℝ) / size) texel = texel k := by
  have hlast : min k (size - 1) = k := by omega
  cases filter with
  | nearest =>
    have hpos : (0 : ℝ) < size := Nat.cast_pos.mpr (by omega)
    have hfloor : ⌊(k : ℝ) + 1 / 2⌋ = (k : ℤ) := by
      rw [Int.floor_eq_iff]
      push_cast
      constructor <;> linarith
    have halong : nearest.along size (((k : ℝ) + 1 / 2) / size) texel =
        texel (edge size ((⌊((k + 1 / 2) / size) * (size : ℝ)⌋ : ℤ) : ℝ)) := rfl
    rw [halong, div_mul_cancel₀ _ (ne_of_gt hpos), hfloor, Int.cast_natCast, edge_natCast, hlast]
  | linear =>
    have h := @along_linear size k 0 (by omega) le_rfl one_pos texel
    rw [add_zero] at h
    rw [h, hlast]
    ring

end TextureFilter

/-! ## The layout of the samples -/

/-- The numbers of a list of colours one after the other, and zero after the last. -/
theorem getD_flatMap_toList (colors : List (Rgb ℝ)) (k : Nat) (ch : Channel) :
    (colors.flatMap Rgb.toList).getD (3 * k + ch.component) 0 =
      (colors.getD k (Rgb.gray ((0 : ℕ) : ℝ))).get ch := by
  induction colors generalizing k with
  | nil =>
    have hblack : ([] : List (Rgb ℝ)).getD k (Rgb.gray ((0 : ℕ) : ℝ)) = Rgb.gray ((0 : ℕ) : ℝ) := rfl
    rw [hblack, Rgb.get_gray, Nat.cast_zero]
    rfl
  | cons color colors ih =>
    cases k with
    | zero => cases ch <;> rfl
    | succ k =>
      have hnext : 3 * (k + 1) + ch.component = 3 * k + ch.component + 3 := by omega
      have h := ih k
      rw [hnext]
      exact h

namespace CurveTexture

variable {t : CurveTexture}

/-- Row by row the texels are numbered through. -/
theorem layout_eq (t : CurveTexture) : t.layout =
    (List.range (t.height * t.width)).map fun k => t.sampleAt (k / t.width) (k % t.width) := by
  unfold layout
  induction t.height with
  | zero => simp
  | succ rows ih =>
    rw [List.range_succ, List.flatMap_append, ih, Nat.succ_mul, List.range_add, List.map_append,
      List.flatMap_singleton, List.map_map]
    congr 1
    refine List.map_congr_left ?_
    intro column hcolumn
    have hcolumn := List.mem_range.mp hcolumn
    have hrow : (rows * t.width + column) / t.width = rows := by
      rw [Nat.mul_comm, Nat.mul_add_div (by omega), Nat.div_eq_of_lt hcolumn, Nat.add_zero]
    have hplace : (rows * t.width + column) % t.width = column := by
      rw [Nat.mul_comm, Nat.mul_add_mod, Nat.mod_eq_of_lt hcolumn]
    rw [Function.comp_apply, hrow, hplace]

/-- Rows hold their samples one after the other. -/
theorem texel_textureImage (lut : Lut1D ℝ) {row column : Nat} (hrow : row < t.height)
    (hcolumn : column < t.width) (ch : Channel) :
    (Lut1DOp.textureImage lut t).texel column row 0 ch.component =
      (lut.curve ch).sample (t.sampleAt row column) := by
  have hk : row * t.width + column < t.height * t.width := by nlinarith
  have hdiv : (row * t.width + column) / t.width = row := by
    rw [Nat.mul_comm, Nat.mul_add_div (by omega), Nat.div_eq_of_lt hcolumn, Nat.add_zero]
  have hmod : (row * t.width + column) % t.width = column := by
    rw [Nat.mul_comm, Nat.mul_add_mod, Nat.mod_eq_of_lt hcolumn]
  have htexels : (Lut1DOp.textureImage lut t).texels =
      (t.layout.map lut.entry).flatMap Rgb.toList := by
    rw [List.flatMap_map]
    rfl
  have hlength : row * t.width + column < (t.layout.map lut.entry).length := by
    rw [List.length_map, layout_eq, List.length_map, List.length_range]
    exact hk
  change (Lut1DOp.textureImage lut t).texels.getD
    (3 * ((0 * t.height + row) * t.width + column) + ch.component) ((0 : ℕ) : ℝ) = _
  rw [Nat.zero_mul, Nat.zero_add, Nat.cast_zero, htexels, getD_flatMap_toList,
    List.getD_eq_getElem?_getD, List.getElem?_eq_getElem hlength, Option.getD_some, List.getElem_map]
  simp only [layout_eq, List.getElem_map, List.getElem_range, hdiv, hmod]
  rfl

/-! ## Places -/

/-- A place in the texture: a texel, and the part of the way to the next one in its row.
The texel holds a sample. Where there is a way to go, the next texel holds the next one. -/
structure Place (t : CurveTexture) where
  row : Nat
  column : Nat
  fraction : ℝ
  row_lt : row < t.height
  column_lt : column < t.width
  fraction_nonneg : 0 ≤ fraction
  fraction_lt_one : fraction < 1
  held : row * (t.width - 1) + column < t.length
  next : fraction ≠ 0 → column + 1 < t.width ∧ row * (t.width - 1) + column + 1 < t.length

namespace Place

/-- The steps from the first sample. -/
def steps (p : t.Place) : ℝ := ((p.row * (t.width - 1) + p.column : ℕ) : ℝ) + p.fraction

theorem sampleAt_eq (p : t.Place) :
    t.sampleAt p.row p.column = p.row * (t.width - 1) + p.column := by
  have := p.held
  unfold sampleAt
  omega

end Place

/-- All samples fit into the rows. -/
theorem length_sub_one_le (hwidth : 2 ≤ t.width) : t.length - 1 ≤ t.height * (t.width - 1) := by
  have hmod := Nat.mod_lt (t.length - 1 + (t.width - 2)) (by omega : 0 < t.width - 1)
  have hdiv := Nat.div_add_mod (t.length - 1 + (t.width - 2)) (t.width - 1)
  unfold height
  rw [Nat.mul_comm]
  omega

theorem height_pos (hlength : 2 ≤ t.length) (hwidth : 2 ≤ t.width) : 0 < t.height := by
  have := length_sub_one_le hwidth
  by_contra hzero
  have hheight : t.height = 0 := by omega
  rw [hheight] at this
  omega

/-- Steps that end within a row have a place in it. -/
theorem exists_place_in_row {q : ℕ} (hq : q < t.height) {d : ℝ}
    (hlow : (q : ℝ) * ((t.width - 1 : ℕ) : ℝ) ≤ d)
    (hhigh : d < (q + 1 : ℝ) * ((t.width - 1 : ℕ) : ℝ)) (hlength : 2 ≤ t.length)
    (hd : d ≤ ((t.length - 1 : ℕ) : ℝ)) : ∃ p : t.Place, p.steps = d ∧ p.row = q := by
  have hrest : 0 ≤ d - q * ((t.width - 1 : ℕ) : ℝ) := by linarith
  set k := ⌊d - q * ((t.width - 1 : ℕ) : ℝ)⌋₊ with hk
  have hk_le : (k : ℝ) ≤ d - q * ((t.width - 1 : ℕ) : ℝ) := Nat.floor_le hrest
  have hk_lt : d - q * ((t.width - 1 : ℕ) : ℝ) < k + 1 := Nat.lt_floor_add_one _
  have hcolumn : k < t.width - 1 := by
    rw [hk, Nat.floor_lt hrest]
    linarith
  have hheld : q * (t.width - 1) + k ≤ t.length - 1 := by
    have : ((q * (t.width - 1) + k : ℕ) : ℝ) ≤ ((t.length - 1 : ℕ) : ℝ) := by
      push_cast
      linarith
    exact_mod_cast this
  refine ⟨⟨q, k, d - q * ((t.width - 1 : ℕ) : ℝ) - k, hq, by omega, by linarith, by linarith,
    by omega, ?_⟩, ?_, rfl⟩
  · intro hf
    have hinside : (k : ℝ) < d - q * ((t.width - 1 : ℕ) : ℝ) :=
      lt_of_le_of_ne hk_le fun h => hf (by linarith)
    have hnext : ((q * (t.width - 1) + k : ℕ) : ℝ) < ((t.length - 1 : ℕ) : ℝ) := by
      push_cast
      linarith
    have hnext : q * (t.width - 1) + k < t.length - 1 := by exact_mod_cast hnext
    omega
  · unfold Place.steps
    push_cast
    ring

/-- Only the last sample is beyond the last row, and only where that row is full. -/
theorem exists_place_at_end (hlength : 2 ≤ t.length) (hwidth : 2 ≤ t.width) {q : ℕ}
    (hq : t.height ≤ q) {d : ℝ} (hlow : (q : ℝ) * ((t.width - 1 : ℕ) : ℝ) ≤ d)
    (hd : d ≤ ((t.length - 1 : ℕ) : ℝ)) :
    ∃ p : t.Place, p.steps = d ∧ p.row = t.height - 1 := by
  have hheight := height_pos hlength hwidth
  have hrow : ((t.height * (t.width - 1) : ℕ) : ℝ) ≤ d := by
    refine le_trans ?_ hlow
    exact_mod_cast Nat.mul_le_mul_right (t.width - 1) hq
  have hfull : t.height * (t.width - 1) = t.length - 1 := by
    have hle : t.height * (t.width - 1) ≤ t.length - 1 := by exact_mod_cast hrow.trans hd
    exact le_antisymm hle (length_sub_one_le hwidth)
  have hend : t.length - 1 = (t.height - 1) * (t.width - 1) + (t.width - 1) := by
    rw [← Nat.succ_mul, Nat.succ_eq_add_one, Nat.sub_add_cancel hheight, hfull]
  refine ⟨⟨t.height - 1, t.width - 1, 0, by omega, by omega, le_rfl, one_pos, by omega,
    fun h => absurd rfl h⟩, ?_, rfl⟩
  unfold Place.steps
  rw [add_zero, ← hend]
  exact le_antisymm (hfull ▸ hrow) hd

/-- Every number of steps up to the last sample has a place, in the row that is found by
division, or in the last row for the last sample. -/
theorem exists_place (hlength : 2 ≤ t.length) (hwidth : 2 ≤ t.width) {d : ℝ} (hd : 0 ≤ d)
    (hd' : d ≤ ((t.length - 1 : ℕ) : ℝ)) :
    ∃ p : t.Place, p.steps = d ∧
      (p.row : ℝ) = min ((⌊d / ((t.width - 1 : ℕ) : ℝ)⌋ : ℤ) : ℝ) ((t.height - 1 : ℕ) : ℝ) := by
  have hheight := height_pos hlength hwidth
  have hpos : (0 : ℝ) < ((t.width - 1 : ℕ) : ℝ) := Nat.cast_pos.mpr (by omega)
  rw [← natCast_floor_eq_intCast_floor (by positivity)]
  set q := ⌊d / ((t.width - 1 : ℕ) : ℝ)⌋₊
  have hlow : (q : ℝ) * ((t.width - 1 : ℕ) : ℝ) ≤ d := by
    rw [← le_div_iff₀ hpos]
    exact Nat.floor_le (by positivity)
  by_cases hlast : q < t.height
  · have hhigh : d < (q + 1 : ℝ) * ((t.width - 1 : ℕ) : ℝ) := by
      rw [← div_lt_iff₀ hpos]
      exact Nat.lt_floor_add_one _
    obtain ⟨p, hsteps, hrow⟩ := exists_place_in_row hlast hlow hhigh hlength hd'
    have hle : (q : ℝ) ≤ ((t.height - 1 : ℕ) : ℝ) := by
      exact_mod_cast (by omega : q ≤ t.height - 1)
    exact ⟨p, hsteps, by rw [hrow, min_eq_left hle]⟩
  · obtain ⟨p, hsteps, hrow⟩ := exists_place_at_end hlength hwidth (not_lt.mp hlast) hlow hd'
    have hle : ((t.height - 1 : ℕ) : ℝ) ≤ (q : ℝ) := by
      exact_mod_cast (by omega : t.height - 1 ≤ q)
    exact ⟨p, hsteps, by rw [hrow, min_eq_right hle]⟩

/-! ## The helper function -/

/-- The steps from the first sample that the helper function counts, whole ones where the
nearest sample is asked for. -/
noncomputable def stepsOf (t : CurveTexture) (v : ℝ) : ℝ :=
  let d := min (max v 0) 1 * ((t.length - 1 : ℕ) : ℝ)
  if t.nearest then ((round d : ℤ) : ℝ) else d

theorem stepsOf_eq (t : CurveTexture) (v : ℝ) : t.stepsOf v =
    if t.nearest then ((⌊min (max v 0) 1 * ((t.length - 1 : ℕ) : ℝ) + 1 / 2⌋ : ℤ) : ℝ)
    else min (max v 0) 1 * ((t.length - 1 : ℕ) : ℝ) := by
  unfold stepsOf
  simp only [round_eq]

theorem resolve_f : ShaderState.resolve "f" = ("f", none) :=
  ShaderState.resolve_plain (by decide)

theorem resolve_dep : ShaderState.resolve "dep" = ("dep", none) :=
  ShaderState.resolve_plain (by decide)

theorem resolve_retVal : ShaderState.resolve "retVal" = ("retVal", none) :=
  ShaderState.resolve_plain (by decide)

theorem resolve_retVal_x : ShaderState.resolve "retVal.x" = ("retVal", some .x) :=
  ShaderState.resolve_part "retVal" .x

theorem resolve_retVal_y : ShaderState.resolve "retVal.y" = ("retVal", some .y) :=
  ShaderState.resolve_part "retVal" .y

theorem resolve_result : ShaderState.resolve ShaderState.result = (ShaderState.result, none) :=
  ShaderState.resolve_plain (by decide)

/-- The helper function gives the column and the row of the value, each in the middle of a texel. -/
theorem call_positionStatements (t : CurveTexture) (v : ℝ) :
    let d := t.stepsOf v
    let row := min ((⌊d / ((t.width - 1 : ℕ) : ℝ)⌋ : ℤ) : ℝ) ((t.height - 1 : ℕ) : ℝ)
    Statement.call t.positionStatements "f" v 0 =
        (d - row * ((t.width - 1 : ℕ) : ℝ) + 1 / 2) / t.width ∧
      Statement.call t.positionStatements "f" v 1 = (row + 1 / 2) / t.height := by
  intro d row
  have hcall : Statement.call t.positionStatements "f" v 0 =
        (d - Scalar.minNum ((⌊d / ((t.width - 1 : ℕ) : ℝ)⌋ : ℤ) : ℝ) ((t.height - 1 : ℕ) : ℝ) *
          ((t.width - 1 : ℕ) : ℝ) + ((5 : ℕ) : ℝ) / ((10 : ℕ) : ℝ) ^ 1) / t.width ∧
      Statement.call t.positionStatements "f" v 1 =
        (Scalar.minNum ((⌊d / ((t.width - 1 : ℕ) : ℝ)⌋ : ℤ) : ℝ) ((t.height - 1 : ℕ) : ℝ) +
          ((5 : ℕ) : ℝ) / ((10 : ℕ) : ℝ) ^ 1) / t.height := by
    have hd : d = if t.nearest then
        ((⌊Scalar.clamp v ((0 : ℕ) : ℝ) ((1 : ℕ) : ℝ) * ((t.length - 1 : ℕ) : ℝ) +
          ((5 : ℕ) : ℝ) / ((10 : ℕ) : ℝ) ^ 1⌋ : ℤ) : ℝ)
        else Scalar.clamp v ((0 : ℕ) : ℝ) ((1 : ℕ) : ℝ) * ((t.length - 1 : ℕ) : ℝ) := by
      rw [RealScalar.clamp_unit, RealScalar.decimal_half]
      exact stepsOf_eq t v
    rw [hd]
    cases hnearest : t.nearest <;>
      simp only [Statement.call, Statement.run, positionStatements, hnearest, Bool.false_eq_true,
        if_true, if_false, List.append_nil, List.cons_append, List.nil_append, List.foldl_cons,
        List.foldl_nil, Statement.exec, ShaderState.read, ShaderState.write, resolve_f, resolve_dep,
        resolve_retVal, resolve_retVal_x, resolve_retVal_y, resolve_result, Formula.eval,
        Formula.whole, String.reduceEq]
    · exact ⟨rfl, rfl⟩
    · exact ⟨rfl, rfl⟩
  rw [RealScalar.minNum_eq, RealScalar.decimal_half] at hcall
  exact hcall

/-- The coordinates of a value are those of the place of its steps. -/
theorem exists_place_of_value (t : CurveTexture) (hlength : 2 ≤ t.length) (hwidth : 2 ≤ t.width)
    (v : ℝ) : ∃ p : t.Place, p.steps = t.stepsOf v ∧
      Statement.call t.positionStatements "f" v 0 =
        (p.column + p.fraction + 1 / 2) / t.width ∧
      Statement.call t.positionStatements "f" v 1 = (p.row + 1 / 2) / t.height := by
  have hlow : 0 ≤ min (max v 0) 1 * ((t.length - 1 : ℕ) : ℝ) :=
    mul_nonneg (le_min (le_max_right v 0) zero_le_one) (Nat.cast_nonneg _)
  have hhigh : min (max v 0) 1 * ((t.length - 1 : ℕ) : ℝ) ≤ ((t.length - 1 : ℕ) : ℝ) :=
    mul_le_of_le_one_left (Nat.cast_nonneg _) (min_le_right _ _)
  have hsteps : 0 ≤ t.stepsOf v ∧ t.stepsOf v ≤ ((t.length - 1 : ℕ) : ℝ) := by
    rw [stepsOf_eq]
    split
    · constructor
      · exact_mod_cast Int.floor_nonneg.mpr (by positivity)
      · have hfloor : ⌊min (max v 0) 1 * ((t.length - 1 : ℕ) : ℝ) + 1 / 2⌋ ≤
            ((t.length - 1 : ℕ) : ℤ) := by
          rw [← Int.lt_add_one_iff, Int.floor_lt]
          push_cast
          linarith
        exact_mod_cast hfloor
    · exact ⟨hlow, hhigh⟩
  obtain ⟨p, hp, hrow⟩ := exists_place hlength hwidth hsteps.1 hsteps.2
  obtain ⟨hx, hy⟩ := call_positionStatements t v
  refine ⟨p, hp, ?_, ?_⟩
  · rw [hx, ← hrow, ← hp]
    unfold Place.steps
    push_cast
    ring
  · rw [hy, ← hrow]

/-! ## What is looked up -/

/-- At those coordinates the filter finds the two samples of the step, and never those of another
row. -/
theorem sample_of_coordinates (lut : Lut1D ℝ) {t : CurveTexture} (p : t.Place)
    {coords : ShaderValue ℝ} (hx : coords 0 = (p.column + p.fraction + 1 / 2) / t.width)
    (hy : coords 1 = (p.row + 1 / 2) / t.height) (hnearest : t.nearest → p.fraction = 0)
    (ch : Channel) :
    (Lut1DOp.textureImage lut t).sample coords ch.component =
      (lut.curve ch).sample (p.row * (t.width - 1) + p.column) * (1 - p.fraction) +
        (lut.curve ch).sample (p.row * (t.width - 1) + p.column + 1) * p.fraction := by
  have hsample : (Lut1DOp.textureImage lut t).sample coords ch.component =
      (Lut1DOp.textureImage lut t).filter.along t.width ((p.column + p.fraction + 1 / 2) / t.width)
        fun x => (Lut1DOp.textureImage lut t).filter.along t.height ((p.row + 1 / 2) / t.height)
          fun y => (Lut1DOp.textureImage lut t).texel x y 0 ch.component := by
    change (Lut1DOp.textureImage lut t).filter.along t.width (coords 0) (fun x =>
      (Lut1DOp.textureImage lut t).filter.along t.height (coords 1) fun y =>
        (Lut1DOp.textureImage lut t).texel x y 0 ch.component) = _
    rw [hx, hy]
  simp only [hsample, TextureFilter.along_center _ p.row_lt]
  by_cases hf : p.fraction = 0
  · rw [hf, add_zero, TextureFilter.along_center _ p.column_lt,
      texel_textureImage lut p.row_lt p.column_lt, p.sampleAt_eq]
    ring
  · obtain ⟨hcolumn, hheld⟩ := p.next hf
    have hfilter : (Lut1DOp.textureImage lut t).filter = .linear :=
      if_neg fun h => hf (hnearest h)
    have hnext : t.sampleAt p.row (p.column + 1) = p.row * (t.width - 1) + p.column + 1 := by
      unfold sampleAt
      omega
    rw [hfilter, TextureFilter.along_linear (by omega) p.fraction_nonneg p.fraction_lt_one,
      min_eq_left (by omega), min_eq_left (by omega), texel_textureImage lut p.row_lt p.column_lt,
      texel_textureImage lut p.row_lt hcolumn, p.sampleAt_eq, hnext]

theorem fraction_eq_zero {t : CurveTexture} (p : t.Place) {v : ℝ} (hp : p.steps = t.stepsOf v)
    (hnearest : t.nearest) : p.fraction = 0 := by
  rw [stepsOf_eq] at hp
  unfold Place.steps at hp
  simp only [hnearest, if_true] at hp
  set z := ⌊min (max v 0) 1 * ((t.length - 1 : ℕ) : ℝ) + 1 / 2⌋
  set n := p.row * (t.width - 1) + p.column
  have hfraction : p.fraction = ((z - n : ℤ) : ℝ) := by
    push_cast
    linarith
  have hlow : (0 : ℤ) ≤ z - n := by exact_mod_cast hfraction ▸ p.fraction_nonneg
  have hhigh : z - n < (1 : ℤ) := by exact_mod_cast hfraction ▸ p.fraction_lt_one
  have hzero : z - n = (0 : ℤ) := by omega
  rw [hfraction, hzero, Int.cast_zero]

/-- The nearest sample is that at the nearest whole number of steps. -/
theorem nearest_of_steps (c : Curve ℝ) {v : ℝ} {j : ℕ} (hj : j < c.size)
    (hlow : 0 ≤ c.position v) (hsteps : (j : ℝ) = ((⌊c.position v + 1 / 2⌋ : ℤ) : ℝ)) :
    c.nearest v = c.sample j := by
  have hround : Scalar.round (c.position v) =
      if c.position v < 0 then ((⌈c.position v - 1 / 2⌉ : ℤ) : ℝ)
      else ((⌊c.position v + 1 / 2⌋ : ℤ) : ℝ) := rfl
  have hindex : Scalar.toNat (Scalar.round (c.position v)) = j := by
    rw [hround, if_neg (not_lt.mpr hlow), ← hsteps]
    exact Nat.floor_natCast j
  have hlast : min j (c.size - 1) = j := by omega
  unfold Curve.nearest
  rw [hindex, hlast]

/-- A line between two samples gives what lies at a part of the way. -/
theorem linear_of_steps (c : Curve ℝ) (hsize : 2 ≤ c.size) {v f : ℝ} {j : ℕ} (hj : j < c.size)
    (hf : 0 ≤ f) (hf' : f < 1) (hnext : f ≠ 0 → j + 1 < c.size)
    (hsteps : (j : ℝ) + f = c.position v) :
    c.linear v = c.sample j * (1 - f) + c.sample (j + 1) * f := by
  by_cases hinside : j + 1 < c.size
  · rw [Curve.linear_eq hinside hf (le_of_lt hf') hsteps.symm]
    ring
  · -- only the last sample has no sample after it
    have hzero : f = 0 := by
      by_contra hne
      exact hinside (hnext hne)
    have hend : c.position v = ((c.size - 2 : ℕ) : ℝ) + 1 := by
      rw [← hsteps, hzero, add_zero, ← Nat.cast_succ]
      congr 1
      omega
    have hlast : c.size - 2 + 1 = j := by omega
    rw [Curve.linear_eq (by omega) zero_le_one le_rfl hend, hlast, hzero]
    ring

/-- A table gives what lies between the samples of a place. -/
theorem eval_of_steps (lut : Lut1D ℝ) (hsize : 2 ≤ lut.size) (maxWidth : Nat) {v : ℝ}
    (p : (Lut1DOp.curveTexture lut maxWidth).Place)
    (hp : p.steps = (Lut1DOp.curveTexture lut maxWidth).stepsOf v) (ch : Channel) :
    (lut.curve ch).eval (lut.interpolation.onCurve == .nearest) v =
      (lut.curve ch).sample
          (p.row * ((Lut1DOp.curveTexture lut maxWidth).width - 1) + p.column) * (1 - p.fraction) +
        (lut.curve ch).sample
          (p.row * ((Lut1DOp.curveTexture lut maxWidth).width - 1) + p.column + 1) *
            p.fraction := by
  have hzero := fraction_eq_zero p hp
  have hposition : (lut.curve ch).position v = min (max v 0) 1 * ((lut.size - 1 : ℕ) : ℝ) :=
    Curve.position_eq _ v
  have hlow : 0 ≤ (lut.curve ch).position v := by
    rw [hposition]
    exact mul_nonneg (le_min (le_max_right v 0) zero_le_one) (Nat.cast_nonneg _)
  rw [stepsOf_eq] at hp
  unfold Place.steps at hp
  change (_ : ℝ) = if (lut.interpolation.onCurve == .nearest) = true then
    ((⌊min (max v 0) 1 * ((lut.size - 1 : ℕ) : ℝ) + 1 / 2⌋ : ℤ) : ℝ)
    else min (max v 0) 1 * ((lut.size - 1 : ℕ) : ℝ) at hp
  rw [← hposition] at hp
  rw [Curve.eval_eq hsize]
  split
  · rename_i hnearest
    rw [if_pos hnearest, hzero hnearest, add_zero] at hp
    rw [nearest_of_steps _ p.held hlow hp, hzero hnearest]
    ring
  · rename_i hlines
    rw [if_neg hlines] at hp
    exact linear_of_steps _ hsize p.held p.fraction_nonneg p.fraction_lt_one
      (fun h => (p.next h).2) hp

/-- The host has the texture and the helper function of a curve under a name. -/
structure Bound (t : CurveTexture) (res : ShaderResources ℝ) (name : String)
    (image : TextureImage ℝ) : Prop where
  texture : res.texture name = image
  curvePosition : res.curvePosition name = Statement.call t.positionStatements "f"

/-- A step never leaves its row. -/
theorem Place.column_le {t : CurveTexture} (p : t.Place) :
    (p.column : ℝ) + p.fraction ≤ ((t.width - 1 : ℕ) : ℝ) := by
  by_cases hf : p.fraction = 0
  · have hcolumn : p.column ≤ t.width - 1 := by
      have := p.column_lt
      omega
    rw [hf, add_zero]
    exact_mod_cast hcolumn
  · have hcolumn : p.column + 1 ≤ t.width - 1 := by
      have := (p.next hf).1
      omega
    have hcolumn : (p.column : ℝ) + 1 ≤ ((t.width - 1 : ℕ) : ℝ) := by exact_mod_cast hcolumn
    have := p.fraction_lt_one
    linarith

theorem eval_lookup {t : CurveTexture} {res : ShaderResources ℝ} {name : String}
    {image : TextureImage ℝ} (h : t.Bound res name image) (s : ShaderState ℝ) (pixel : String)
    (ch : Channel) :
    Formula.eval res s (.part (.sample .two name (.curvePosition name
      (.part (.name pixel) (Swizzle.ofChannel ch)))) (Swizzle.ofChannel ch)) 0 =
      image.sample (Statement.call t.positionStatements "f"
        (Formula.eval res s (.name pixel) ch.component)) ch.component := by
  simp only [Formula.eval, Swizzle.component_ofChannel, h.texture, h.curvePosition]

/-- Each channel is looked up with the value that it had before. -/
theorem read_run_lookup {t : CurveTexture} {res : ShaderResources ℝ} {texture : String}
    {image : TextureImage ℝ} (h : t.Bound res texture image) (s : ShaderState ℝ) (pixel : String)
    (ch : Channel) :
    (Statement.run res (lookupStatements texture pixel) s).read (pixel ++ "." ++ ch.letter) 0 =
      image.sample (Statement.call t.positionStatements "f" (s.read pixel ch.component))
        ch.component := by
  let value (c : Channel) : Formula ℝ :=
    .part (.sample .two texture (.curvePosition texture
      (.part (.name pixel) (Swizzle.ofChannel c)))) (Swizzle.ofChannel c)
  let give (c : Channel) (s : ShaderState ℝ) : ShaderState ℝ :=
    s.write (pixel ++ "." ++ c.letter) ((value c).eval res s)
  have hself : ∀ c s, (give c s).read (pixel ++ "." ++ c.letter) 0 =
      image.sample (Statement.call t.positionStatements "f" (s.read pixel c.component))
        c.component := fun c s => ShaderState.read_write_self.trans (eval_lookup h s pixel c)
  have hother : ∀ {c d} (s), d ≠ c → (give c s).read (pixel ++ "." ++ d.letter) 0 =
      s.read (pixel ++ "." ++ d.letter) 0 := fun _ hd => ShaderState.read_write_ne hd
  have hkeep : ∀ {c d : Channel} (s), d ≠ c →
      (give c s).read pixel d.component = s.read pixel d.component :=
    fun _ hd => ShaderState.read_write_channel (Channel.component_ne hd)
  have hrun : Statement.run res (lookupStatements texture pixel) s =
      give .blue (give .green (give .red s)) := rfl
  rw [hrun]
  cases ch with
  | red => rw [hother _ (by decide), hother _ (by decide), hself]
  | green => rw [hother _ (by decide), hself, hkeep _ (by decide)]
  | blue => rw [hself, hkeep _ (by decide), hkeep _ (by decide)]

/-- The host finds in the texture of a table what the table gives. -/
theorem eval_sample {lut : Lut1D ℝ} (hsize : 2 ≤ lut.size) {maxWidth : Nat} (hwidth : 2 ≤ maxWidth)
    (v : ℝ) (ch : Channel) :
    let t := Lut1DOp.curveTexture lut maxWidth
    (Lut1DOp.textureImage lut t).sample (Statement.call t.positionStatements "f" v) ch.component =
      (lut.curve ch).eval (lut.interpolation.onCurve == .nearest) v := by
  intro t
  obtain ⟨place, hsteps, hx, hy⟩ := t.exists_place_of_value hsize (le_min hsize hwidth) v
  rw [sample_of_coordinates lut place hx hy (fraction_eq_zero place hsteps)]
  exact (eval_of_steps lut hsize _ place hsteps ch).symm

end CurveTexture

/-! ## The emitted code -/

namespace Lut1DOp

theorem emit_forward (lut : Lut1D ℝ) (hsize : 2 ≤ lut.size) (program : ShaderProgram ℝ)
    (source : String) (hnew : program.findTexture? source = none) :
    let t := curveTexture lut program.settings.maxWidth
    let name := program.nextName "lut1d"
    let language := program.settings.language
    ∃ next : ShaderProgram ℝ,
      ((⟨lut, .forward⟩ : Lut1DOp ℝ).emit program source :
        Except (OpError ℝ) (Code × ShaderProgram ℝ)) =
          .ok (Code.title s!"Add LUT 1D processing for {name}" ++ Code.ofList [Statement.code language
            (CurveTexture.lookupStatements (P := ℝ) name program.settings.pixelName)], next) ∧
      next.textures = program.textures ++ [⟨name, source, textureImage lut t⟩] ∧
      next.helpers = program.helpers ++ (Code.ofList ["",
        .line s!"{language.typeName .float2} {name}_computePos(float f)",
        .block (Statement.code language (t.positionStatements (P := ℝ)))]).text language := by
  intro t name language
  have hvalid : ((⟨lut, .forward⟩ : Lut1DOp ℝ).validate : Except (OpError ℝ) Unit) = .ok () :=
    (validate_iff _).mpr ⟨hsize, fun _ _ => rfl, nofun⟩
  rw [← CurveTexture.lookup_eq, ← CurveTexture.helper_eq]
  unfold emit shaderTable ShaderProgram.addTexture
  rw [hvalid, hnew]
  exact ⟨_, rfl, rfl, rfl⟩

/-- A forward table goes into a texture and a helper function, and the lookup that the shader
contains leaves in the pixel what the table gives. The coordinates of a value lie in the middle of
a row and within it, between two samples that follow each other in the table, if not on one. -/
theorem a_texture_gives_what_its_table_gives (lut : Lut1D ℝ) (hsize : 2 ≤ lut.size)
    (program : ShaderProgram ℝ) (source : String)
    (hnew : program.findTexture? source = none) :
    let t := curveTexture lut program.settings.maxWidth
    let name := program.nextName "lut1d"
    let language := program.settings.language
    let pixel := program.settings.pixelName
    let lookup : List (Statement ℝ) := CurveTexture.lookupStatements name pixel
    (∃ next : ShaderProgram ℝ,
      ((⟨lut, .forward⟩ : Lut1DOp ℝ).emit program source :
        Except (OpError ℝ) (Code × ShaderProgram ℝ)) =
          .ok (Code.title s!"Add LUT 1D processing for {name}" ++
            Code.ofList [Statement.code language lookup], next) ∧
      next.textures = program.textures ++ [⟨name, source, textureImage lut t⟩] ∧
      next.helpers = program.helpers ++ (Code.ofList ["",
        .line s!"{language.typeName .float2} {name}_computePos(float f)",
        .block (Statement.code language (t.positionStatements (P := ℝ)))]).text language) ∧
    ∀ res : ShaderResources ℝ, t.Bound res name (textureImage lut t) →
      (∀ (s : ShaderState ℝ) (p : Rgb ℝ), (∀ ch : Channel, s.read pixel ch.component = p.get ch) →
        ∀ ch : Channel,
          (Statement.run res lookup s).read (pixel ++ "." ++ ch.letter) 0 = (lut.apply p).get ch) ∧
      ∀ v, ∃ place : t.Place,
        res.curvePosition name v 1 * t.height - 1 / 2 = place.row ∧
        res.curvePosition name v 0 * t.width - 1 / 2 = place.column + place.fraction ∧
        place.column + place.fraction ≤ ((t.width - 1 : ℕ) : ℝ) := by
  intro t name language pixel lookup
  have hwidth : 2 ≤ t.width := le_min hsize program.settings.two_le_maxWidth
  refine ⟨emit_forward lut hsize program source hnew, ?_⟩
  intro res hbound
  constructor
  · intro s p hp ch
    unfold Lut1D.apply
    rw [CurveTexture.read_run_lookup hbound, hp, Rgb.get_ofFn]
    exact CurveTexture.eval_sample hsize program.settings.two_le_maxWidth (p.get ch) ch
  · intro v
    obtain ⟨place, _, hx, hy⟩ := t.exists_place_of_value hsize hwidth v
    have hheight := CurveTexture.height_pos (t := t) hsize hwidth
    have hheight : (t.height : ℝ) ≠ 0 := Nat.cast_ne_zero.mpr (by omega)
    have hwidth : (t.width : ℝ) ≠ 0 := Nat.cast_ne_zero.mpr (by omega)
    refine ⟨place, ?_, ?_, place.column_le⟩
    · rw [hbound.curvePosition, hy]
      rw [div_mul_cancel₀ _ hheight, add_sub_cancel_right]
    · rw [hbound.curvePosition, hx]
      rw [div_mul_cancel₀ _ hwidth, add_sub_cancel_right]

/-- Five samples, which rise faster and faster. -/
noncomputable def fiveSamples : Lut1D ℝ where
  samples := #[Rgb.gray 0, Rgb.gray 1, Rgb.gray 4, Rgb.gray 9, Rgb.gray 16]

/-- A program whose textures have at most three texels in a row. -/
noncomputable def narrowProgram : ShaderProgram ℝ where
  settings := { maxWidth := 3, two_le_maxWidth := by decide }

/-- The third sample ends the first row and begins the second one. -/
theorem five_samples_fill_two_rows_of_three :
    2 ≤ fiveSamples.size ∧ narrowProgram.findTexture? "curve" = none ∧
      (curveTexture fiveSamples narrowProgram.settings.maxWidth).layout = [0, 1, 2, 2, 3, 4] ∧
      ∃ res : ShaderResources ℝ,
        (curveTexture fiveSamples 3).Bound res "ocio_lut1d_0"
          (textureImage fiveSamples (curveTexture fiveSamples 3)) ∧
        (Statement.run res (CurveTexture.lookupStatements "ocio_lut1d_0" "outColor")
            fun _ _ => 1 / 2).read ("outColor" ++ "." ++ Channel.red.letter) 0 =
          (fiveSamples.apply (Rgb.gray (1 / 2))).red := by
  have hsize : 2 ≤ fiveSamples.size := by
    change 2 ≤ 5
    decide
  have hbound : (curveTexture fiveSamples 3).Bound
      ⟨fun _ => textureImage fiveSamples (curveTexture fiveSamples 3),
        fun _ => Statement.call (curveTexture fiveSamples 3).positionStatements "f"⟩
      "ocio_lut1d_0" (textureImage fiveSamples (curveTexture fiveSamples 3)) := ⟨rfl, rfl⟩
  obtain ⟨_, hlookup⟩ :=
    a_texture_gives_what_its_table_gives fiveSamples hsize narrowProgram "curve" rfl
  have hread : ∀ ch : Channel, ShaderState.read (fun _ _ => (1 / 2 : ℝ)) "outColor" ch.component =
      (Rgb.gray (1 / 2)).get ch := fun ch =>
    (ShaderState.read_const _ _ _).trans (Rgb.get_gray _ ch).symm
  exact ⟨hsize, rfl, by decide, _, hbound, (hlookup _ hbound).1 _ _ hread .red⟩

end Lut1DOp

end ColorPipeline
