-- A 3D table in a texture, over the real numbers. The axes of the texture are those of the
-- channels in reverse order. Between texels the host blends as a cell of the grid does. The
-- written-out walk runs its statements one after the other, and the first of its cases that
-- holds is that of the order of the fractions.
import ColorPipeline.Proofs.CountedReads
import ColorPipeline.Proofs.CurveTextures

open scoped ColorPipeline.RealScalar

namespace ColorPipeline

/-! ## Texels along an axis -/

namespace TextureFilter

theorem along_nearest {size : Nat} (hsize : 0 < size) {d : ℝ} (hd : 0 ≤ d) (texel : Nat → ℝ) :
    nearest.along size ((d + 1 / 2) / size) texel = texel (min ⌊d + 1 / 2⌋₊ (size - 1)) := by
  have hpos : (0 : ℝ) < size := Nat.cast_pos.mpr hsize
  have halong : nearest.along size ((d + 1 / 2) / size) texel =
      texel (edge size ((⌊(d + 1 / 2) / size * (size : ℝ)⌋ : ℤ) : ℝ)) := rfl
  have hfloor : ((⌊d + 1 / 2⌋ : ℤ) : ℝ) = (⌊d + 1 / 2⌋₊ : ℝ) :=
    (natCast_floor_eq_intCast_floor (by positivity)).symm
  rw [halong, div_mul_cancel₀ _ (ne_of_gt hpos), hfloor, edge_natCast]

/-- Between two texels the host blends them as a cell of the grid does. -/
theorem along_cell {size : Nat} (hsize : 2 ≤ size) {d : ℝ} (hd : 0 ≤ d)
    (hd' : d ≤ ((size - 1 : ℕ) : ℝ)) (texel : Nat → ℝ) :
    linear.along size ((d + 1 / 2) / size) texel =
      Grid.blend (texel (min ⌊d⌋₊ (size - 2))) (texel (min ⌊d⌋₊ (size - 2) + 1))
        (d - (min ⌊d⌋₊ (size - 2) : ℕ)) := by
  have hblend : ∀ a b t : ℝ, Grid.blend a b t = a * (((1 : ℕ) : ℝ) - t) + b * t := fun _ _ _ => rfl
  have hlow := Nat.floor_le hd
  have hnext := Nat.lt_floor_add_one d
  have halong := @along_linear size ⌊d⌋₊ (d - ⌊d⌋₊) (by omega) (by linarith) (by linarith) texel
  rw [add_sub_cancel] at halong
  rw [halong, hblend, Nat.cast_one]
  have hlast : ⌊d⌋₊ ≤ size - 1 := Nat.floor_le_of_le hd'
  rcases Nat.lt_or_ge ⌊d⌋₊ (size - 1) with hinside | hend
  · have hbase : min ⌊d⌋₊ (size - 2) = ⌊d⌋₊ := by omega
    rw [hbase, min_eq_left hlast, min_eq_left (by omega)]
  · -- the last point is the end of the last cell
    have hend : ⌊d⌋₊ = size - 1 := by omega
    have hbase : min ⌊d⌋₊ (size - 2) = size - 2 := by omega
    have hsucc : size - 2 + 1 = size - 1 := by omega
    have hd : d = ((size - 1 : ℕ) : ℝ) := le_antisymm hd' (hend ▸ hlow)
    have hfraction : d - ((size - 2 : ℕ) : ℝ) = 1 := by
      rw [hd, ← hsucc, Nat.cast_succ]
      ring
    rw [hbase, hsucc, hfraction, hend, ← hd, min_self]
    ring

end TextureFilter

/-! ## The texels of a grid -/

namespace Lut3DOp

/-- Blue is the fastest axis of the texels. -/
theorem texel_textureImage (lut : Lut3D ℝ) (x y z : Nat) (ch : Channel) :
    (textureImage lut).texel x y z ch.component = (lut.get z y x).get ch := by
  have htexel : (textureImage lut).texel x y z ch.component =
      (lut.entries.toList.flatMap Rgb.toList).getD
        (3 * ((z * lut.size + y) * lut.size + x) + ch.component) ((0 : ℕ) : ℝ) := rfl
  have hget : lut.get z y x = lut.entries.getD ((z * lut.size + y) * lut.size + x)
      (Rgb.gray ((0 : ℕ) : ℝ)) := rfl
  rw [htexel, Nat.cast_zero, getD_flatMap_toList, hget, Array.getD_eq_getD_getElem?,
    List.getD_eq_getElem?_getD, Array.getElem?_toList]

theorem filter_textureImage {lut : Lut3D ℝ} {method : Interpolation}
    (h : lut.interpolation.onGrid = method) :
    (textureImage lut).filter = if method == .linear then .linear else .nearest := by
  subst h
  rfl

/-- The axes of the texture are those of the channels in reverse order. -/
theorem sample_textureImage (lut : Lut3D ℝ) (coords : ShaderValue ℝ) (ch : Channel) :
    let along (c : Channel) :=
      (textureImage lut).filter.along lut.size (coords (2 - c.component))
    (textureImage lut).sample coords ch.component =
      along .blue fun b => along .green fun g => along .red fun r => (lut.get r g b).get ch := by
  intro along
  simp only [← texel_textureImage]
  rfl

end Lut3DOp

/-! ## Places in a grid -/

theorem RealScalar.toNat_floor (x : ℝ) : Scalar.toNat (Scalar.floor x) = ⌊x⌋₊ := by
  have h : Scalar.toNat (Scalar.floor x) = ⌊((⌊x⌋ : ℤ) : ℝ)⌋₊ := rfl
  rw [h, ← Int.floor_toNat, Int.floor_intCast, Int.floor_toNat]

theorem RealScalar.toNat_round {x : ℝ} (hx : 0 ≤ x) :
    Scalar.toNat (Scalar.round x) = ⌊x + 1 / 2⌋₊ := by
  have h : Scalar.round x = if x < 0 then ((⌈x - 1 / 2⌉ : ℤ) : ℝ) else ((⌊x + 1 / 2⌋ : ℤ) : ℝ) :=
    rfl
  rw [h, if_neg (not_lt.mpr hx)]
  exact RealScalar.toNat_floor (x + 1 / 2)

namespace Grid

/-- The steps of a value along an axis of a grid, from its first point. -/
noncomputable def steps (size : Nat) (v : ℝ) : ℝ := min (max v 0) 1 * ((size - 1 : ℕ) : ℝ)

theorem steps_nonneg (size : Nat) (v : ℝ) : 0 ≤ steps size v :=
  mul_nonneg (le_min (le_max_right v 0) zero_le_one) (Nat.cast_nonneg _)

theorem steps_le (size : Nat) (v : ℝ) : steps size v ≤ ((size - 1 : ℕ) : ℝ) :=
  mul_le_of_le_one_left (Nat.cast_nonneg _) (min_le_right _ _)

variable (g : Grid ℝ) (p : Rgb ℝ) (ch : Channel)

theorem get_position : (g.position p).get ch = steps g.size (p.get ch) := by
  have h : (g.position p).get ch =
      Scalar.clamp (p.get ch) ((0 : ℕ) : ℝ) ((1 : ℕ) : ℝ) * ((g.size - 1 : ℕ) : ℝ) := by
    unfold position
    rw [Rgb.get_map]
    rfl
  rw [h, RealScalar.clamp_unit]
  rfl

theorem get_base :
    (g.place p).base.get ch = min ⌊steps g.size (p.get ch)⌋₊ (g.size - 2) := by
  unfold place
  rw [Rgb.get_map, get_position, RealScalar.toNat_floor]

/-- The fraction is what is left behind the base, one at the far end of the last cell. -/
theorem get_fraction : (g.place p).fraction.get ch =
    steps g.size (p.get ch) - ((g.place p).base.get ch : ℕ) := by
  rw [← get_position]
  unfold place
  rw [Rgb.get_ofFn]
  rfl

theorem base_lt {g : Grid ℝ} (hsize : 2 ≤ g.size) (p : Rgb ℝ) (ch : Channel) :
    (g.place p).base.get ch + 1 < g.size := by
  rw [get_base]
  omega

end Grid

/-! ## Coordinates of a colour -/

namespace Lut3DOp

variable {lut : Lut3D ℝ} {p : Rgb ℝ} {coords : ShaderValue ℝ}

/-- Filtering between texels blends along the three axes. -/
theorem sample_linear (hsize : 2 ≤ lut.size) (hfilter : (textureImage lut).filter = .linear)
    (h : ∀ c : Channel,
      coords (2 - c.component) = (Grid.steps lut.size (p.get c) + 1 / 2) / lut.size)
    (ch : Channel) :
    (textureImage lut).sample coords ch.component = (lut.grid.trilinear p).get ch := by
  have halong : ∀ (c : Channel) (texel : Nat → ℝ),
      TextureFilter.linear.along lut.size (coords (2 - c.component)) texel =
        Grid.blend (texel ((lut.grid.place p).base.get c))
          (texel ((lut.grid.place p).base.get c + 1)) ((lut.grid.place p).fraction.get c) := by
    intro c texel
    rw [h, Grid.get_fraction, Grid.get_base]
    exact TextureFilter.along_cell hsize (Grid.steps_nonneg _ _) (Grid.steps_le _ _) texel
  rw [sample_textureImage, hfilter]
  simp only [halong .blue, halong .green, halong .red, Grid.trilinear, Rgb.get_ofFn]
  rfl

/-- Without filtering the nearest point is found. -/
theorem sample_nearest (hsize : 2 ≤ lut.size) (hfilter : (textureImage lut).filter = .nearest)
    (h : ∀ c : Channel,
      coords (2 - c.component) = (Grid.steps lut.size (p.get c) + 1 / 2) / lut.size)
    (ch : Channel) :
    (textureImage lut).sample coords ch.component = (lut.grid.nearest p).get ch := by
  have halong : ∀ (c : Channel) (texel : Nat → ℝ),
      TextureFilter.nearest.along lut.size (coords (2 - c.component))
        texel = texel (min ⌊Grid.steps lut.size (p.get c) + 1 / 2⌋₊ (lut.size - 1)) := by
    intro c texel
    rw [h]
    exact TextureFilter.along_nearest (by omega) (Grid.steps_nonneg _ _) texel
  rw [sample_textureImage, hfilter]
  simp only [halong .blue, halong .green, halong .red]
  have hround : ∀ c : Channel, ((lut.grid.position p).map fun t =>
      min (Scalar.toNat (Scalar.round t)) (lut.grid.size - 1)).get c =
        min ⌊Grid.steps lut.size (p.get c) + 1 / 2⌋₊ (lut.size - 1) := by
    intro c
    rw [Rgb.get_map, Grid.get_position, RealScalar.toNat_round (Grid.steps_nonneg _ _)]
    rfl
  simp only [← hround]
  rfl

end Lut3DOp

/-! ## Variables of a lookup -/

section Variables

variable {P : Type}

/-- The names of the variables that a statement declares. -/
def Statement.declared : Statement P → List String
  | declare _ n => [n]
  | define _ n _ => [n]
  | assign _ _ => []
  | yield _ => []

def LookupStep.declared : LookupStep P → List String
  | run statements => statements.flatMap Statement.declared
  | choose branches => branches.flatMap fun b => b.statements.flatMap Statement.declared

/-- The names of the variables that a lookup declares. -/
def TableLookup.declared (t : TableLookup P) : List String := t.steps.flatMap LookupStep.declared

/-- The variable that a statement gives a value. -/
def Statement.target? : Statement P → Option String
  | declare _ _ => none
  | define _ n _ => some (ShaderState.resolve n).1
  | assign n _ => some (ShaderState.resolve n).1
  | yield _ => some ShaderState.result

end Variables

/-- A variable that no statement gives a value stays as it is. -/
theorem Statement.run_of_notMem {res : ShaderResources ℝ} {v : String}
    {statements : List (Statement ℝ)} (h : v ∉ statements.filterMap Statement.target?)
    (s : ShaderState ℝ) : Statement.run res statements s v = s v := by
  induction statements generalizing s with
  | nil => rfl
  | cons st statements ih =>
    rw [List.mem_filterMap] at h
    have htarget : st.target? ≠ some v := fun heq => h ⟨st, List.mem_cons_self, heq⟩
    have hstep : Statement.exec res s st v = s v := by
      cases st with
      | declare type n => rfl
      | define type n value =>
        exact ShaderState.write_of_ne (fun heq => htarget (congrArg some heq.symm)) _
      | assign n value =>
        exact ShaderState.write_of_ne (fun heq => htarget (congrArg some heq.symm)) _
      | yield n =>
        refine ShaderState.write_of_ne (n := ShaderState.result) (fun heq => htarget ?_) _
        rw [heq, CurveTexture.resolve_result]
        rfl
    have hrest : v ∉ statements.filterMap Statement.target? := by
      rw [List.mem_filterMap]
      rintro ⟨other, hother, heq⟩
      exact h ⟨other, List.mem_cons_of_mem _ hother, heq⟩
    exact (ih hrest _).trans hstep

/-- A value that has another colour, and the alpha that it had. -/
structure Recolored (before after : ShaderValue ℝ) (color : Rgb ℝ) : Prop where
  color : ∀ c : Channel, after c.component = color.get c
  alpha : after 3 = before 3

theorem recolored_replace {value whole : ShaderValue ℝ} {color : Rgb ℝ}
    (h : ∀ c : Channel, value c.component = color.get c) :
    Recolored whole (Swizzle.rgb.replace value whole) color where
  color c := (Swizzle.replace_rgb value whole c).trans (h c)
  alpha := Swizzle.replace_of_notMem value whole (by decide)

/-! ## Runs of a lookup -/

namespace GridTexture

theorem plain_coords : '.' ∉ "coords".toList := by decide

theorem plain_startPos : '.' ∉ "startPos".toList := by decide

variable (res : ShaderResources ℝ) (size : Nat) (texture pixel : String) (s : ShaderState ℝ)

theorem run_direct (hlocal : pixel ≠ "coords") :
    Statement.run res (directStatements size texture pixel) s pixel =
      Swizzle.rgb.replace ((res.texture texture).sample fun i =>
        (min (max (s.read pixel (2 - i)) 0) 1 * (size - 1) + 1 / 2) / size) (s pixel) := by
  have hrun : Statement.run res (directStatements size texture pixel) s pixel =
      Swizzle.rgb.replace ((res.texture texture).sample fun i =>
        (Scalar.clamp (s.read pixel (2 - i)) ((0 : ℕ) : ℝ) ((1 : ℕ) : ℝ) *
          ((size : ℝ) - ((1 : ℕ) : ℝ)) + ((5 : ℕ) : ℝ) / ((10 : ℕ) : ℝ) ^ 1) / (size : ℝ))
        (s pixel) := by
    simp only [Statement.run, directStatements, colorAt, List.foldl_cons, List.foldl_nil,
      Statement.exec, ShaderState.write_rgb, ShaderState.write_plain plain_coords,
      ShaderState.read_plain plain_coords, Formula.eval, Function.update_self,
      Function.update_of_ne hlocal]
    rfl
  rw [hrun]
  simp only [RealScalar.clamp_unit, RealScalar.decimal_half]
  rw [Nat.cast_one]

variable {res : ShaderResources ℝ} {texture pixel : String} {s : ShaderState ℝ} {lut : Lut3D ℝ}

theorem eval_constant (v : Rgb ℝ) (c : Channel) :
    (Formula.constant v).eval res s c.component = v.get c := by
  cases c <;> rfl

theorem get_offsetAlong (size : Nat) (axes : List Channel) (c : Channel) :
    (offsetAlong size axes).get c = if axes.contains c then 1 / (size : ℝ) else 0 := by
  have hstep : (step size : ℝ) = ((1 : ℕ) : ℝ) / (size : ℝ) := rfl
  unfold offsetAlong
  rw [Rgb.get_ofFn, hstep, Nat.cast_one]
  exact ite_congr rfl (fun _ => rfl) fun _ => Nat.cast_zero

/-- A corner is read in the middle of its texel. -/
theorem eval_corner {base : Rgb ℕ} (htexture : res.texture texture = Lut3DOp.textureImage lut)
    (hfilter : (Lut3DOp.textureImage lut).filter = .nearest)
    (hbase : ∀ c : Channel, base.get c + 1 < lut.size)
    (hstart : ∀ c : Channel, s "startPos" c.component =
      ((base.get c : ℕ) + 1 / 2) * (1 / (lut.size : ℝ))) (axes : List Channel) (ch : Channel) :
    (corner lut.size texture axes).eval res s ch.component =
      (lut.grid.cornerAlong base axes).get ch := by
  have hcoords : ∃ coords : ShaderValue ℝ,
      (corner lut.size texture axes).eval res s = (res.texture texture).sample coords ∧
      ∀ c : Channel, coords (2 - c.component) =
        ((base.get c + (axes.contains c).toNat : ℕ) + 1 / 2) / (lut.size : ℝ) := by
    refine ⟨_, rfl, fun c => ?_⟩
    have hswap : Swizzle.zyx.component (2 - c.component) = c.component := by cases c <;> rfl
    simp only [Formula.eval, hswap]
    by_cases hempty : axes.isEmpty
    · rw [if_pos hempty, List.isEmpty_iff.mp hempty]
      change s.read "startPos" c.component = _
      rw [ShaderState.read_plain plain_startPos, hstart]
      simp [div_eq_mul_inv]
    · rw [if_neg hempty]
      change s.read "startPos" c.component + _ = _
      rw [eval_constant, ShaderState.read_plain plain_startPos, hstart, get_offsetAlong]
      cases axes.contains c <;> simp [div_eq_mul_inv]
      ring
  obtain ⟨coords, heval, hplace⟩ := hcoords
  have halong : ∀ (c : Channel) (texel : Nat → ℝ),
      TextureFilter.nearest.along lut.size (coords (2 - c.component)) texel =
        texel (base.get c + (axes.contains c).toNat) := by
    intro c texel
    rw [hplace]
    refine TextureFilter.along_center _ ?_ texel
    have := hbase c
    have := Bool.toNat_le (axes.contains c)
    omega
  rw [heval, htexture, Lut3DOp.sample_textureImage, hfilter]
  simp only [halong]
  rfl

theorem eval_fraction (c : Channel) :
    (fraction c).eval res s 0 = s "fr" c.component := by
  cases c <;> rfl

/-- What the differences of the corners are multiplied by. -/
theorem eval_weights {f : Rgb ℝ} (h : ∀ c : Channel, s "fr" c.component = f.get c)
    (o : Grid.AxisOrder) :
    let weights :=
      (Formula.vector (fraction o.first) (fraction o.second) (fraction o.third)).eval res s
    weights 0 = f.get o.first ∧ weights 1 = f.get o.second ∧ weights 2 = f.get o.third := by
  have hfraction (c : Channel) : (fraction c).eval res s 0 = f.get c :=
    (eval_fraction c).trans (h c)
  exact ⟨hfraction o.first, hfraction o.second, hfraction o.third⟩

/-- The case that is run is that of the order of the fractions. -/
theorem run_walkCases {f : Rgb ℝ} (h : ∀ c : Channel, s "fr" c.component = f.get c)
    (size : Nat) :
    Branch.run res (walkCases.map (caseBranch size texture)) s =
      Statement.run res (caseStatements size texture (Grid.axisOrder f)) s := by
  have hholds : ∀ a b : Channel,
      (⟨fraction a, fraction b⟩ : Above ℝ).Holds res s ↔ f.get b < f.get a := by
    intro a b
    unfold Above.Holds
    rw [eval_fraction, eval_fraction, h, h]
  have hall : ∀ w : WalkCase, (∀ c ∈ (caseBranch size texture w).conditions, c.Holds res s) ↔
      ∀ ab ∈ w.comparisons, f.get ab.2 < f.get ab.1 := by
    intro w
    simp only [caseBranch, List.forall_mem_map, hholds]
  have hstatements : ∀ w : WalkCase, (caseBranch (P := ℝ) size texture w).statements =
      caseStatements size texture w.order := fun _ => rfl
  simp only [walkCases, List.map_cons, List.map_nil, Branch.run, hall, hstatements]
  unfold Grid.axisOrder
  by_cases hrg : f.green < f.red <;> by_cases hgb : f.blue < f.green <;>
    by_cases hrb : f.blue < f.red <;> simp [Rgb.get, hrg, hgb, hrb]

/-- What a case leaves for the sum. -/
theorem run_case (o : Grid.AxisOrder) :
    let after := Statement.run res (caseStatements lut.size texture o) s
    after "v1" = s "v1" ∧ after "v4" = s "v4" ∧
      after "v2" = (corner lut.size texture [o.first]).eval res s ∧
      after "v3" = (corner lut.size texture [o.first, o.second]).eval res s ∧
      after "f" =
        (Formula.vector (fraction o.first) (fraction o.second) (fraction o.third)).eval res s := by
  -- the variables have names of their own, so running the statements is a matter of definition
  exact ⟨rfl, rfl, rfl, rfl, rfl⟩

/-- The first statements find the cell, its fractions and the two ends of the walk. -/
theorem run_cell (hsize : 2 ≤ lut.size) {p : Rgb ℝ}
    (hp : ∀ c : Channel, s.read pixel c.component = p.get c) :
    let after := Statement.run res (cellStatements lut.size texture pixel) s
    (∀ c : Channel, after "fr" c.component = (lut.grid.place p).fraction.get c) ∧
      (∀ c : Channel, after "startPos" c.component =
        (((lut.grid.place p).base.get c : ℕ) + 1 / 2) * (1 / (lut.size : ℝ))) ∧
      after "v1" = (corner lut.size texture []).eval res after ∧
      after "v4" = (corner lut.size texture [.red, .green, .blue]).eval res after := by
  intro after
  let coords (i : Nat) : ℝ :=
    Scalar.clamp (s.read pixel i) ((0 : ℕ) : ℝ) ((1 : ℕ) : ℝ) * ((lut.size : ℝ) - ((1 : ℕ) : ℝ))
  let base (i : Nat) : ℝ :=
    Scalar.minNum ((⌊coords i⌋ : ℤ) : ℝ)
      ((Formula.constant (Rgb.gray ((lut.size : ℝ) - ((2 : ℕ) : ℝ)))).eval res s i)
  have hfr : after "fr" = fun i => coords i - base i := by rfl
  have hstart : after "startPos" = fun i =>
      (base i + ((5 : ℕ) : ℝ) / ((10 : ℕ) : ℝ) ^ 1) * (((1 : ℕ) : ℝ) / (lut.size : ℝ)) := by rfl
  have hv1 : after "v1" = (corner lut.size texture []).eval res after := by rfl
  have hv4 : after "v4" = (corner lut.size texture [.red, .green, .blue]).eval res after := by rfl
  have hcoords : ∀ c : Channel, coords c.component = Grid.steps lut.size (p.get c) := by
    intro c
    change Scalar.clamp (s.read pixel c.component) ((0 : ℕ) : ℝ) ((1 : ℕ) : ℝ) * _ = _
    rw [hp, RealScalar.clamp_unit]
    unfold Grid.steps
    rw [Nat.cast_pred (by omega), Nat.cast_one]
  have hbase : ∀ c : Channel, base c.component = ((lut.grid.place p).base.get c : ℕ) := by
    intro c
    change Scalar.minNum ((⌊coords c.component⌋ : ℤ) : ℝ) _ = _
    rw [hcoords, eval_constant, Rgb.get_gray, RealScalar.minNum_eq, Grid.get_base,
      ← natCast_floor_eq_intCast_floor (Grid.steps_nonneg _ _)]
    change _ = ((min ⌊Grid.steps lut.size (p.get c)⌋₊ (lut.size - 2) : ℕ) : ℝ)
    rw [Nat.cast_min, Nat.cast_sub hsize]
  refine ⟨?_, ?_, hv1, hv4⟩
  · intro c
    rw [hfr, Grid.get_fraction]
    change coords c.component - base c.component = _
    rw [hcoords, hbase]
    rfl
  · intro c
    rw [hstart]
    change (base c.component + _) * _ = _
    rw [hbase, RealScalar.decimal_half, Nat.cast_one]

/-- The sum along the way goes into the colour of the pixel. -/
theorem run_sum : Statement.run res [sumStatement pixel] s pixel =
    Swizzle.rgb.replace (fun i => s "v1" i + s "f" 0 * (s "v2" i - s "v1" i)
      + s "f" 1 * (s "v3" i - s "v2" i) + s "f" 2 * (s "v4" i - s "v3" i)) (s pixel) := by
  change s.write (pixel ++ ".rgb") _ pixel = _
  rw [ShaderState.write_rgb, Function.update_self]
  rfl

/-- The names that a written-out walk declares. The last three are given a value in the cases. -/
theorem declared_tetrahedral (size : Nat) (texture pixel : String) :
    (tableLookup (P := ℝ) .tetrahedral size texture pixel).declared =
      ["coords", "baseInd", "fr", "startPos", "v1", "v4"] ++ ["v2", "v3", "f"] := rfl

theorem targets_cell (size : Nat) (texture pixel : String) :
    (cellStatements (P := ℝ) size texture pixel).filterMap Statement.target? =
      ["coords", "baseInd", "fr", "startPos", "v1", "v4"] := rfl

theorem targets_case (size : Nat) (texture : String) (o : Grid.AxisOrder) :
    (caseStatements (P := ℝ) size texture o).filterMap Statement.target? = ["v2", "v3", "f"] := rfl

/-- The written-out walk ends with the value of the table's own walk. -/
theorem run_walk (hsize : 2 ≤ lut.size) {p : Rgb ℝ}
    (htexture : res.texture texture = Lut3DOp.textureImage lut)
    (hmethod : lut.interpolation.onGrid = .tetrahedral)
    (hlocal : pixel ∉ (tableLookup (P := ℝ) .tetrahedral lut.size texture pixel).declared)
    (hp : ∀ c : Channel, s.read pixel c.component = p.get c) :
    Recolored (s pixel)
      ((tableLookup .tetrahedral lut.size texture pixel).run res s pixel)
      (lut.grid.tetrahedral p) := by
  have hfilter : (Lut3DOp.textureImage lut).filter = .nearest :=
    Lut3DOp.filter_textureImage hmethod
  rw [declared_tetrahedral, List.mem_append, not_or] at hlocal
  obtain ⟨hfr, hstart, hv1, hv4⟩ := @run_cell res texture pixel s lut hsize p hp
  have hcellPixel : Statement.run res (cellStatements lut.size texture pixel) s pixel = s pixel :=
    Statement.run_of_notMem (by rw [targets_cell]; exact hlocal.1) s
  set cell := Statement.run res (cellStatements lut.size texture pixel) s
  have hcorner (axes : List Channel) (c : Channel) :
      (corner lut.size texture axes).eval res cell c.component =
        (lut.grid.cornerAlong (lut.grid.place p).base axes).get c :=
    eval_corner htexture hfilter (fun c => Grid.base_lt hsize p c) hstart axes c
  set order := Grid.axisOrder (lut.grid.place p).fraction
  obtain ⟨hv1', hv4', hv2, hv3, hf⟩ := @run_case res texture cell lut order
  have hcasePixel : Statement.run res (caseStatements lut.size texture order) cell pixel =
      cell pixel :=
    Statement.run_of_notMem (by rw [targets_case]; exact hlocal.2) cell
  obtain ⟨hx, hy, hz⟩ := @eval_weights res cell _ hfr order
  have hrun : (tableLookup .tetrahedral lut.size texture pixel).run res s =
      Statement.run res [sumStatement pixel]
        (Branch.run res (walkCases.map (caseBranch lut.size texture)) cell) := rfl
  rw [hrun, run_walkCases hfr, run_sum, hcasePixel, hcellPixel]
  refine recolored_replace fun c => ?_
  rw [hv1', hv4', hv2, hv3, hf, hv1, hv4, hcorner, hcorner, hcorner, hcorner, hx, hy, hz]
  unfold Grid.tetrahedral Grid.walk
  rw [Rgb.get_ofFn]
  rfl

theorem run_filtered (hsize : 2 ≤ lut.size) {p : Rgb ℝ}
    (htexture : res.texture texture = Lut3DOp.textureImage lut)
    (hdirect : lut.interpolation.onGrid ≠ .tetrahedral) (hlocal : pixel ≠ "coords")
    (hp : ∀ c : Channel, s.read pixel c.component = p.get c) :
    Recolored (s pixel)
      (Statement.run res (directStatements lut.size texture pixel) s pixel) (lut.apply p) := by
  have hcoords : ∀ c : Channel,
      (min (max (s.read pixel (2 - (2 - c.component))) 0) 1 * ((lut.size : ℝ) - 1) + 1 / 2) /
          lut.size = (Grid.steps lut.size (p.get c) + 1 / 2) / lut.size := by
    intro c
    have hswap : 2 - (2 - c.component) = c.component := by cases c <;> rfl
    rw [hswap, hp]
    unfold Grid.steps
    rw [Nat.cast_pred (by omega)]
  rw [run_direct res lut.size texture pixel s hlocal, htexture]
  refine recolored_replace fun ch => ?_
  unfold Lut3D.apply
  cases hmethod : lut.interpolation.onGrid with
  | nearest => exact Lut3DOp.sample_nearest hsize (Lut3DOp.filter_textureImage hmethod) hcoords ch
  | linear => exact Lut3DOp.sample_linear hsize (Lut3DOp.filter_textureImage hmethod) hcoords ch
  | tetrahedral => exact absurd hmethod hdirect
  | best => cases hset : lut.interpolation <;> rw [hset] at hmethod <;> cases hmethod

/-- Looking up a colour in the texture of a table leaves in the pixel what the table gives. -/
theorem run_tableLookup (hsize : 2 ≤ lut.size) {p : Rgb ℝ}
    (htexture : res.texture texture = Lut3DOp.textureImage lut)
    (hlocal : pixel ∉
      (tableLookup (P := ℝ) lut.interpolation.onGrid lut.size texture pixel).declared)
    (hp : ∀ c : Channel, s.read pixel c.component = p.get c) :
    Recolored (s pixel)
      ((tableLookup lut.interpolation.onGrid lut.size texture pixel).run res s pixel)
      (lut.apply p) := by
  by_cases hmethod : lut.interpolation.onGrid = .tetrahedral
  · have happly : lut.apply p = lut.grid.tetrahedral p := by
      unfold Lut3D.apply
      rw [hmethod]
    rw [happly]
    rw [hmethod] at hlocal ⊢
    exact run_walk hsize htexture hmethod hlocal hp
  · have hdirect : (lut.interpolation.onGrid == Interpolation.tetrahedral) = false := by
      simpa using hmethod
    unfold tableLookup at hlocal ⊢
    rw [hdirect] at hlocal ⊢
    have hname : pixel ≠ "coords" := fun h => hlocal (List.mem_singleton.mpr h)
    exact run_filtered hsize htexture hmethod hname hp

end GridTexture

/-! ## The emitted code -/

namespace Lut3DOp

theorem emit_of_valid {l : Lut3DOp ℝ} (h : (l.validate : Except (OpError ℝ) Unit) = .ok ())
    (program : ShaderProgram ℝ) (source : String) :
    let lut := l.evaluatedGrid
    let pixel := program.settings.pixelName
    let language := program.settings.language
    ∃ (name : String) (next : ShaderProgram ℝ),
      (l.emit program source : Except (OpError ℝ) (Code × ShaderProgram ℝ)) =
        .ok (Code.title s!"Add LUT 3D processing for {name}" ++ .block (Code.ofList
          ((GridTexture.tableLookup (P := ℝ) lut.interpolation.onGrid lut.size name
            pixel).steps.map (LookupStep.code language))), next) ∧
      (program.findTexture? source = none →
        next.textures = program.textures ++ [⟨name, source, textureImage lut⟩]) := by
  intro lut pixel language
  simp only [← GridTexture.lookup_eq]
  unfold emit ShaderProgram.addTexture
  rw [h]
  cases hfound : program.findTexture? source with
  | none => exact ⟨_, _, rfl, fun _ => rfl⟩
  | some t => exact ⟨_, _, rfl, nofun⟩

/-- A table goes into a texture, and the lookup that the shader contains leaves in the pixel what
the table gives, whichever way the table finds values between its points. The written-out walk
takes the axes in the order of the fractions, as the table does, also where fractions are equal.
All of this rests on a grid whose points can be counted, and on a name for the pixel that the block
of the lookup does not give to a variable of its own. -/
theorem a_grid_texture_gives_what_its_table_gives (l : Lut3DOp ℝ)
    (hvalid : (l.validate : Except (OpError ℝ) Unit) = .ok ()) (hfits : l.lut.size ^ 3 < sizeLimit)
    (program : ShaderProgram ℝ) (source : String) :
    let pixel := program.settings.pixelName
    let language := program.settings.language
    ∃ (lut : Lut3D ℝ) (name : String) (next : ShaderProgram ℝ),
      let lookup : TableLookup ℝ :=
        GridTexture.tableLookup lut.interpolation.onGrid lut.size name pixel
      l.evaluatedGrid? = some lut ∧
      (l.emit program source : Except (OpError ℝ) (Code × ShaderProgram ℝ)) =
        .ok (Code.title s!"Add LUT 3D processing for {name}" ++
          .block (Code.ofList (lookup.steps.map (LookupStep.code language))), next) ∧
      (program.findTexture? source = none →
        next.textures = program.textures ++ [⟨name, source, textureImage lut⟩]) ∧
      ∀ res : ShaderResources ℝ, res.texture name = textureImage lut →
        '.' ∉ pixel.toList → pixel ∉ lookup.declared →
          ∀ (s : ShaderState ℝ) (p : Rgb ℝ), (∀ c : Channel, s pixel c.component = p.get c) →
            ∃ color, lut.valueAt? p = some color ∧
              Recolored (s pixel) (lookup.run res s pixel) color := by
  intro pixel language
  obtain ⟨name, next, hemit, htextures⟩ := emit_of_valid hvalid program source
  have hgrid := complete_of_validate hvalid hfits
  have hcomplete := complete_evaluatedGrid hgrid
  refine ⟨l.evaluatedGrid, name, next, evaluatedGrid?_eq hgrid, hemit, htextures, ?_⟩
  intro res htexture hplain hlocal s p hp
  refine ⟨_, hcomplete.valueAt?_eq p, ?_⟩
  exact GridTexture.run_tableLookup hcomplete.points htexture hlocal fun c => by
    rw [ShaderState.read_plain hplain, hp]

/-- The products of the coordinates at the corners of the cube, which no plane goes through. -/
noncomputable def cornerProducts : Lut3DOp ℝ where
  lut :=
    { entries := #[Rgb.gray 0, Rgb.gray 0, Rgb.gray 0, Rgb.gray 0, Rgb.gray 0, Rgb.gray 0,
        Rgb.gray 0, Rgb.gray 1]
      size := 2
      interpolation := .best }
  direction := .forward

theorem validate_cornerProducts :
    (cornerProducts.validate : Except (OpError ℝ) Unit) = .ok () :=
  (validate_iff _).mpr ⟨le_refl 2, by decide, fun _ _ => rfl⟩

/-- A gray has three equal fractions. The pixel has the default name. -/
theorem a_gray_is_looked_up_in_corner_products :
    (cornerProducts.validate : Except (OpError ℝ) Unit) = .ok () ∧
      cornerProducts.lut.size ^ 3 < sizeLimit ∧
      ∃ (name : String) (res : ShaderResources ℝ) (color : Rgb ℝ),
        res.texture name = textureImage cornerProducts.lut ∧
        cornerProducts.lut.valueAt? (Rgb.gray (1 / 2)) = some color ∧
        (GridTexture.tableLookup .tetrahedral 2 name "outColor").run res (fun _ _ => 1 / 2)
          "outColor" 0 = color.red := by
  have hfits : cornerProducts.lut.size ^ 3 < sizeLimit := by decide
  obtain ⟨lut, name, _, hgrid, _, _, hlookup⟩ := a_grid_texture_gives_what_its_table_gives
    cornerProducts validate_cornerProducts hfits { settings := {} } "grid"
  obtain rfl : cornerProducts.lut = lut := Option.some.inj hgrid
  have hlocal : "outColor" ∉ (GridTexture.tableLookup (P := ℝ) .tetrahedral 2 name
      "outColor").declared := by
    rw [GridTexture.declared_tetrahedral]
    decide
  obtain ⟨color, happly, hcolor⟩ :=
    hlookup ⟨fun _ => textureImage cornerProducts.lut, fun _ _ _ => 0⟩ rfl (by decide) hlocal
      (fun _ _ => 1 / 2) (Rgb.gray (1 / 2)) fun c => (Rgb.get_gray _ c).symm
  exact ⟨validate_cornerProducts, hfits, name, _, color, rfl, happly, hcolor.color .red⟩

/-- A grid without entries, whose 2^66 points are counted as none. -/
noncomputable def uncountedGrid : Lut3DOp ℝ := ⟨{ entries := #[], size := 4194304 }, .inverse⟩

/-- Both directions of a grid with too many points to be counted are well-formed. One has no grid
to evaluate, and the grid of the other gives no colour. -/
theorem a_grid_with_uncounted_points_gives_no_color :
    (uncountedGrid.validate : Except (OpError ℝ) Unit) = .ok () ∧
      uncountedGrid.evaluatedGrid? = none ∧
      (uncountedGrid.inverse.validate : Except (OpError ℝ) Unit) = .ok () ∧
      uncountedGrid.inverse.evaluatedGrid? = some uncountedGrid.lut ∧
      uncountedGrid.lut.valueAt? (Rgb.gray 0) = none := by
  have hvalid : (uncountedGrid.validate : Except (OpError ℝ) Unit) = .ok () :=
    (validate_iff _).mpr ⟨by decide, by decide, nofun⟩
  exact ⟨hvalid, Lut3D.invert?_of_empty rfl (by decide),
    (validate_iff _).mpr ((validate_iff _).mp hvalid), rfl, Lut3D.valueAt?_of_empty rfl _⟩

end Lut3DOp

end ColorPipeline
