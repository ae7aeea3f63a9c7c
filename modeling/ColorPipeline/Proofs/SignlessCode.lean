-- Code of ops whose parameters differ in the signs of zeros. Numbers in code have none, and
-- what decides which lines there are does not see them, so the code is the same.
import ColorPipeline.Proofs.Fingerprints
import ColorPipeline.Proofs.SignlessTables
import ColorPipeline.Shader.Emission

open scoped ColorPipeline.Scalar

namespace ColorPipeline

theorem map_eq_of_forall₂ {α β : Type} {r : α → α → Prop} {f : α → β} {xs ys : List α}
    (h : List.Forall₂ r xs ys) (hf : ∀ a b : α, r a b → f a = f b) : xs.map f = ys.map f := by
  induction h with
  | nil => rfl
  | cons hfirst _ ih => rw [List.map_cons, List.map_cons, hf _ _ hfirst, ih]

theorem all_zipWith_eq {α β : Type} {r : α → α → Prop} {f : α → β → Bool} {u v : Rgba α}
    (h : List.Forall₂ r u.toList v.toList)
    (hf : ∀ (x y : α) (c : β), r x y → f x c = f y c) (w : Rgba β) :
    (u.zipWith f w).toList.all id = (v.zipWith f w).toList.all id := by
  simp only [Rgba.toList, List.forall₂_cons] at h
  obtain ⟨hred, hgreen, hblue, halpha, -⟩ := h
  unfold Rgba.zipWith
  rw [hf _ _ w.red hred, hf _ _ w.green hgreen, hf _ _ w.blue hblue, hf _ _ w.alpha halpha]

section Numbers

variable {R : Type} [Scalar R] [SignlessZeros R]

/-- Numbers that are the same differ at most in the sign of a zero. -/
theorem SameNumbers.alike {vs ws : List R} (h : SameNumbers vs ws) : List.Forall₂ Alike vs ws :=
  h.imp fun _ _ => SignlessZeros.alike_of_beq

/-- Without zeros there are no signs to differ in. -/
theorem SameNumbers.eq_of_ne {vs ws : List R} (h : SameNumbers vs ws)
    (hvs : ∀ v ∈ vs, ¬ (v == 0) = true) : vs = ws := by
  induction h with
  | nil => rfl
  | cons hfirst _ ih =>
    rw [List.forall_mem_cons] at hvs
    rw [(SignlessZeros.alike_of_beq hfirst).eq_of_ne hvs.1, ih hvs.2]

namespace ShaderLanguage

variable [Stored R]

theorem number_eq {v w : R} (h : Alike v w) : number v = number w :=
  congrArg Stored.literal (SignlessZeros.add_zero h)

theorem vector4_eq (l : ShaderLanguage) {v w : Rgba R}
    (h : List.Forall₂ Alike v.toList w.toList) : l.vector4 v = l.vector4 w := by
  unfold vector4
  rw [map_eq_of_forall₂ h fun _ _ => number_eq]

theorem vector3_gray_eq (l : ShaderLanguage) {v w : R} (h : Alike v w) :
    l.vector3 (Rgb.gray v) = l.vector3 (Rgb.gray w) := by
  have hall : List.Forall₂ Alike (Rgb.gray v).toList (Rgb.gray w).toList :=
    .cons h (.cons h (.cons h .nil))
  unfold vector3
  rw [map_eq_of_forall₂ hall fun _ _ => number_eq]

end ShaderLanguage

end Numbers

section Parameters

variable {P : Type} [Scalar P] [SignlessZeros P]

/-! ## Matrices -/

namespace MatrixOp

/-- Rows that are alike entry by entry. -/
def AlikeRows (u v : Rgba P) : Prop := List.Forall₂ Alike u.toList v.toList

/-- Matrices and offsets that are alike entry by entry. -/
structure Alike (a b : MatrixOp P) : Prop where
  rows : List.Forall₂ AlikeRows a.matrix.toList b.matrix.toList
  offset : AlikeRows a.offset b.offset

theorem Same.alike {a b : MatrixOp P} (h : a.Same b) : a.Alike b := by
  have hnumbers := SameNumbers.alike h
  simp only [numbers, Rgba.toList, List.flatMap_cons, List.flatMap_nil, List.cons_append,
    List.nil_append, List.append_nil, List.forall₂_cons] at hnumbers
  constructor
  · simp [AlikeRows, Rgba.toList, List.forall₂_cons, hnumbers]
  · simp [AlikeRows, Rgba.toList, List.forall₂_cons, hnumbers]

theorem Alike.hasIdentityMatrix_eq {a b : MatrixOp P} (h : a.Alike b) :
    a.hasIdentityMatrix = b.hasIdentityMatrix := by
  refine all_zipWith_eq h.rows (fun u v w huv => all_zipWith_eq huv (fun x y c hxy => ?_) w) _
  exact decide_eq_decide.mpr
    (SignlessZeros.le_iff (SignlessZeros.abs (SignlessZeros.sub hxy (.refl c))) (.refl _))

theorem Alike.code_eq [Stored P] {a b : MatrixOp P} (h : a.Alike b) (l : ShaderLanguage)
    (px : String) : a.code l px = b.code l px := by
  have hrow : ∀ u v : Rgba P, AlikeRows u v →
      s!"dot({px}, {l.vector4 u})" = s!"dot({px}, {l.vector4 v})" :=
    fun u v huv => by rw [l.vector4_eq huv]
  have hsum :
      (a.offset.toList.any fun v => !(v == 0)) = b.offset.toList.any fun v => !(v == 0) := by
    have hmap := map_eq_of_forall₂ (f := fun v : P => !(v == 0)) h.offset
      fun _ _ hxy => congrArg not (SignlessZeros.beq_eq hxy (.refl 0))
    simpa [List.any_map] using congrArg (List.any · id) hmap
  unfold code
  dsimp only
  rw [map_eq_of_forall₂ h.rows hrow, h.hasIdentityMatrix_eq, hsum, l.vector4_eq h.offset]

end MatrixOp

/-! ## Ranges -/

namespace RangeOp

/-- Bounds that are alike, or both missing. -/
abbrev AlikeBounds (x y : Option P) : Prop := Option.Rel Alike x y

theorem alikeBounds_of_sameBound {x y : Option P} (h : sameBound x y) :
    AlikeBounds x y := by
  cases x <;> cases y
  · exact .none
  · cases h
  · cases h
  · exact .some (SignlessZeros.alike_of_beq h)

/-- Bounds in order are not the same. -/
theorem width_ne_zero {lo hi : P} (horder : ¬ hi ≤ lo) (hlo : Scalar.isFinite lo)
    (hhi : Scalar.isFinite hi) : ¬ (hi - lo == 0) = true := by
  intro hzero
  have halike := SignlessZeros.alike_of_sub hhi hlo hzero
  exact horder ((SignlessZeros.le_iff halike (.refl lo)).mpr (SignlessZeros.le_self hlo))

end RangeOp

/-- Affine maps with alike numbers and limits. -/
structure ClampedAffine.Alike (a b : ClampedAffine P) : Prop where
  scale : ColorPipeline.Alike a.scale b.scale
  offset : ColorPipeline.Alike a.offset b.offset
  lower : Option.Rel ColorPipeline.Alike a.lower b.lower
  upper : Option.Rel ColorPipeline.Alike a.upper b.upper

namespace RangeOp

/-- The map of a range is the same too. No bound is divided by. -/
theorem Same.affine {a b : RangeOp P} (h : a.Same b) (ha : a.Valid) : a.affine.Alike b.affine := by
  obtain ⟨minIn, maxIn, minOut, maxOut⟩ := a
  obtain ⟨minIn', maxIn', minOut', maxOut'⟩ := b
  obtain ⟨hminIn, hmaxIn, hminOut, hmaxOut⟩ := h
  have hminimum := ha.minimum
  have hmaximum := ha.maximum
  have hone : ColorPipeline.Alike (1 : P) 1 := .refl 1
  cases alikeBounds_of_sameBound hminIn with
  | none =>
    cases alikeBounds_of_sameBound hminOut with
    | some _ => cases hminimum
    | none =>
      cases alikeBounds_of_sameBound hmaxIn with
      | none =>
        cases alikeBounds_of_sameBound hmaxOut with
        | none => exact ⟨hone, .refl 0, .none, .none⟩
        | some _ => cases hmaximum
      | some hin =>
        cases alikeBounds_of_sameBound hmaxOut with
        | none => cases hmaximum
        | some hout => exact ⟨hone, SignlessZeros.sub hout hin, .none, .some hout⟩
  | some hlow =>
    cases alikeBounds_of_sameBound hminOut with
    | none => cases hminimum
    | some hlowOut =>
      cases alikeBounds_of_sameBound hmaxIn with
      | none =>
        cases alikeBounds_of_sameBound hmaxOut with
        | none => exact ⟨hone, SignlessZeros.sub hlowOut hlow, .some hlowOut, .none⟩
        | some _ => cases hmaximum
      | some hhigh =>
        cases alikeBounds_of_sameBound hmaxOut with
        | none => cases hmaximum
        | some hhighOut =>
          have hwidth := width_ne_zero (ha.input _ rfl _ rfl) (ha.finite _ (by simp [bounds]))
            (ha.finite _ (by simp [bounds]))
          have hscale := (SignlessZeros.sub hhighOut hlowOut).div_of_ne
            (SignlessZeros.sub hhigh hlow) hwidth
          exact ⟨hscale, SignlessZeros.sub hlowOut (SignlessZeros.mul hlow hscale), .some hlowOut,
            .some hhighOut⟩

/-- The code of a range depends on its map alone. -/
theorem code_eq_of_affine [Stored P] {a b : RangeOp P} (h : a.affine.Alike b.affine)
    (l : ShaderLanguage) (px : String) : a.code l px = b.code l px := by
  unfold code
  generalize a.affine = m at h ⊢
  generalize b.affine = n at h ⊢
  obtain ⟨scale, offset, lower, upper⟩ := m
  obtain ⟨scale', offset', lower', upper'⟩ := n
  obtain ⟨hscale, hoffset, hlower, hupper⟩ := h
  dsimp only at hscale hoffset hlower hupper ⊢
  rw [SignlessZeros.beq_eq hscale (.refl 1), SignlessZeros.beq_eq hoffset (.refl 0),
    l.vector3_gray_eq hscale, l.vector3_gray_eq hoffset]
  cases hlower <;> cases hupper <;> dsimp only
  case none.some hhigh => rw [l.vector3_gray_eq hhigh]
  case some.none hlow => rw [l.vector3_gray_eq hlow]
  case some.some _ _ hlow _ _ hhigh => rw [l.vector3_gray_eq hlow, l.vector3_gray_eq hhigh]

end RangeOp

/-! ## Exponents -/

theorem ExponentOp.Same.code_eq [Stored P] {a b : ExponentOp P} (h : a.Same b) (l : ShaderLanguage)
    (px : String) : a.code l px = b.code l px := by
  obtain ⟨hvalue, hstyle⟩ := h
  unfold code
  rw [l.vector4_eq hvalue.alike, hstyle]

/-! ## Parameters that are not zero -/

/-- The base of a logarithm is above zero, so no sign is left open. -/
theorem LogOp.Same.eq {a b : LogOp P} (h : a.Same b) (ha : a.validate = .ok ()) : a = b := by
  obtain ⟨base, direction⟩ := a
  obtain ⟨base', direction'⟩ := b
  obtain ⟨hbase, rfl : direction = direction'⟩ := h
  have hne : ¬ (base == 0) = true := by
    intro hzero
    unfold validate at ha
    split at ha
    · cases ha
    · rename_i hvalid
      simp only [Bool.or_eq_true, Bool.not_eq_true', decide_eq_true_eq, not_or,
        Bool.not_eq_false] at hvalid
      have halike := SignlessZeros.alike_of_beq hzero
      exact hvalid.2 ((SignlessZeros.le_iff (.refl base) halike.symm).mpr
        (SignlessZeros.le_self hvalid.1))
  have hsame : base = base' := (SignlessZeros.alike_of_beq hbase).eq_of_ne hne
  rw [hsame]

/-- A gamma is never zero, so there is no sign to be seen. -/
theorem FixedFunctionOp.ne_zero_of_checkGamma {v : P} (h : checkGamma v = .ok ()) :
    ¬ (v == 0) = true := by
  intro hzero
  unfold checkGamma at h
  split at h
  · cases h
  · rename_i hvalid
    simp only [Bool.or_eq_true, decide_eq_true_eq, not_or] at hvalid
    exact hvalid.2 ((SignlessZeros.lt_iff (SignlessZeros.alike_of_beq hzero) (.refl _)).mpr
      (SignlessZeros.decimal_pos 2 (by decide)))

/-- Only surround functions have a parameter, and it is above zero. -/
theorem FixedFunctionOp.ne_zero_of_validate {f : FixedFunctionOp P} (h : f.validate = .ok ()) :
    ∀ v ∈ f.parameters, ¬ (v == 0) = true := by
  unfold validate at h
  split at h
  · split at h
    · rename_i v hv
      rw [hv, List.forall_mem_singleton]
      exact ne_zero_of_checkGamma h
    · cases h
  · split at h
    · rename_i hnone
      rw [hnone]
      exact nofun
    · cases h

theorem FixedFunctionOp.Same.eq {a b : FixedFunctionOp P} (h : a.Same b)
    (ha : a.validate = .ok ()) : a = b := by
  have hparameters := h.2.eq_of_ne (ne_zero_of_validate ha)
  obtain ⟨style, parameters⟩ := a
  obtain ⟨style', parameters'⟩ := b
  exact congrArg₂ mk h.1 hparameters

end Parameters

/-! ## Tables -/

/-- Images that differ in the signs of zeros at most. -/
structure TextureImage.Alike {S : Type} [Scalar S] (t u : TextureImage S) : Prop where
  dim : t.dim = u.dim
  width : t.width = u.width
  height : t.height = u.height
  depth : t.depth = u.depth
  texels : List.Forall₂ ColorPipeline.Alike t.texels u.texels
  filter : t.filter = u.filter

section Tables

variable {S : Type} [Scalar S]

theorem Rgb.Alike.toList {p q : Rgb S} (h : p.Alike q) :
    List.Forall₂ ColorPipeline.Alike p.toList q.toList := by
  obtain ⟨hred, hgreen, hblue⟩ := Rgb.alike_iff.mp h
  exact .cons hred (.cons hgreen (.cons hblue .nil))

theorem forall₂_flatMap {α β γ : Type} {r : α → β → Prop} {t : γ → γ → Prop} {f : α → List γ}
    {g : β → List γ} {xs : List α} {ys : List β} (h : List.Forall₂ r xs ys)
    (hf : ∀ (x : α) (y : β), r x y → List.Forall₂ t (f x) (g y)) :
    List.Forall₂ t (xs.flatMap f) (ys.flatMap g) := by
  induction h with
  | nil => exact .nil
  | cons hfirst _ ih =>
    rw [List.flatMap_cons, List.flatMap_cons]
    exact List.rel_append (hf _ _ hfirst) ih

theorem Lut1D.Alike.textureImage {lut other : Lut1D S} (h : lut.Alike other) (t : CurveTexture) :
    (Lut1DOp.textureImage lut t).Alike (Lut1DOp.textureImage other t) where
  dim := rfl
  width := rfl
  height := rfl
  depth := rfl
  texels := by
    refine forall₂_flatMap (List.forall₂_same.mpr fun i _ => rfl) ?_
    rintro i _ rfl
    exact (h.entry i).toList
  filter := rfl

theorem Lut3D.Alike.textureImage {lut other : Lut3D S} (h : lut.Alike other) :
    (Lut3DOp.textureImage lut).Alike (Lut3DOp.textureImage other) where
  dim := rfl
  width := h.size
  height := h.size
  depth := h.size
  texels := forall₂_flatMap h.entries fun _ _ hp => hp.toList
  filter := by
    unfold Lut3DOp.textureImage
    rw [h.interpolation]

variable [PlainSums S]

/-- Ops with the same samples look up tables that are alike. -/
theorem Lut1DOp.Same.table {a b : Lut1DOp S} (h : a.Same b)
    (ha : ∀ v ∈ tableNumbers a.lut.samples, Scalar.isFinite v) : a.table.Alike b.table := by
  obtain ⟨hnumbers, hinterpolation, hdirection⟩ := h
  have hsamples := alike_of_tableNumbers hnumbers.alike
  have hluts : a.lut.Alike b.lut := ⟨hsamples.length_eq, hinterpolation, fun i =>
    alike_getD hsamples i _⟩
  unfold Lut1DOp.table
  rw [← hdirection]
  cases a.direction with
  | forward => exact hluts
  | inverse => exact hluts.inverseCurves ha bakedSize

/-- Ops with the same entries look up grids that are alike. -/
theorem Lut3DOp.Same.evaluatedGrid {a b : Lut3DOp S} (h : a.Same b) :
    a.evaluatedGrid.Alike b.evaluatedGrid := by
  obtain ⟨hnumbers, hsize, hinterpolation, hdirection⟩ := h
  have hluts : a.lut.Alike b.lut := ⟨hsize, hinterpolation, alike_of_tableNumbers hnumbers.alike⟩
  unfold Lut3DOp.evaluatedGrid
  rw [← hdirection]
  cases a.direction with
  | forward => exact hluts
  | inverse =>
    refine ⟨hsize, hinterpolation, ?_⟩
    rw [hluts.entries_invert]
    exact List.forall₂_same.mpr fun p _ => .refl p

theorem Lut1DOp.Same.layout_eq {a b : Lut1DOp S} (h : a.Same b)
    (ha : ∀ v ∈ tableNumbers a.lut.samples, Scalar.isFinite v) {s t : ShaderSettings}
    (hwidth : min a.table.size s.maxWidth = min a.table.size t.maxWidth) :
    a.layout s = b.layout t := by
  have htable := h.table ha
  unfold layout curveTexture
  rw [← htable.size, ← htable.interpolation, hwidth]

end Tables

/-! ## Ops of any kind -/

namespace OpData

variable {P S : Type} [Scalar P] [Scalar S] [PlainSums S]

/-- A table of a curve is as wide in a texture under either settings. -/
def SameWidth (s t : ShaderSettings) : OpData P S → Prop
  | lut1D l => min l.table.size s.maxWidth = min l.table.size t.maxWidth
  | _ => True

variable {d e : OpData P S} {s t : ShaderSettings}

/-- Ops of the same parameters have textures of the same texels. -/
theorem Same.image? (h : d.Same e) (hd : d.validate = .ok ()) (hwidth : d.SameWidth s t) :
    Option.Rel TextureImage.Alike (d.image? s) (e.image? t) := by
  have hkind := h.kind_eq
  cases d <;> cases e <;> try cases hkind
  case lut1D.lut1D a b =>
    have ha := ((Lut1DOp.validate_iff a).mp hd).2.1
    change Option.Rel _ (some _) (some _)
    rw [Lut1DOp.Same.layout_eq h ha hwidth]
    exact .some ((Lut1DOp.Same.table h ha).textureImage _)
  case lut3D.lut3D a b => exact .some (Lut3DOp.Same.evaluatedGrid h).textureImage
  all_goals exact .none

variable [Stored P]

theorem Same.helper_eq (h : d.Same e) (hd : d.validate = .ok ()) (hwidth : d.SameWidth s t)
    (hlanguage : s.language = t.language) (texture : String) :
    d.helper s texture = e.helper t texture := by
  have hkind := h.kind_eq
  cases d <;> cases e <;> try cases hkind
  case lut1D.lut1D a b =>
    unfold helper
    dsimp only
    rw [Lut1DOp.Same.layout_eq h ((Lut1DOp.validate_iff a).mp hd).2.1 hwidth, hlanguage]
  all_goals rfl

variable [SignlessZeros P] [Stored S] [Precision P S]

theorem Same.code_eq (h : d.Same e) (hd : d.validate = .ok ()) (hlanguage : s.language = t.language)
    (hpixel : s.pixelName = t.pixelName) (texture : String) :
    d.code s texture = e.code t texture := by
  have hkind := h.kind_eq
  unfold code
  rw [hlanguage, hpixel]
  cases d <;> cases e <;> try cases hkind
  case matrix.matrix a b => exact (MatrixOp.Same.alike h).code_eq _ _
  case range.range a b =>
    exact RangeOp.code_eq_of_affine (RangeOp.Same.affine h ((RangeOp.validate_iff a).mp hd)) _ _
  case exponent.exponent a b => exact ExponentOp.Same.code_eq h _ _
  case log.log a b =>
    dsimp only
    rw [LogOp.Same.eq h hd]
  case lut1D.lut1D a b => rfl
  case lut3D.lut3D a b =>
    have hgrid := Lut3DOp.Same.evaluatedGrid h
    dsimp only
    rw [hgrid.interpolation, hgrid.size]
  case fixedFunction.fixedFunction a b =>
    dsimp only
    rw [FixedFunctionOp.Same.eq h hd]

end OpData

end ColorPipeline
