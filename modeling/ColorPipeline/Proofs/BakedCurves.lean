-- An inverse 1D table in a texture, over the real numbers. The shader has no search: it looks
-- up samples of the inverse curves, taken at values from 0 to 1, and limits values to these
-- before. The table itself limits values to its samples, whichever these are.
import ColorPipeline.Proofs.CurveTextures
import ColorPipeline.Proofs.Emission
import ColorPipeline.Proofs.TablePairs

open scoped ColorPipeline.RealScalar

namespace ColorPipeline

/-! ## Inverse curves -/

namespace Curve

variable {c : Curve ℝ}

/-- Values are taken back to one input where the samples limit them to one value. -/
theorem invert_eq_iff (hsize : 2 ≤ c.size) (hc : c.NonDecreasing) {v w : ℝ} :
    c.invert v = c.invert w ↔ c.withinSamples v = c.withinSamples w := by
  constructor
  · intro h
    rw [← linear_invert hsize hc, h, linear_invert hsize hc]
  · intro h
    rw [← invert_withinSamples hsize hc, h, invert_withinSamples hsize hc]

theorem limited_of_neg {v : ℝ} (hv : v < 0) : min (max v 0) 1 = 0 := by
  rw [max_eq_right (le_of_lt hv), min_eq_left zero_le_one]

theorem limited_of_one_lt {v : ℝ} (hv : 1 < v) : min (max v 0) 1 = 1 := by
  rw [max_eq_left (by linarith), min_eq_right (le_of_lt hv)]

/-- Values outside 0 to 1 can be limited before they are inverted on a curve that stays inside,
and on a flat one. -/
theorem invert_limited_iff (hsize : 2 ≤ c.size) (hc : c.NonDecreasing) :
    (∀ v, v < 0 ∨ 1 < v → c.invert (min (max v 0) 1) = c.invert v) ↔
      c.sample 0 = c.sample (c.size - 1) ∨ 0 ≤ c.sample 0 ∧ c.sample (c.size - 1) ≤ 1 := by
  have hspan := hc.le (Nat.zero_le (c.size - 1)) (by omega)
  simp only [invert_eq_iff hsize hc, withinSamples_eq]
  constructor
  · intro hall
    by_contra hout
    obtain ⟨hne, hout⟩ := not_or.mp hout
    have hrise := lt_of_le_of_ne hspan hne
    -- an end of the samples that lies outside is itself a value that is limited wrongly
    rcases lt_or_ge (c.sample 0) 0 with hlow | hlow
    · have h := hall _ (.inl hlow)
      rw [limited_of_neg hlow, max_eq_left (le_of_lt hlow), max_self, min_eq_left hspan] at h
      exact absurd h (ne_of_gt (lt_min hlow hrise))
    · have hhigh : 1 < c.sample (c.size - 1) := not_le.mp fun h => hout ⟨hlow, h⟩
      have h := hall _ (.inr hhigh)
      rw [limited_of_one_lt hhigh, max_eq_left hspan, min_self,
        min_eq_left (max_le (le_of_lt hhigh) hspan)] at h
      exact absurd h (ne_of_lt (max_lt hhigh hrise))
  · rintro (hflat | ⟨hlow, hhigh⟩) v hv
    · rw [min_eq_right (hflat ▸ le_max_right _ _), min_eq_right (hflat ▸ le_max_right _ _)]
    · rcases hv with hv | hv
      · rw [limited_of_neg hv, max_eq_right hlow, max_eq_right (by linarith)]
      · rw [limited_of_one_lt hv, min_eq_right (hhigh.trans (le_max_left _ _)),
          min_eq_right ((hhigh.trans (le_of_lt hv)).trans (le_max_left _ _))]

end Curve

namespace Lut1D

variable (lut : Lut1D ℝ) {size i : Nat}

theorem size_inverseCurves : (lut.inverseCurves size).size = size := Array.size_ofFn

/-- The samples of the inverse are taken at even steps between zero and one. -/
theorem sample_inverseCurves (hi : i < size) (ch : Channel) :
    ((lut.inverseCurves size).curve ch).sample i =
      (lut.curve ch).invert (i / ((size - 1 : ℕ) : ℝ)) := by
  have hpoint : (gridPoint size i : ℝ) = i / ((size - 1 : ℕ) : ℝ) := by
    have h : (gridPoint size i : ℝ) = (i : ℝ) * (((1 : ℕ) : ℝ) / ((size - 1 : ℕ) : ℝ)) := rfl
    rw [h, Nat.cast_one, mul_one_div]
  have hentry : (lut.inverseCurves size).entry i =
      lut.applyInverse (Rgb.gray (gridPoint size i)) := by
    unfold entry inverseCurves
    rw [Array.getD_eq_getD_getElem?, Array.getElem?_ofFn, dif_pos hi]
    rfl
  have hsample : ((lut.inverseCurves size).curve ch).sample i =
      ((lut.inverseCurves size).entry i).get ch := rfl
  rw [hsample, hentry, hpoint]
  unfold applyInverse
  rw [Rgb.get_ofFn, Rgb.get_gray]

/-- Where the limited value is that of a sample, the inverse curves are exact. -/
theorem eval_inverseCurves (hsize : 2 ≤ size) (hi : i < size) {v : ℝ}
    (hv : min (max v 0) 1 = i / ((size - 1 : ℕ) : ℝ)) (ch : Channel) :
    ((lut.inverseCurves size).curve ch).eval false v =
      (lut.curve ch).invert (min (max v 0) 1) := by
  have hcurve : ((lut.inverseCurves size).curve ch).size = size := lut.size_inverseCurves
  have hpos : (0 : ℝ) < ((size - 1 : ℕ) : ℝ) := Nat.cast_pos.mpr (by omega)
  have hposition : (i : ℝ) + 0 = ((lut.inverseCurves size).curve ch).position v := by
    rw [Curve.position_eq, hcurve, hv, div_mul_cancel₀ _ (ne_of_gt hpos), add_zero]
  have hsize' : 2 ≤ ((lut.inverseCurves size).curve ch).size := by rwa [hcurve]
  have hi' : i < ((lut.inverseCurves size).curve ch).size := by rwa [hcurve]
  rw [Curve.eval_eq hsize', if_neg nofun,
    CurveTexture.linear_of_steps _ hsize' hi' le_rfl one_pos (fun h => absurd rfl h) hposition,
    sample_inverseCurves lut hi, hv]
  ring

end Lut1D

/-! ## The emitted code -/

namespace Lut1DOp

/-- In a channel with the value `v` the code leaves what the inverse of a table gives. -/
def LooksUpInverse (lut : Lut1D ℝ) (res : ShaderResources ℝ) (texture pixel : String)
    (ch : Channel) (v : ℝ) : Prop :=
  ∀ (s : ShaderState ℝ) (p : Rgb ℝ), (∀ c : Channel, s.read pixel c.component = p.get c) →
    p.get ch = v →
      (Statement.run res (CurveTexture.lookupStatements texture pixel) s).read
        (pixel ++ "." ++ ch.letter) 0 = (lut.applyInverse p).get ch

section Bound

variable {lut : Lut1D ℝ} {maxWidth size : Nat} {res : ShaderResources ℝ} {texture : String}
  (hwidth : 2 ≤ maxWidth) (hsize : 2 ≤ size)
  (hbound : (curveTexture (lut.inverseCurves size) maxWidth).Bound res texture
    (textureImage (lut.inverseCurves size) (curveTexture (lut.inverseCurves size) maxWidth)))
  (pixel : String) (ch : Channel)

include hwidth hsize hbound

/-- The lookup leaves the value of the inverse table in the channel, whatever its name is. -/
theorem read_run_baked (s : ShaderState ℝ) :
    (Statement.run res (CurveTexture.lookupStatements texture pixel) s).read
        (pixel ++ "." ++ ch.letter) 0 =
      ((lut.inverseCurves size).curve ch).eval false (s.read pixel ch.component) := by
  rw [CurveTexture.read_run_lookup hbound]
  exact CurveTexture.eval_sample (by rwa [Lut1D.size_inverseCurves]) hwidth _ ch

theorem looksUpInverse_iff (v : ℝ) :
    LooksUpInverse lut res texture pixel ch v ↔
      ((lut.inverseCurves size).curve ch).eval false v = (lut.curve ch).invert v := by
  have hlookup := read_run_baked hwidth hsize hbound pixel ch
  have hinvert (p : Rgb ℝ) : (lut.applyInverse p).get ch = (lut.curve ch).invert (p.get ch) :=
    Rgb.get_ofFn _ _
  constructor
  · intro h
    have hread : ∀ c : Channel, ShaderState.read (fun _ _ => v) pixel c.component = v :=
      fun c => ShaderState.read_const v pixel c.component
    have hgray := h (fun _ _ => v) (Rgb.gray v)
      (fun c => (hread c).trans (Rgb.get_gray v c).symm) (Rgb.get_gray v ch)
    rw [hlookup, hread, hinvert, Rgb.get_gray] at hgray
    exact hgray
  · rintro h s p hp rfl
    rw [hlookup, hp, hinvert]
    exact h

end Bound

theorem emit_inverse (lut : Lut1D ℝ)
    (hvalid : ((⟨lut, .inverse⟩ : Lut1DOp ℝ).validate : Except (OpError ℝ) Unit) = .ok ())
    (program : ShaderProgram ℝ) (source : String) (hnew : program.findTexture? source = none) :
    let baked := lut.inverseCurves bakedSize
    let t := curveTexture baked program.settings.maxWidth
    let name := program.nextName "lut1d"
    let language := program.settings.language
    ∃ next : ShaderProgram ℝ,
      ((⟨lut, .inverse⟩ : Lut1DOp ℝ).emit program source :
        Except (OpError ℝ) (Code × ShaderProgram ℝ)) =
          .ok (CurveTexture.lookup ℝ language name program.settings.pixelName, next) ∧
      next.textures = program.textures ++ [⟨name, source, textureImage baked t⟩] ∧
      next.helpers = program.helpers ++ (t.helper (P := ℝ) language name).text language := by
  intro baked t name language
  unfold emit ShaderProgram.addTexture
  rw [hvalid, shaderTable_eq, hnew]
  exact ⟨_, rfl, rfl, rfl⟩

/-- An inverse table goes into a texture of 4096 samples of its curves, at values from 0 to 1.
The shader looks up what the table gives at those values. At the values outside, it does so in
the channels that are flat or have all their samples from 0 to 1, and in no other ones: the
table limits values to its samples, and the texture to the values from 0 to 1. -/
theorem a_baked_texture_gives_what_the_inverse_gives_iff (lut : Lut1D ℝ)
    (hvalid : ((⟨lut, .inverse⟩ : Lut1DOp ℝ).validate : Except (OpError ℝ) Unit) = .ok ())
    (program : ShaderProgram ℝ) (source : String) (hnew : program.findTexture? source = none) :
    let baked := lut.inverseCurves bakedSize
    let t := curveTexture baked program.settings.maxWidth
    let name := program.nextName "lut1d"
    let language := program.settings.language
    let pixel := program.settings.pixelName
    (∃ next : ShaderProgram ℝ,
      ((⟨lut, .inverse⟩ : Lut1DOp ℝ).emit program source :
        Except (OpError ℝ) (Code × ShaderProgram ℝ)) =
          .ok (CurveTexture.lookup ℝ language name pixel, next) ∧
      next.textures = program.textures ++ [⟨name, source, textureImage baked t⟩] ∧
      next.helpers = program.helpers ++ (t.helper (P := ℝ) language name).text language) ∧
    ∀ res : ShaderResources ℝ, t.Bound res name (textureImage baked t) → ∀ ch,
      (∀ i : ℕ, i ≤ 4095 → LooksUpInverse lut res name pixel ch (i / 4095)) ∧
      ((∀ v, v < 0 ∨ 1 < v → LooksUpInverse lut res name pixel ch v) ↔
        (lut.curve ch).sample 0 = (lut.curve ch).sample (lut.size - 1) ∨
          0 ≤ (lut.curve ch).sample 0 ∧ (lut.curve ch).sample (lut.size - 1) ≤ 1) := by
  intro baked t name language pixel
  refine ⟨emit_inverse lut hvalid program source hnew, ?_⟩
  intro res hbound ch
  obtain ⟨hsize, _, hrising⟩ := (validate_iff _).mp hvalid
  have hcurve := Lut1D.isNonDecreasing_iff.mp (hrising rfl) ch
  have hlookup := looksUpInverse_iff program.settings.two_le_maxWidth (by decide) hbound pixel ch
  have hlast : ((bakedSize - 1 : ℕ) : ℝ) = 4095 := by
    rw [show bakedSize - 1 = 4095 from rfl]
    norm_num
  have hexact : ∀ (v : ℝ) (i : ℕ), i ≤ 4095 → min (max v 0) 1 = i / 4095 →
      ((lut.inverseCurves bakedSize).curve ch).eval false v =
        (lut.curve ch).invert (min (max v 0) 1) := by
    intro v i hi hv
    exact lut.eval_inverseCurves (by decide) (Nat.lt_succ_of_le hi) (hlast ▸ hv) ch
  constructor
  · intro i hi
    have hpoint : min (max ((i : ℝ) / 4095) 0) 1 = i / 4095 := by
      have hle : (i : ℝ) ≤ 4095 := by exact_mod_cast hi
      rw [max_eq_left (by positivity), min_eq_left (by rw [div_le_one (by norm_num)]; exact hle)]
    rw [hlookup, hexact _ i hi hpoint, hpoint]
  · have houtside : ∀ v, v < 0 ∨ 1 < v → ((lut.inverseCurves bakedSize).curve ch).eval false v =
        (lut.curve ch).invert (min (max v 0) 1) := by
      rintro v (hv | hv)
      · refine hexact v 0 (Nat.zero_le _) ?_
        rw [Curve.limited_of_neg hv, Nat.cast_zero, zero_div]
      · refine hexact v 4095 le_rfl ?_
        rw [Curve.limited_of_one_lt hv]
        norm_num
    refine Iff.trans ?_ (Curve.invert_limited_iff hsize hcurve)
    refine forall_congr' fun v => imp_congr_right fun hv => ?_
    rw [hlookup, houtside v hv]

/-- Two samples, 0 and another one. -/
noncomputable def lineTo (top : ℝ) : Lut1D ℝ where
  samples := #[Rgb.gray 0, Rgb.gray top]

theorem sample_lineTo (top : ℝ) (ch : Channel) :
    ((lineTo top).curve ch).sample 0 = 0 ∧ ((lineTo top).curve ch).sample 1 = top :=
  ⟨Rgb.get_gray 0 ch, Rgb.get_gray top ch⟩

theorem nonDecreasing_lineTo {top : ℝ} (h : 0 ≤ top) (ch : Channel) :
    ((lineTo top).curve ch).NonDecreasing := by
  intro i hi
  change i + 1 < 2 at hi
  obtain rfl : i = 0 := by omega
  rw [(sample_lineTo top ch).1, (sample_lineTo top ch).2]
  exact h

theorem validate_lineTo {top : ℝ} (h : 0 ≤ top) :
    ((⟨lineTo top, .inverse⟩ : Lut1DOp ℝ).validate : Except (OpError ℝ) Unit) = .ok () :=
  validate_of_nonDecreasing (lineTo top) le_rfl (nonDecreasing_lineTo h) .inverse

/-- What the host binds for a table that stands in rows of three texels. -/
noncomputable def narrowResources (lut : Lut1D ℝ) : ShaderResources ℝ where
  texture _ := textureImage lut (curveTexture lut 3)
  curvePosition _ := Statement.call (curveTexture lut 3).positionStatements "f"

theorem bound_narrow (lut : Lut1D ℝ) (name : String) :
    (curveTexture lut narrowProgram.settings.maxWidth).Bound (narrowResources lut) name
      (textureImage lut (curveTexture lut narrowProgram.settings.maxWidth)) :=
  ⟨rfl, rfl⟩

/-- Samples up to a half: the texture limits 2 to 1, which the table finds at its end too. -/
theorem two_is_looked_up_in_a_line_to_a_half :
    ((⟨lineTo (1 / 2), .inverse⟩ : Lut1DOp ℝ).validate : Except (OpError ℝ) Unit) = .ok () ∧
      narrowProgram.findTexture? "curve" = none ∧
      LooksUpInverse (lineTo (1 / 2)) (narrowResources ((lineTo (1 / 2)).inverseCurves bakedSize))
        "ocio_lut1d_0" "outColor" .red 2 := by
  have hvalid := @validate_lineTo (1 / 2) (by norm_num)
  obtain ⟨_, hlookup⟩ := a_baked_texture_gives_what_the_inverse_gives_iff (lineTo (1 / 2)) hvalid
    narrowProgram "curve" rfl
  obtain ⟨_, houtside⟩ :=
    hlookup (narrowResources ((lineTo (1 / 2)).inverseCurves bakedSize)) (bound_narrow _ _) .red
  refine ⟨hvalid, rfl, houtside.mpr (.inr ?_) 2 (.inr one_lt_two)⟩
  obtain ⟨hfirst, hlast⟩ := sample_lineTo (1 / 2) .red
  exact ⟨le_of_eq hfirst.symm, hlast.le.trans (by norm_num)⟩

/-- Samples up to 2: the table finds 2 at its end, but the texture limits 2 to 1, which the
table finds in its middle. -/
theorem two_is_not_looked_up_in_a_line_to_two :
    ((⟨lineTo 2, .inverse⟩ : Lut1DOp ℝ).validate : Except (OpError ℝ) Unit) = .ok () ∧
      let baked := (lineTo 2).inverseCurves bakedSize
      let t := curveTexture baked narrowProgram.settings.maxWidth
      t.Bound (narrowResources baked) "ocio_lut1d_0" (textureImage baked t) ∧
      (Statement.run (narrowResources baked)
        (CurveTexture.lookupStatements "ocio_lut1d_0" "outColor") fun _ _ => 2).read
          ("outColor" ++ "." ++ Channel.red.letter) 0 = 1 / 2 ∧
      ((lineTo 2).applyInverse (Rgb.gray 2)).get .red = 1 := by
  obtain ⟨hfirst, hlast⟩ := sample_lineTo 2 .red
  have hsize : 2 ≤ ((lineTo 2).curve .red).size := le_rfl
  have hcurve := @nonDecreasing_lineTo 2 zero_le_two .red
  have hinvert : ∀ v : ℝ, 0 < v → v ≤ 2 → ((lineTo 2).curve .red).invert v = v / 2 := by
    intro v hlow hhigh
    have hone : (((lineTo 2).curve .red).size - 1 : ℕ) = 1 := rfl
    rw [Curve.invert_eq (k := 0) hsize hcurve (by decide) (hfirst.trans_lt hlow)
      (hhigh.trans_eq hlast.symm), hfirst, hlast, hone]
    norm_num
  refine ⟨validate_lineTo zero_le_two, bound_narrow _ _, ?_, ?_⟩
  · have hlimited : min (max (2 : ℝ) 0) 1 = (4095 : ℕ) / ((bakedSize - 1 : ℕ) : ℝ) := by
      rw [Curve.limited_of_one_lt one_lt_two, show bakedSize - 1 = 4095 from rfl,
        div_self (by norm_num)]
    rw [read_run_baked (by decide) (by decide) (bound_narrow _ _) "outColor" .red]
    change (((lineTo 2).inverseCurves bakedSize).curve .red).eval false 2 = _
    rw [Lut1D.eval_inverseCurves _ (by decide) (by decide) hlimited,
      Curve.limited_of_one_lt one_lt_two, hinvert 1 one_pos one_le_two]
  · have happly : ((lineTo 2).applyInverse (Rgb.gray 2)).get .red =
        ((lineTo 2).curve .red).invert 2 := rfl
    rw [happly, hinvert 2 two_pos le_rfl]
    norm_num

end Lut1DOp

end ColorPipeline
