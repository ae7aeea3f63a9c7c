-- Ranges that are fitted onto others, over the real numbers. A fit multiplies the colours by the
-- slope of a line, so its determinant is the cube of the slope. A range can be fitted as long as
-- it is not empty, but the way back is refused where that cube is small, which it is for every
-- range that is a few thousand times as wide as the one that it goes to.
import ColorPipeline.Pipeline.Transform
import ColorPipeline.Proofs.MatrixPairs
import ColorPipeline.Proofs.RangeFusion
import ColorPipeline.Proofs.Spi1dFiles

open scoped ColorPipeline.RealScalar

namespace ColorPipeline

/-! ## Fits -/

/-- The number that is the part `t` of the way from `lo` to `hi`. -/
noncomputable def onTheWay (lo hi t : ℝ) : ℝ := lo + t * (hi - lo)

/-- The line from one range to another is not too flat for the way back: the cube of its slope
is not below the least determinant of a matrix with an inverse. -/
def FitsBack (oldMin oldMax newMin newMax : ℝ) : Prop :=
  1 / ((10 : ℕ) : ℝ) ^ 10 ≤ |((newMax - newMin) / (oldMax - oldMin)) ^ 3|

namespace MatrixOp

variable {oldMin oldMax newMin newMax : ℝ} {m : MatrixOp ℝ}

section Line

open scoped ColorPipeline.Scalar

/-- The line with a slope and an offset on each colour channel. -/
def onColors {P : Type} [Scalar P] (slope offset : P) : MatrixOp P :=
  { scale ⟨slope, slope, slope, 1⟩ with offset := ⟨offset, offset, offset, 0⟩ }

end Line

theorem onPixel_onColors (slope offset : ℝ) (c : Rgb ℝ) (alpha : ℝ) :
    (onColors slope offset).onPixel (.ofRgb c alpha) =
      .ofRgb (c.map fun v => slope * v + offset) alpha := by
  simp [onColors, onPixel, scale, Matrix4.diagonal, Matrix4.mulVec, Matrix4.dot_eq, Rgba.map,
    Rgba.zipWith, Rgba.ofRgb, Rgb.map]

/-- A line on the colours has the third power of its slope as its determinant. -/
theorem determinant_onColors (slope offset : ℝ) :
    (onColors slope offset).matrix.determinant = slope ^ 3 := by
  simp only [onColors, scale, Matrix4.diagonal, Matrix4.determinant, Rgba.map,
    RealScalar.numeral_zero, RealScalar.numeral_one]
  ring

theorem determinant_translate (offset : Rgba ℝ) :
    (translate offset).matrix.determinant = 1 := by
  simp [translate, Matrix4.identity, Matrix4.diagonal, Matrix4.determinant, Rgba.map]

/-- A fit needs a source interval of some length. -/
theorem fit_eq_ok_iff : fit oldMin oldMax newMin newMax = .ok m ↔
    1 / 2 ^ 52 ≤ |oldMax - oldMin| ∧
      m = onColors ((newMax - newMin) / (oldMax - oldMin))
        (newMin - (newMax - newMin) / (oldMax - oldMin) * oldMin) := by
  have hfit : fit oldMin oldMax newMin newMax =
      if |oldMax - oldMin| < ((1 : ℕ) : ℝ) / ((Nat.pow 2 52 : ℕ) : ℝ) then
        .error (.invalid .matrix (.fitOfEmptyRange oldMin oldMax))
      else .ok (onColors ((newMax - newMin) / (oldMax - oldMin))
        (newMin - (newMax - newMin) / (oldMax - oldMin) * oldMin)) := rfl
  have hstep : ((1 : ℕ) : ℝ) / ((Nat.pow 2 52 : ℕ) : ℝ) = 1 / 2 ^ 52 := by norm_num
  rw [hfit, hstep, Except.ite_eq_ok_iff, not_lt]

theorem exists_fit (hspan : 1 / 2 ^ 52 ≤ |oldMax - oldMin|) (newMin newMax : ℝ) :
    ∃ line, fit oldMin oldMax newMin newMax = .ok line :=
  ⟨_, fit_eq_ok_iff.mpr ⟨hspan, rfl⟩⟩

theorem exists_inverse_iff :
    (∃ undoing, (OpData.matrix m : OpData ℝ ℝ).inverse = .ok undoing) ↔
      1 / 10 ^ 10 ≤ |m.matrix.determinant| := by
  constructor
  · rintro ⟨undoing, h⟩
    obtain ⟨inv, hinv, _⟩ := Except.map_eq_ok_iff.mp h
    exact ((inverse_eq_ok_iff m inv).mp hinv).1
  · intro h
    have hinv := (inverse_eq_ok_iff m _).mpr ⟨h, rfl⟩
    exact ⟨_, congrArg (Except.map OpData.matrix) hinv⟩

/-- A fit has an inverse where the third power of its slope is not within the tolerance. -/
theorem exists_inverse_of_fit (h : fit oldMin oldMax newMin newMax = .ok m) :
    (∃ undoing, (OpData.matrix m : OpData ℝ ℝ).inverse = .ok undoing) ↔
      FitsBack oldMin oldMax newMin newMax := by
  obtain ⟨_, rfl⟩ := fit_eq_ok_iff.mp h
  rw [exists_inverse_iff, determinant_onColors, FitsBack, Nat.cast_ofNat]

theorem exists_inverse_translate (offset : Rgba ℝ) :
    ∃ undoing, (OpData.matrix (translate offset) : OpData ℝ ℝ).inverse = .ok undoing := by
  rw [exists_inverse_iff, determinant_translate]
  norm_num

/-- A fit takes each part of the way through the old range to that part of the new one. -/
theorem onPixel_fit (h : fit oldMin oldMax newMin newMax = .ok m) (t : Rgb ℝ) (alpha : ℝ) :
    m.onPixel (.ofRgb (t.map (onTheWay oldMin oldMax)) alpha) =
      .ofRgb (t.map (onTheWay newMin newMax)) alpha := by
  obtain ⟨hspan, rfl⟩ := fit_eq_ok_iff.mp h
  have hne : oldMax - oldMin ≠ 0 := by
    intro hzero
    rw [hzero, abs_zero] at hspan
    norm_num at hspan
  have hline : ∀ u : ℝ, (newMax - newMin) / (oldMax - oldMin) * onTheWay oldMin oldMax u +
      (newMin - (newMax - newMin) / (oldMax - oldMin) * oldMin) = onTheWay newMin newMax u := by
    intro u
    unfold onTheWay
    field_simp
    ring
  rw [onPixel_onColors]
  simp only [Rgb.map, hline]

end MatrixOp

/-! ## Steps -/

theorem Attempt.traverse_done_iff {P α β : Type} (f : α → Except (OpError P) β) (items : List α) :
    (traverse f items).fault = none ↔ ∀ a ∈ items, ∃ b, f a = .ok b := by
  induction items with
  | nil => simp [traverse]
  | cons a items ih =>
    rw [List.forall_mem_cons, ← ih]
    cases hf : f a with
    | error e => simp [traverse, hf]
    | ok b => simp [traverse, hf]

theorem RangeOp.withoutLimits_between {minIn maxIn minOut maxOut : ℝ} (hin : minIn < maxIn)
    (hout : minOut < maxOut) :
    (⟨some minIn, some maxIn, some minOut, some maxOut⟩ : RangeOp ℝ).withoutLimits =
      (MatrixOp.fit minIn maxIn minOut maxOut).map some := by
  unfold withoutLimits
  rw [(validate_iff_shape _).mpr (.between hin hout)]
  rfl

/-- Without its limits a range is nothing, a move or a fit. -/
theorem RangeOp.withoutLimits_eq_ok {r : RangeOp ℝ} {m : Option (MatrixOp ℝ)}
    (h : r.withoutLimits = .ok m) :
    m = none ∧ r.minIn = none ∨
      (∃ offset, m = some (MatrixOp.translate offset) ∧ (r.minIn = none ∨ r.maxIn = none)) ∨
      ∃ minIn maxIn minOut maxOut line,
        r = ⟨some minIn, some maxIn, some minOut, some maxOut⟩ ∧
          MatrixOp.fit minIn maxIn minOut maxOut = .ok line ∧
          m = some line := by
  have hvalid : r.validate = .ok () := by
    cases hv : r.validate with
    | error e => unfold withoutLimits at h; rw [hv] at h; cases h
    | ok _ => rfl
  unfold withoutLimits at h
  rw [hvalid] at h
  cases (validate_iff_shape r).mp hvalid with
  | unbounded =>
    cases h
    exact .inl ⟨rfl, rfl⟩
  | fromBelow minIn minOut =>
    cases h
    exact .inr (.inl ⟨_, rfl, .inr rfl⟩)
  | fromAbove maxIn maxOut =>
    cases h
    exact .inr (.inl ⟨_, rfl, .inl rfl⟩)
  | @between minIn maxIn minOut maxOut hin hout =>
    change (MatrixOp.fit minIn maxIn minOut maxOut).map some = .ok m at h
    obtain ⟨line, hline, rfl⟩ := Except.map_eq_ok_iff.mp h
    exact .inr (.inr ⟨minIn, maxIn, minOut, maxOut, line, rfl, hline, rfl⟩)

/-- The inputs of a .spi1d table are fitted onto those from 0 to 1 before it is looked up. -/
theorem lutFileOps_eq_ok_iff {path : String} {interpolation : Option Interpolation}
    {bytes : ByteArray} {ops : List (OpData ℝ ℝ)}
    (hformat : LutFormat.ofPath? path = some .spi1d) :
    lutFileOps path interpolation bytes = .ok ops ↔
      ∃ (spi : Spi1d ℝ) (line : MatrixOp ℝ),
        Spi1d.load path (Text.lines bytes) = .ok spi ∧
          MatrixOp.fit spi.fromMin spi.fromMax 0 1 = .ok line ∧
          ops = [.matrix line, .lut1D ⟨{ spi.lut with
            interpolation := interpolation.getD spi.lut.interpolation }, .forward⟩] := by
  unfold lutFileOps
  rw [hformat]
  cases hspi : (Spi1d.load path (Text.lines bytes) : Except LutError (Spi1d ℝ)) with
  | error e =>
    refine iff_of_false nofun ?_
    rintro ⟨_, _, ⟨⟩, _⟩
  | ok spi =>
    rw [RealScalar.numeral_zero, RealScalar.numeral_one]
    change (MatrixOp.fit spi.fromMin spi.fromMax 0 1 >>= fun line => Except.ok _) = _ ↔ _
    cases hfit : MatrixOp.fit spi.fromMin spi.fromMax 0 1 with
    | error e =>
      refine iff_of_false nofun ?_
      rintro ⟨_, _, ⟨⟩, hline, _⟩
      rw [hfit] at hline
      cases hline
    | ok line =>
      constructor
      · rintro ⟨⟩
        exact ⟨spi, line, rfl, hfit, rfl⟩
      · rintro ⟨_, _, ⟨⟩, hline, rfl⟩
        rw [hfit] at hline
        cases hline
        rfl

namespace TransformStep

variable {files : String → Option ByteArray} {s : TransformStep ℝ ℝ}

theorem build_forward_done_iff :
    (s.build files .forward).fault = none ↔ ∃ ops, s.ops files = .ok ops := by
  unfold build
  cases s.ops files with
  | error e => simp
  | ok ops => simp

/-- A step is built backwards where all of its ops have inverses. -/
theorem build_inverse_done_iff {ops : List (OpData ℝ ℝ)} (h : s.ops files = .ok ops) :
    (s.build files .inverse).fault = none ↔ ∀ op ∈ ops, ∃ undoing, op.inverse = .ok undoing := by
  unfold build
  rw [h]
  change (Attempt.traverse OpData.inverse ops.reverse).fault = none ↔ _
  rw [Attempt.traverse_done_iff]
  simp only [List.mem_reverse]

theorem range_builds (files : String → Option ByteArray) {minIn maxIn minOut maxOut : ℝ}
    (hin : minIn < maxIn) (hout : minOut < maxOut) (hspan : 1 / 2 ^ 52 ≤ |maxIn - minIn|) :
    ((range ⟨some minIn, some maxIn, some minOut, some maxOut⟩ false : TransformStep ℝ ℝ).build
      files .forward).fault = none := by
  obtain ⟨line, hline⟩ := MatrixOp.exists_fit hspan minOut maxOut
  rw [build_forward_done_iff]
  change ∃ ops, (RangeOp.withoutLimits _).map _ = .ok ops
  rw [RangeOp.withoutLimits_between hin hout, hline]
  exact ⟨_, rfl⟩

/-- A range without its limits that builds has a way back unless it is fitted too flat. One with
bounds on one side is only moved. -/
theorem range_builds_back_iff {r : RangeOp ℝ}
    (h : ((range r false : TransformStep ℝ ℝ).build files .forward).fault = none) :
    ((range r false : TransformStep ℝ ℝ).build files .inverse).fault = none ↔
      ∀ minIn ∈ r.minIn, ∀ maxIn ∈ r.maxIn, ∀ minOut ∈ r.minOut, ∀ maxOut ∈ r.maxOut,
        FitsBack minIn maxIn minOut maxOut := by
  obtain ⟨ops, hops⟩ := build_forward_done_iff.mp h
  rw [build_inverse_done_iff hops]
  obtain ⟨m, hm, rfl⟩ : ∃ m, r.withoutLimits = .ok m ∧ ops = m.toList.map OpData.matrix :=
    Except.map_eq_ok_iff.mp hops
  obtain ⟨rfl, hopen⟩ | ⟨offset, rfl, hopen⟩ | ⟨_, _, _, _, line, rfl, hfit, rfl⟩ :=
    RangeOp.withoutLimits_eq_ok hm
  · refine iff_of_true nofun ?_
    intro lo hlo
    exact absurd (hopen.symm.trans hlo) nofun
  · refine iff_of_true ?_ ?_
    · rintro _ (_ | ⟨_, ⟨⟩⟩)
      exact MatrixOp.exists_inverse_translate offset
    · intro lo hlo hi hhi
      obtain hopen | hopen := hopen
      · exact absurd (hopen.symm.trans hlo) nofun
      · exact absurd (hopen.symm.trans hhi) nofun
  · simp only [Option.toList_some, List.map_cons, List.map_nil, List.forall_mem_singleton,
      MatrixOp.exists_inverse_of_fit hfit, Option.mem_some, forall_eq']

theorem file_builds_back_iff {path : String} {interpolation : Option Interpolation}
    {bytes : ByteArray} (hformat : LutFormat.ofPath? path = some .spi1d)
    (hfile : files path = some bytes)
    (h : ((file path interpolation : TransformStep ℝ ℝ).build files .forward).fault = none) :
    ∃ spi : Spi1d ℝ, Spi1d.parse path (Text.lines bytes) = .ok spi ∧
      (((file path interpolation : TransformStep ℝ ℝ).build files .inverse).fault = none ↔
        FitsBack spi.fromMin spi.fromMax 0 1) := by
  obtain ⟨ops, hops⟩ := build_forward_done_iff.mp h
  rw [build_inverse_done_iff hops]
  unfold TransformStep.ops at hops
  simp only [hfile] at hops
  obtain ⟨spi, line, hspi, hfit, rfl⟩ := (lutFileOps_eq_ok_iff hformat).mp hops
  refine ⟨spi, (Spi1d.load_eq_ok_iff.mp hspi).1, ?_⟩
  rw [List.forall_mem_cons, List.forall_mem_singleton, MatrixOp.exists_inverse_of_fit hfit]
  exact and_iff_left ⟨_, rfl⟩

end TransformStep

theorem Spi1d.exists_load_ramp (file : String) :
    ∃ spi : Spi1d ℝ, load file (Text.lines ramp.toUTF8) = .ok spi ∧
      spi.fromMin = 0 ∧ spi.fromMax = 1 := by
  have hheader : LegibleHeader ℝ ["Version 1", "Length 2", "Components 1"] :=
    ⟨by decide, by intro t; cases t <;> decide⟩
  have hnumbers : ∀ line ∈ ["0", "1"], HoldsNumbers ℝ 1 line := by
    intro line hline
    exact ⟨by revert line; decide, by revert line; decide⟩
  have hroom : 2 ≤ room := by decide
  rw [Text.lines_toUTF8, linesOf_ramp]
  refine ⟨_, load_eq_ok_iff.mpr ⟨(parse_eq_ok_iff file _).mpr ⟨hheader, 1, 2, by decide, .inl rfl,
    by decide, le_rfl, by decide, hnumbers, rfl⟩, hroom⟩, ?_, ?_⟩
  · exact RealScalar.numeral_zero
  · exact RealScalar.numeral_one

/-! ## The way back -/

/-- A fit has an inverse that takes the new range back to the old one and leaves alpha, exactly
where its line is not too flat. So a range without its limits, or a .spi1d file, that builds
forward builds in the other direction too, exactly where that holds of its fit. -/
theorem fits_go_back_unless_they_are_too_flat (files : String → Option ByteArray) :
    (∀ (oldMin oldMax newMin newMax : ℝ) (line : MatrixOp ℝ),
      MatrixOp.fit oldMin oldMax newMin newMax = .ok line →
        ((∃ undoing, (OpData.matrix line : OpData ℝ ℝ).inverse = .ok undoing ∧
          ∀ (t : Rgb ℝ) (alpha : ℝ),
            OpData.rendered [undoing] (.ofRgb (t.map (onTheWay newMin newMax)) alpha) =
              .ok (.ofRgb (t.map (onTheWay oldMin oldMax)) alpha)) ↔
          FitsBack oldMin oldMax newMin newMax)) ∧
      (∀ r : RangeOp ℝ, let step : TransformStep ℝ ℝ := .range r false
        (step.build files .forward).fault = none →
          ((step.build files .inverse).fault = none ↔
            ∀ minIn ∈ r.minIn, ∀ maxIn ∈ r.maxIn, ∀ minOut ∈ r.minOut, ∀ maxOut ∈ r.maxOut,
              FitsBack minIn maxIn minOut maxOut)) ∧
      ∀ path interpolation bytes, let step : TransformStep ℝ ℝ := .file path interpolation
        LutFormat.ofPath? path = some .spi1d → files path = some bytes →
          (step.build files .forward).fault = none →
            ∃ spi : Spi1d ℝ, Spi1d.parse path (Text.lines bytes) = .ok spi ∧
              ((step.build files .inverse).fault = none ↔
                FitsBack spi.fromMin spi.fromMax 0 1) := by
  refine ⟨?_, ?_, ?_⟩
  · intro oldMin oldMax newMin newMax line hfit
    rw [← MatrixOp.exists_inverse_of_fit hfit]
    constructor
    · rintro ⟨undoing, hundoing, _⟩
      exact ⟨undoing, hundoing⟩
    · rintro ⟨undoing, hundoing⟩
      refine ⟨undoing, hundoing, ?_⟩
      intro t alpha
      obtain ⟨inv, hinv, rfl⟩ := Except.map_eq_ok_iff.mp hundoing
      rw [← MatrixOp.onPixel_fit hfit, OpData.rendered_matrix, ← MatrixOp.onPixel_followedBy,
        MatrixOp.followedBy_inverse hinv, MatrixOp.onPixel_identity]
      rfl
  · intro r step h
    exact TransformStep.range_builds_back_iff h
  · intro path interpolation bytes step hformat hfile h
    exact TransformStep.file_builds_back_iff hformat hfile h

/-- Ten-bit code values go to the range from 0 to 1 and back, and so does a ramp in a file. -/
theorem ten_bit_values_go_back :
    let files : String → Option ByteArray := fun _ => some Spi1d.ramp.toUTF8
    let ten : TransformStep ℝ ℝ := .range ⟨some 0, some 1023, some 0, some 1⟩ false
    let ramp : TransformStep ℝ ℝ := .file "ramp.spi1d" none
    (∃ line undoing, (MatrixOp.fit 0 1023 0 1 : Except (OpError ℝ) _) = .ok line ∧
      (OpData.matrix line : OpData ℝ ℝ).inverse = .ok undoing ∧
        ∀ (t : Rgb ℝ) (alpha : ℝ),
          OpData.rendered [undoing] (.ofRgb (t.map (onTheWay 0 1)) alpha) =
            .ok (.ofRgb (t.map (onTheWay 0 1023)) alpha)) ∧
      (ten.build files .forward).fault = none ∧ (ten.build files .inverse).fault = none ∧
      (ramp.build files .forward).fault = none ∧ (ramp.build files .inverse).fault = none := by
  intro files ten ramp
  obtain ⟨hfits, hranges, hfiles⟩ := fits_go_back_unless_they_are_too_flat files
  have hten : (1 : ℝ) / 2 ^ 52 ≤ |1023 - 0| := by norm_num
  have hback : FitsBack 0 1023 0 1 := by unfold FitsBack; norm_num
  obtain ⟨line, hline⟩ := MatrixOp.exists_fit hten 0 1
  obtain ⟨undoing, hundoing, hcolors⟩ := (hfits 0 1023 0 1 _ hline).mpr hback
  have hforward : (ten.build files .forward).fault = none :=
    TransformStep.range_builds files (by norm_num) (by norm_num) hten
  have hinverse := (hranges _ hforward).mpr (by rintro _ ⟨⟩ _ ⟨⟩ _ ⟨⟩ _ ⟨⟩; exact hback)
  obtain ⟨spi, hspi, hmin, hmax⟩ := Spi1d.exists_load_ramp "ramp.spi1d"
  have hunit : FitsBack spi.fromMin spi.fromMax 0 1 := by
    rw [hmin, hmax]
    unfold FitsBack
    norm_num
  have hread : (ramp.build files .forward).fault = none := by
    have hspan : (1 : ℝ) / 2 ^ 52 ≤ |spi.fromMax - spi.fromMin| := by
      rw [hmin, hmax]
      norm_num
    obtain ⟨fit, hfit⟩ := MatrixOp.exists_fit hspan 0 1
    rw [TransformStep.build_forward_done_iff]
    exact ⟨_, (lutFileOps_eq_ok_iff (by decide)).mpr ⟨spi, fit, hspi, hfit, rfl⟩⟩
  have hwritten : (ramp.build files .inverse).fault = none := by
    obtain ⟨_, hspi', hiff⟩ := hfiles "ramp.spi1d" none _ (by decide) rfl hread
    cases (Spi1d.load_eq_ok_iff.mp hspi).1.symm.trans hspi'
    exact hiff.mpr hunit
  exact ⟨⟨line, undoing, hline, hundoing, hcolors⟩, hforward, hinverse, hread, hwritten⟩

/-- The range from 0 to 4096 goes to the one from 0 to 1, but not back. -/
theorem wide_ranges_do_not_go_back :
    let wide : TransformStep ℝ ℝ := .range ⟨some 0, some 4096, some 0, some 1⟩ false
    (∃ line, (MatrixOp.fit 0 4096 0 1 : Except (OpError ℝ) _) = .ok line ∧
      ¬ ∃ undoing, (OpData.matrix line : OpData ℝ ℝ).inverse = .ok undoing) ∧
      ∀ files, (wide.build files .forward).fault = none ∧
        (wide.build files .inverse).fault ≠ none := by
  intro wide
  have hspan : (1 : ℝ) / 2 ^ 52 ≤ |4096 - 0| := by norm_num
  have hflat : ¬ FitsBack 0 4096 0 1 := by unfold FitsBack; norm_num
  refine ⟨?_, ?_⟩
  · obtain ⟨line, hline⟩ := MatrixOp.exists_fit hspan 0 1
    exact ⟨line, hline, mt (MatrixOp.exists_inverse_of_fit hline).mp hflat⟩
  · intro files
    have hforward : (wide.build files .forward).fault = none :=
      TransformStep.range_builds files (by norm_num) (by norm_num) hspan
    refine ⟨hforward, mt (TransformStep.range_builds_back_iff hforward).mp ?_⟩
    intro hback
    exact hflat (hback 0 rfl 4096 rfl 0 rfl 1 rfl)

end ColorPipeline
