-- Alpha. Matrices and exponents work on all four channels, the renderers of other ops on colours
-- alone. So where a pipeline has neither of the two, alpha goes through as it is, and colours do
-- not depend on it. The optimizer brings in neither of them: it could write two ranges as a matrix
-- only where both have no bounds, and of those nothing is left.
import ColorPipeline.Proofs.Emission
import ColorPipeline.Proofs.PixelRuns
import ColorPipeline.Proofs.Rendering

open scoped ColorPipeline.Scalar

namespace ColorPipeline

variable {P S : Type}

/-! ## Maps of pixels -/

namespace Rgba

/-- The map keeps alpha, and makes colours of colours alone. -/
structure ColorOnly (f : Rgba S → Rgba S) : Prop where
  alpha : ∀ px, (f px).alpha = px.alpha
  rgb : ∀ px qx, px.rgb = qx.rgb → (f px).rgb = (f qx).rgb

theorem colorOnly_id : ColorOnly (id : Rgba S → Rgba S) := ⟨fun _ => rfl, fun _ _ h => h⟩

theorem colorOnly_mapRgb (f : Rgb S → Rgb S) : ColorOnly (mapRgb f) where
  alpha _ := rfl
  rgb _ _ h := congrArg f h

variable {f g : Rgba S → Rgba S}

theorem ColorOnly.comp (hg : ColorOnly g) (hf : ColorOnly f) : ColorOnly (g ∘ f) where
  alpha px := (hg.alpha (f px)).trans (hf.alpha px)
  rgb px qx h := hg.rgb (f px) (f qx) (hf.rgb px qx h)

/-- The colour can be changed under any alpha, as long as its own is put back. -/
theorem ColorOnly.eq_ofRgb (hf : ColorOnly f) (px : Rgba S) (alpha : S) :
    f px = ofRgb (f (ofRgb px.rgb alpha)).rgb px.alpha := by
  have hrgb : (f px).rgb = (f (ofRgb px.rgb alpha)).rgb := hf.rgb _ _ rfl
  rw [← hrgb, ← hf.alpha px]
  rfl

end Rgba

/-! ## Renderers -/

/-- Ops of the kind work on colours alone. -/
def OpKind.LeavesAlpha (k : OpKind) : Prop := k ≠ .matrix ∧ k ≠ .exponent

section Rendering

variable [Scalar P] [Scalar S] [Precision P S]

/-- All kinds but matrices and exponents are rendered by such maps. -/
theorem Renderer.colorOnly_of_ofData {d : OpData P S} {r : Renderer S} (h : ofData d = .ok r)
    (hd : d.kind.LeavesAlpha) : Rgba.ColorOnly r.apply := by
  cases d with
  | matrix m => exact absurd rfl hd.1
  | exponent e => exact absurd rfl hd.2
  | range a =>
    cases h
    exact Rgba.colorOnly_mapRgb _
  | log l =>
    obtain ⟨base, _ | _⟩ := l <;>
    · cases h
      exact Rgba.colorOnly_mapRgb _
  | lut1D l =>
    obtain ⟨_, -, rfl⟩ := Except.map_eq_ok_iff.mp h
    cases hdirection : l.direction <;> exact Rgba.colorOnly_mapRgb _
  | lut3D l =>
    obtain ⟨_, -, rfl⟩ := Except.map_eq_ok_iff.mp h
    exact Rgba.colorOnly_mapRgb _
  | fixedFunction a =>
    cases h
    exact Rgba.colorOnly_mapRgb _

theorem Renderer.colorOnly_of_ofOp {op : Op P S} {r : Renderer S} (h : ofOp op = .ok r)
    (hop : op.kind.LeavesAlpha) : Rgba.ColorOnly r.apply := by
  obtain ⟨_, _, hdata⟩ := exists_of_bind_eq_ok h
  exact colorOnly_of_ofData hdata hop

namespace PixelProcessor

/-- Ops that are finalized and well-formed can be run between any known depths, by a renderer of
each. -/
theorem exists_ofProcessor {p : Processor P S} {input output : BitDepth}
    (hops : ∀ op ∈ p.ops, op.isFinalized ∧ op.data.validate = .ok ())
    (hinput : input ≠ .unknown) (houtput : output ≠ .unknown) :
    ∃ c, ofProcessor p input output = .ok c ∧
      ∀ r ∈ c.renderers, ∃ op ∈ p.ops, Renderer.ofOp op = .ok r := by
  obtain ⟨renderers, hrenderers⟩ := exists_mapM_eq_ok fun op hop =>
    Renderer.exists_ofOp_eq_ok (hops op hop).1 (hops op hop).2
  refine ⟨⟨renderers, input, output⟩, ?_, fun r hr => exists_of_mem_mapM hrenderers hr⟩
  unfold ofProcessor make
  rw [hrenderers]
  exact if_neg (not_or.mpr ⟨hinput, houtput⟩)

variable (c : PixelProcessor S)

theorem colorOnly_runPixel (h : ∀ r ∈ c.renderers, Rgba.ColorOnly r.apply) :
    Rgba.ColorOnly c.runPixel := by
  have hrun : ∀ (renderers : List (Renderer S)), (∀ r ∈ renderers, Rgba.ColorOnly r.apply) →
      Rgba.ColorOnly fun px => renderers.foldl (fun q r => r.apply q) px := by
    intro renderers
    induction renderers with
    | nil => exact fun _ => Rgba.colorOnly_id
    | cons r renderers ih =>
      intro h
      rw [List.forall_mem_cons] at h
      exact (ih h.2).comp h.1
  exact hrun c.renderers h

/-- Pixels with alpha become what their colours become without it, each with its own alpha. -/
theorem applyRgba_eq_zipWith (h : Rgba.ColorOnly c.runPixel) (pixels : List (Rgba S)) :
    c.applyRgba pixels =
      List.zipWith .ofRgb (c.applyRgb (pixels.map Rgba.rgb)) (pixels.map Rgba.alpha) := by
  rw [applyRgba_eq_map, applyRgb_eq_map, List.map_map, List.zipWith_map, List.zipWith_self]
  refine List.map_congr_left ?_
  intro px _
  exact h.eq_ofRgb px 1

end PixelProcessor

end Rendering

/-! ## Ranges that could become a matrix -/

section Ranges

variable [Scalar P]

/-- A range is written as a matrix only where it has no limits. -/
theorem ClampedAffine.open_of_toFused {a : ClampedAffine P} {m : MatrixOp P}
    (h : a.toFused = .matrix m) : a.lower = none ∧ a.upper = none := by
  unfold toFused at h
  extract_lets unitScale at h
  split at h
  · split at h <;> cases h
  · split at h <;> cases h
  · split at h <;> cases h
  · rename_i hlower hupper
    exact ⟨hlower, hupper⟩

namespace RangeOp

/-- A well-formed range without limits has no bounds. -/
theorem Valid.eq_of_open {r : RangeOp P} (h : r.Valid) (hlower : r.affine.lower = none)
    (hupper : r.affine.upper = none) : r = {} := by
  obtain ⟨minIn, maxIn, minOut, maxOut⟩ := r
  -- A pair of bounds that is set gives a limit on its side.
  obtain ⟨rfl, rfl⟩ | ⟨_, _, rfl, rfl⟩ := both_none_or_some h.minimum
  · obtain ⟨rfl, rfl⟩ | ⟨_, _, rfl, rfl⟩ := both_none_or_some h.maximum
    · rfl
    · cases hupper
  · obtain ⟨rfl, rfl⟩ | ⟨_, _, rfl, rfl⟩ := both_none_or_some h.maximum
    · cases hlower
    · cases hlower

theorem eq_of_fuse_eq_matrix {r next : RangeOp P} (hr : r.Valid) (hnext : next.Valid)
    {m : MatrixOp P} (h : r.fuse next = .matrix m) : r = {} ∧ next = {} := by
  obtain ⟨hlower, hupper⟩ := ClampedAffine.open_of_toFused h
  obtain ⟨hlower, hlower'⟩ := ClampedAffine.tighter_eq_none.mp hlower
  obtain ⟨hupper, hupper'⟩ := ClampedAffine.tighter_eq_none.mp hupper
  exact ⟨hr.eq_of_open (Option.map_eq_none_iff.mp hlower) (Option.map_eq_none_iff.mp hupper),
    hnext.eq_of_open hlower' hupper'⟩

end RangeOp

end Ranges

/-! ## The optimizer -/

section Machine

/-- The scale of two ranges without bounds comes out as 1 and the offset as 0, so nothing is left
of them. -/
theorem RangeOp.fuse_unbounded : (fuse {} {} : FusedRange Float) = .nothing := rfl

/-- No two ranges of machine numbers fuse into a matrix. -/
theorem RangeOp.fuse_ne_matrix {r next : RangeOp Float} (h : r.canFuse next) (m : MatrixOp Float) :
    r.fuse next ≠ .matrix m := by
  unfold canFuse at h
  rw [Bool.and_eq_true, Bool.and_eq_true] at h
  have hr := (validate_iff r).mp (eq_ok_of_isOk h.1.1)
  have hnext := (validate_iff next).mp (eq_ok_of_isOk h.1.2)
  intro hm
  obtain ⟨rfl, rfl⟩ := eq_of_fuse_eq_matrix hr hnext hm
  rw [fuse_unbounded] at hm
  cases hm

variable [Scalar S]

theorem OpData.leavesAlpha_of_mem_fuse {a b d : OpData Float S} {ds : List (OpData Float S)}
    (ha : a.kind.LeavesAlpha) (hfuses : a.canFuse b) (h : a.fuse b = .ok ds) (hd : d ∈ ds) :
    d.kind.LeavesAlpha := by
  unfold OpData.fuse at h
  split at h
  · exact absurd rfl ha.1
  · -- Ranges can be written in four ways, and one of them would be a matrix.
    split at h
    · cases h
      cases hd
    · cases h
      rw [List.mem_singleton.mp hd]
      exact ⟨nofun, nofun⟩
    · rename_i m hm
      exact absurd hm (RangeOp.fuse_ne_matrix hfuses m)
    · cases h
  · exact absurd rfl ha.2
  · obtain ⟨_, -, rfl⟩ := Except.map_eq_ok_iff.mp h
    rw [List.mem_singleton.mp hd]
    exact ⟨nofun, nofun⟩
  · split at h <;> cases h

namespace Pipeline

variable [Precision Float S] {flags : OptimizationFlags}

/-- No edit makes a matrix or an exponent of other kinds. -/
theorem Edit.leavesAlpha {old new : Pipeline Float S} (h : Edit flags old new)
    (hold : ∀ op ∈ old, op.kind.LeavesAlpha) : ∀ op ∈ new, op.kind.LeavesAlpha := by
  intro op hop
  cases h with
  | identity _ _ hout =>
    obtain ⟨_, _, rfl⟩ := Replacement.mem_ops hout hop
    exact ⟨nofun, nofun⟩
  | inverse _ _ hout =>
    obtain ⟨_, _, rfl⟩ := Replacement.mem_ops hout hop
    exact ⟨nofun, nofun⟩
  | @fusion a b _ _ hfuses _ hout _ =>
    obtain ⟨ds, hds, rfl⟩ := Op.fuse_eq_ok hout
    obtain ⟨d, hd, rfl⟩ := List.mem_map.mp hop
    exact OpData.leavesAlpha_of_mem_fuse (hold a List.mem_cons_self) hfuses hds hd

theorem Steps.leavesAlpha {xs ys : Pipeline Float S} (h : Steps flags xs ys)
    (hxs : ∀ op ∈ xs, op.kind.LeavesAlpha) : ∀ op ∈ ys, op.kind.LeavesAlpha :=
  h.forall_mem (fun _ _ he hold => he.leavesAlpha hold) hxs

end Pipeline

namespace Processor

/-- A processor of such kinds holds only such kinds. -/
theorem leavesAlpha_of_ofOps [Precision Float S] {ops : Pipeline Float S}
    {flags : OptimizationFlags} {p : Processor Float S} (hops : ∀ op ∈ ops, op.Reachable)
    (hkinds : ∀ op ∈ ops, op.kind.LeavesAlpha) (hp : ofOps ops flags = .ok p) :
    ∀ op ∈ p.ops, op.kind.LeavesAlpha := by
  obtain ⟨-, -, hleft⟩ := ops_eq_of_ofOps hops hp
  have hchecked : ∀ op ∈ ops.map Op.withId, op.kind.LeavesAlpha :=
    List.forall_mem_map.mpr hkinds
  rw [hleft]
  exact List.forall_mem_map.mpr ((Pipeline.optimize_steps flags _).leavesAlpha hchecked)

/-- Ops that are neither matrices nor exponents never become one, with any simplifications, also
where an error stops the optimizer. A processor that is made of them has neither, and can be run
between any known depths: each of its renderers, and all of them one after the other, keep alpha
and make colours of colours alone. So pixels with alpha become what their colours become without
it, each with its own alpha. -/
theorem only_matrices_and_exponents_touch_alpha (flags : OptimizationFlags)
    (ops : Pipeline Float Float32) (hops : ∀ op ∈ ops, op.Reachable)
    (hkinds : ∀ op ∈ ops, op.kind ≠ .matrix ∧ op.kind ≠ .exponent) :
    (∀ op ∈ (Pipeline.optimize flags ops).reached, op.kind ≠ .matrix ∧ op.kind ≠ .exponent) ∧
      ∀ p, ofOps ops flags = .ok p →
        (∀ op ∈ p.ops, op.kind ≠ .matrix ∧ op.kind ≠ .exponent) ∧
        ∀ input output, input ≠ .unknown → output ≠ .unknown →
          ∃ c, PixelProcessor.ofProcessor p input output = .ok c ∧
            (∀ r ∈ c.renderers, Rgba.ColorOnly r.apply) ∧ Rgba.ColorOnly c.runPixel ∧
            ∀ pixels, c.applyRgba pixels =
              List.zipWith .ofRgb (c.applyRgb (pixels.map Rgba.rgb)) (pixels.map Rgba.alpha) := by
  refine ⟨(Pipeline.optimize_steps flags ops).leavesAlpha hkinds, ?_⟩
  intro p hp
  have hmade : p.Made := ⟨ops, flags, hops, hp⟩
  have hleft := leavesAlpha_of_ofOps hops hkinds hp
  refine ⟨hleft, ?_⟩
  intro input output hinput houtput
  obtain ⟨c, hc, hrenderers⟩ := PixelProcessor.exists_ofProcessor
    (fun op hop => ⟨(hmade.ops op hop).2, hmade.valid op hop⟩) hinput houtput
  have hcolors : ∀ r ∈ c.renderers, Rgba.ColorOnly r.apply := by
    intro r hr
    obtain ⟨op, hop, hrender⟩ := hrenderers r hr
    exact Renderer.colorOnly_of_ofOp hrender (hleft op hop)
  have hrun := c.colorOnly_runPixel hcolors
  exact ⟨c, hc, hcolors, hrun, c.applyRgba_eq_zipWith hrun⟩

/-- Two ranges without bounds and a logarithm. -/
def openRangesAndLog : Pipeline Float Float32 :=
  [{ data := .range {} }, { data := .range {} }, { data := .log ⟨2, .forward⟩ }]

/-- The ranges fuse, and the logarithm is left. -/
theorem open_ranges_and_a_logarithm_leave_alpha :
    (∀ op ∈ openRangesAndLog, op.Reachable) ∧
      (∀ op ∈ openRangesAndLog, op.kind ≠ .matrix ∧ op.kind ≠ .exponent) ∧
      ∃ p, ofOps openRangesAndLog ⟨false, false, true, false⟩ = .ok p ∧
        p.ops.map Op.kind = [.log] ∧
        ∃ c, PixelProcessor.ofProcessor p .float .half = .ok c ∧
          (c.runPixel ⟨0.5, 0.25, 1, 0.75⟩).alpha = 0.75 ∧
          (c.runPixel ⟨0.5, 0.25, 1, 0.75⟩).rgb = (c.runPixel ⟨0.5, 0.25, 1, 0⟩).rgb := by
  have hops : ∀ op ∈ openRangesAndLog, op.Reachable := by
    intro op hop
    simp only [openRangesAndLog, List.mem_cons, List.not_mem_nil, or_false] at hop
    rcases hop with rfl | rfl | rfl <;> exact .new _
  have hkinds : ∀ op ∈ openRangesAndLog, op.kind ≠ .matrix ∧ op.kind ≠ .exponent := by
    decide
  have hmade : ((ofOps openRangesAndLog ⟨false, false, true, false⟩).toOption.map
      fun p => p.ops.map Op.kind) = some [.log] := by
    decide +kernel
  rcases hp : ofOps openRangesAndLog ⟨false, false, true, false⟩ with e | p
  · rw [hp] at hmade
    cases hmade
  · rw [hp] at hmade
    obtain ⟨_, hall⟩ := only_matrices_and_exponents_touch_alpha _ _ hops hkinds
    obtain ⟨c, hc, _, hrun, _⟩ := (hall p hp).2 .float .half (by decide) (by decide)
    exact ⟨hops, hkinds, p, rfl, Option.some.inj hmade, c, hc, hrun.alpha _, hrun.rgb _ _ rfl⟩

end Processor

end Machine

end ColorPipeline
