-- The laws of processors: a processor is built from well-formed ops and from no
-- others, and all of it can be rendered and emitted.
import ColorPipeline.Proofs.ValidRuns
import ColorPipeline.Render.PixelProcessor
import ColorPipeline.Shader.Emission

open scoped ColorPipeline.Scalar

namespace ColorPipeline

variable {P S : Type}

/-! ## Ops that there can be -/

theorem Attempt.toExcept_of_fault_eq_none {α : Type} {a : Attempt P α} (h : a.fault = none) :
    a.toExcept = .ok a.reached := by
  rw [toExcept, h]

section Finalizing

variable [Scalar P] [Scalar S] [Stored P] [Precision P S]

namespace Op

/-- An op is made from parameters, and all that can happen to it is that it is finalized. -/
inductive Reachable : Op P S → Prop
  | new (data : OpData P S) : Reachable { data }
  | finalized {op done : Op P S} : Reachable op → op.finalize = .ok done → Reachable done

/-- The op with the cache ID of its parameters. -/
def withId (op : Op P S) : Op P S := { op with id := some (finalId op.data) }

/-- Finalizing checks the parameters and writes the ID down. -/
theorem finalize_of_not_isFinalized {op done : Op P S} (h : op.isFinalized = false) :
    op.finalize = .ok done ↔ op.data.validate = .ok () ∧ done = op.withId := by
  unfold finalize
  rw [h]
  rcases hvalid : op.data.validate with e | u
  · simp [Except.map]
  · simp [Except.map, withId, eq_comm]

theorem data_of_finalize {op done : Op P S} (h : op.finalize = .ok done) :
    done.data = op.data := by
  by_cases hop : op.isFinalized
  · unfold finalize at h
    rw [if_pos hop] at h
    cases h
    rfl
  · rw [finalize_of_not_isFinalized (Bool.eq_false_iff.mpr hop)] at h
    rw [h.2]
    rfl

/-- An op that is finalized was found well-formed, and has the cache ID of its parameters. -/
theorem Reachable.of_isFinalized {op : Op P S} (h : Reachable op) (hid : op.isFinalized) :
    op.data.validate = .ok () ∧ op.withId = op := by
  induction h with
  | new data => cases hid
  | @finalized op done _ hdone ih =>
    by_cases hop : op.isFinalized
    · unfold finalize at hdone
      rw [if_pos hop] at hdone
      cases hdone
      exact ih hop
    · rw [finalize_of_not_isFinalized (Bool.eq_false_iff.mpr hop)] at hdone
      obtain ⟨hvalid, rfl⟩ := hdone
      exact ⟨hvalid, rfl⟩

theorem Reachable.finalize_iff {op done : Op P S} (h : Reachable op) :
    op.finalize = .ok done ↔ op.data.validate = .ok () ∧ done = op.withId := by
  by_cases hop : op.isFinalized
  · obtain ⟨hvalid, hid⟩ := h.of_isFinalized hop
    rw [hid]
    unfold finalize
    rw [if_pos hop]
    simp [hvalid, eq_comm]
  · exact finalize_of_not_isFinalized (Bool.eq_false_iff.mpr hop)

end Op

namespace Pipeline

theorem finalize_cons_eq_iff {op : Op P S} {ops done : Pipeline P S} :
    (finalize (op :: ops)).toExcept = .ok done ↔
      ∃ first rest, op.finalize = .ok first ∧ ops.finalize.toExcept = .ok rest ∧
        done = first :: rest := by
  rw [finalize]
  rcases op.finalize with e | first
  · simp [Attempt.toExcept]
  · rcases hrest : finalize ops with ⟨rest, _ | e⟩
    · simp [Attempt.toExcept, eq_comm]
    · simp [Attempt.toExcept]

/-- Finalizing goes through where all ops are well-formed, and only there. -/
theorem finalize_eq_iff {ops done : Pipeline P S} (h : ∀ op ∈ ops, op.Reachable) :
    ops.finalize.toExcept = .ok done ↔ Valid ops ∧ done = ops.map Op.withId := by
  induction ops generalizing done with
  | nil => simp [finalize, Attempt.toExcept, Valid, eq_comm]
  | cons op ops ih =>
    rw [List.forall_mem_cons] at h
    unfold Valid at ih ⊢
    rw [finalize_cons_eq_iff, List.forall_mem_cons, List.map_cons]
    constructor
    · rintro ⟨first, rest, hfirst, hrest, rfl⟩
      obtain ⟨hop, rfl⟩ := h.1.finalize_iff.mp hfirst
      obtain ⟨hops, rfl⟩ := (ih h.2).mp hrest
      exact ⟨⟨hop, hops⟩, rfl⟩
    · rintro ⟨⟨hop, hops⟩, rfl⟩
      exact ⟨op.withId, ops.map Op.withId, h.1.finalize_iff.mpr ⟨hop, rfl⟩,
        (ih h.2).mpr ⟨hops, rfl⟩, rfl⟩

theorem Valid.map_withId {ops : Pipeline P S} (h : Valid ops) : Valid (ops.map Op.withId) := by
  intro op hop
  obtain ⟨old, hold, rfl⟩ := List.mem_map.mp hop
  exact h old hold

theorem reachable_map_withId {ops : Pipeline P S} (h : ∀ op ∈ ops, op.Reachable)
    (hvalid : Valid ops) : ∀ op ∈ ops.map Op.withId, op.Reachable := by
  intro op hop
  obtain ⟨old, hold, rfl⟩ := List.mem_map.mp hop
  have hdone := (h old hold).finalize_iff.mpr ⟨hvalid old hold, rfl⟩
  exact .finalized (h old hold) hdone

theorem Edit.reachable {flags : OptimizationFlags} {old new : Pipeline P S}
    (h : Edit flags old new) {op : Op P S} (hop : op ∈ new) : op.Reachable := by
  cases h with
  | identity _ _ hout =>
    obtain ⟨_, _, rfl⟩ := Replacement.mem_ops hout hop
    exact .new _
  | inverse _ _ hout =>
    obtain ⟨_, _, rfl⟩ := Replacement.mem_ops hout hop
    exact .new _
  | fusion _ _ _ hout _ =>
    obtain ⟨ds, _, rfl⟩ := Op.fuse_eq_ok hout
    obtain ⟨d, _, rfl⟩ := List.mem_map.mp hop
    exact .new d

theorem Steps.reachable {flags : OptimizationFlags} {xs ys : Pipeline P S}
    (h : Steps flags xs ys) (hxs : ∀ op ∈ xs, op.Reachable) : ∀ op ∈ ys, op.Reachable :=
  h.forall_mem (fun _ _ he _ _ hop => he.reachable hop) hxs

end Pipeline

/-- Without simplifications, well-formed ops make a processor of themselves. -/
theorem Processor.ofOps_none_eq {ops : Pipeline P S} (hops : ∀ op ∈ ops, op.Reachable)
    (hvalid : ops.Valid) : ofOps ops .none = .ok ⟨ops.map Op.withId⟩ := by
  have hchecked := (Pipeline.finalize_eq_iff hops).mpr ⟨hvalid, rfl⟩
  have hfinished := (Pipeline.finalize_eq_iff (Pipeline.reachable_map_withId hops hvalid)).mpr
    ⟨hvalid.map_withId, rfl⟩
  unfold ofOps
  rw [hchecked]
  change (Pipeline.finalize (ops.map Op.withId)).toExcept >>= _ = _
  rw [hfinished, List.map_map]
  rfl

end Finalizing

/-! ## Building -/

section Building

variable [Scalar P] [Scalar S] [Stored P] [Precision P S] [ExactScalar P] [ExactScalar S]
  [ExactPrecision P S]

/-- Well-formed ops, and no others, make a processor, of what the optimizer leaves of them,
unless an error stops the optimizer. -/
theorem Processor.ofOps_eq_iff {ops : Pipeline P S} {flags : OptimizationFlags}
    {p : Processor P S} (h : ∀ op ∈ ops, op.Reachable) :
    ofOps ops flags = .ok p ↔ ops.Valid ∧
      (Pipeline.optimize flags (ops.map Op.withId)).fault = none ∧
      p.ops = ((Pipeline.optimize flags (ops.map Op.withId)).reached.map Op.withId) := by
  unfold ofOps
  by_cases hvalid : ops.Valid
  · have hchecked : ops.finalize.toExcept = .ok (ops.map Op.withId) :=
      (Pipeline.finalize_eq_iff h).mpr ⟨hvalid, rfl⟩
    have hids := hvalid.map_withId
    have hleft := (Pipeline.optimize_steps flags (ops.map Op.withId)).reachable
      (Pipeline.reachable_map_withId h hvalid)
    have hfinished := (Pipeline.finalize_eq_iff hleft).mpr ⟨Pipeline.valid_optimize hids, rfl⟩
    rcases hfault : (Pipeline.optimize flags (ops.map Op.withId)).fault with _ | e
    · have hoptimized := Attempt.toExcept_of_fault_eq_none hfault
      simp only [hchecked, hoptimized, hfinished, hvalid, bind, Except.bind, pure, Except.pure,
        true_and, Except.ok.injEq]
      constructor
      · rintro rfl
        rfl
      · intro hp
        rw [← hp]
    · have hstopped : (Pipeline.optimize flags (ops.map Op.withId)).toExcept = .error e := by
        rw [Attempt.toExcept, hfault]
      simp [hchecked, hstopped, bind, Except.bind]
  · have hchecked : ∀ done, ops.finalize.toExcept ≠ .ok done := by
      intro done hdone
      exact hvalid ((Pipeline.finalize_eq_iff h).mp hdone).1
    rcases hfinalize : ops.finalize.toExcept with e | done
    · simp [hvalid, bind, Except.bind]
    · exact absurd hfinalize (hchecked done)

theorem Processor.ops_of_eq_ok {ops : Pipeline P S} {flags : OptimizationFlags}
    {p : Processor P S} (h : ∀ op ∈ ops, op.Reachable) (hp : ofOps ops flags = .ok p) :
    ∀ op ∈ p.ops, op.isFinalized ∧ op.data.validate = .ok () ∧
      op.cacheId = s!"<{op.data.kind.name} {op.data.cacheId} >" := by
  obtain ⟨hvalid, _, hops⟩ := (ofOps_eq_iff h).mp hp
  intro op hop
  rw [hops] at hop
  obtain ⟨left, hleft, rfl⟩ := List.mem_map.mp hop
  exact ⟨rfl, Pipeline.valid_optimize hvalid.map_withId left hleft, rfl⟩

/-- The grids of a processor are those of the ops that it is made of. -/
theorem Processor.gridFits_of_eq_ok {ops : Pipeline P S} {flags : OptimizationFlags}
    {p : Processor P S} (h : ∀ op ∈ ops, op.Reachable) (hp : ofOps ops flags = .ok p)
    (hfits : ∀ op ∈ ops, op.data.GridFits) : ∀ op ∈ p.ops, op.data.GridFits := by
  obtain ⟨_, _, hops⟩ := (ofOps_eq_iff h).mp hp
  have hids : ∀ op ∈ ops.map Op.withId, op.data.GridFits := by
    intro op hop
    obtain ⟨old, hold, rfl⟩ := List.mem_map.mp hop
    exact hfits old hold
  intro op hop
  rw [hops] at hop
  obtain ⟨left, hleft, rfl⟩ := List.mem_map.mp hop
  exact (Pipeline.optimize_steps flags (ops.map Op.withId)).gridFits hids left hleft

end Building

/-! ## Rendering and emitting -/

section Using

theorem Lut1D.exists_bakeInverse_eq_ok [Scalar S] (lut : Lut1D S) {size : Nat} (h : 2 ≤ size) :
    ∃ table, lut.bakeInverse size = .ok table := by
  unfold bakeInverse
  exact ⟨_, ofFn_eq_ok _ h⟩

theorem Lut1DOp.exists_shaderTable_eq_ok [Scalar S] (l : Lut1DOp S) :
    ∃ lut, (l.shaderTable : Except (OpError P) (Lut1D S)) = .ok lut := by
  have hsize : 2 ≤ bakedSize := by decide
  obtain ⟨table, htable⟩ := l.lut.exists_bakeInverse_eq_ok hsize
  unfold shaderTable
  rw [htable]
  split
  · exact ⟨l.lut, rfl⟩
  · exact ⟨table, rfl⟩

variable [Scalar P] [Scalar S] [Precision P S]

/-- Every finalized op that is well-formed has a renderer. -/
theorem Renderer.exists_ofOp_eq_ok {op : Op P S} (hid : op.isFinalized)
    (hvalid : op.data.validate = .ok ()) : ∃ r : Renderer S, ofOp op = .ok r := by
  have hdata : ∃ r : Renderer S, ofData op.data = .ok r := by
    unfold OpData.validate at hvalid
    unfold ofData
    split
    · exact ⟨_, rfl⟩
    · exact ⟨_, rfl⟩
    · exact ⟨_, rfl⟩
    · split
      · exact ⟨_, rfl⟩
      · exact ⟨_, rfl⟩
    · rename_i l hl
      rw [hl] at hvalid
      change (l.validate : Except (OpError P) Unit) = .ok () at hvalid
      rw [hvalid]
      exact ⟨_, rfl⟩
    · rename_i l hl
      rw [hl] at hvalid
      change (l.validate : Except (OpError P) Unit) = .ok () at hvalid
      rw [hvalid]
      exact ⟨_, rfl⟩
    · exact ⟨_, rfl⟩
  obtain ⟨r, hr⟩ := hdata
  refine ⟨r, ?_⟩
  unfold ofOp Op.requireFinalized
  rw [if_pos hid, hr]
  rfl

variable [Stored P] [Stored S]

theorem OpData.exists_emit_eq_ok {d : OpData P S} (hvalid : d.validate = .ok ())
    (program : ShaderProgram S) (source : String) :
    ∃ result, d.emit program source = .ok result := by
  unfold emit
  extract_lets l px
  unfold validate at hvalid
  split at hvalid
  · exact ⟨_, rfl⟩
  · exact ⟨_, rfl⟩
  · exact ⟨_, rfl⟩
  · exact ⟨_, rfl⟩
  · rename_i t
    obtain ⟨lut, hlut⟩ := t.exists_shaderTable_eq_ok (P := P)
    simp only [Lut1DOp.emit, hvalid, hlut, bind, Except.bind]
    split
    · exact ⟨_, rfl⟩
    · exact ⟨_, rfl⟩
  · simp only [Lut3DOp.emit, hvalid, bind, Except.bind]
    exact ⟨_, rfl⟩
  · exact ⟨_, rfl⟩

theorem ShaderProgram.exists_addOp_eq_ok {op : Op P S} (hid : op.isFinalized)
    (hvalid : op.data.validate = .ok ()) (program : ShaderProgram S) :
    ∃ next, program.addOp op = .ok next := by
  obtain ⟨⟨code, withResources⟩, hemit⟩ := OpData.exists_emit_eq_ok hvalid program op.cacheId
  unfold addOp Op.requireFinalized
  rw [if_pos hid, hemit]
  exact ⟨_, rfl⟩

end Using

/-! ## Runs that read tables -/

section Reads

variable [Scalar S]

/-- A renderer reads nothing but the grid that it may have. -/
theorem Renderer.exists_read_eq_ok {r : Renderer S} (h : ∀ lut, r = .lut3D lut → lut.Complete)
    (px : Rgba S) : ∃ next, r.read px = .ok next := by
  cases r with
  | lut3D lut =>
    unfold read
    dsimp only
    rw [(h lut rfl).valueAt?_eq]
    exact ⟨_, rfl⟩
  | _ => exact ⟨_, rfl⟩

variable [Scalar P] [Precision P S]

/-- The grid of a renderer has been checked, and baked where it is an inverse one. -/
theorem Renderer.complete_of_ofOp {op : Op P S} {r : Renderer S} (h : ofOp op = .ok r)
    (hfits : op.data.GridFits) {lut : Lut3D S} (hlut : r = .lut3D lut) : lut.Complete := by
  obtain ⟨_, _, hdata⟩ := exists_of_bind_eq_ok h
  subst hlut
  cases hop : op.data with
  | lut3D l =>
    rw [hop] at hdata hfits
    obtain ⟨_, hvalid, hrenderer⟩ := Except.map_eq_ok_iff.mp hdata
    obtain rfl := Renderer.lut3D.inj hrenderer
    exact Lut3DOp.complete_evaluatedGrid (Lut3DOp.complete_of_validate hvalid hfits)
  | lut1D l =>
    rw [hop] at hdata
    obtain ⟨_, _, hrenderer⟩ := Except.map_eq_ok_iff.mp hdata
    cases hrenderer
  | log l =>
    rw [hop] at hdata
    unfold ofData at hdata
    dsimp only at hdata
    split at hdata
    · cases hdata
    · cases hdata
  | _ =>
    rw [hop] at hdata
    cases hdata

/-- The pixels of a run never ask for an entry that is not there, if the points of all grids can
be counted. -/
theorem PixelProcessor.readPixels_eq_ok {p : Processor P S} {input output : BitDepth}
    {c : PixelProcessor S} (h : create p input output = .ok c)
    (hfits : ∀ op ∈ p.ops, op.data.GridFits) (pixels : List (Rgba S)) :
    (c.readPixels pixels : Except (OpError P) Unit) = .ok () := by
  obtain ⟨_, _, hmade⟩ := exists_of_bind_eq_ok h
  obtain ⟨renderers, hrenderers, hmade⟩ := exists_of_bind_eq_ok hmade
  obtain ⟨-, rfl⟩ := Except.ite_eq_ok_iff.mp hmade
  refine forM_eq_ok_iff.mpr fun px _ => ?_
  have hread : ∃ done, renderers.foldlM (fun q r => r.read q) px = .ok done := by
    refine exists_foldlM_eq_ok (fun r hr q => ?_) px
    obtain ⟨op, hop, hof⟩ := exists_of_mem_mapM hrenderers hr
    exact Renderer.exists_read_eq_ok
      (fun lut hlut => Renderer.complete_of_ofOp hof (hfits op hop) hlut) q
  obtain ⟨done, hdone⟩ := hread
  dsimp only
  rw [hdone]

end Reads

/-! ## All there is to a processor -/

namespace Processor

theorem readEvaluated_eq_ok [Scalar P] [Scalar S] {p : Processor P S}
    (hvalid : ∀ op ∈ p.ops, op.data.validate = .ok ()) (hfits : ∀ op ∈ p.ops, op.data.GridFits) :
    p.readEvaluated = .ok () :=
  forM_eq_ok_iff.mpr fun op hop => OpData.readEvaluated_eq_ok (hvalid op hop) (hfits op hop)

/-- Where arithmetic is exact and the points of all well-formed grids can be counted in 64 bits,
well-formed ops make a processor, with any simplifications, and other ops do not: no
simplification fails, and none leaves an op that is not well-formed. All ops of a processor are
finalized under the IDs of their parameters. It can be run between known depths, and extracted
into any shader program. -/
theorem a_processor_is_made_of_well_formed_ops [Scalar P] [Scalar S] [Stored P] [Stored S]
    [Precision P S] [ExactScalar P] [ExactScalar S] [ExactPrecision P S]
    (flags : OptimizationFlags) (ops : Pipeline P S) (h : ∀ op ∈ ops, op.Reachable)
    (hfits : ∀ op ∈ ops, op.data.validate = .ok () → op.data.GridFits) :
    ((∃ p, ofOps ops flags = .ok p) ↔ ∀ op ∈ ops, op.data.validate = .ok ()) ∧
      ((∀ op ∈ ops, op.data.validate = .ok ()) →
        (Pipeline.optimize flags ops).fault = none ∧
          ∀ op ∈ (Pipeline.optimize flags ops).reached, op.data.validate = .ok ()) ∧
      ∀ p, ofOps ops flags = .ok p →
        (∀ op ∈ p.ops, op.isFinalized ∧ op.data.validate = .ok () ∧
          op.cacheId = s!"<{op.data.kind.name} {op.data.cacheId} >") ∧
        (∀ input output, input ≠ .unknown → output ≠ .unknown →
          ∃ c, PixelProcessor.create p input output = .ok c) ∧
        ∀ program : ShaderProgram S, ∃ next, program.extract p = .ok next := by
  have hcounted (hvalid : ∀ op ∈ ops, op.data.validate = .ok ()) :
      ∀ op ∈ ops, op.data.GridFits := fun op hop => hfits op hop (hvalid op hop)
  refine ⟨?_, ?_, ?_⟩
  · constructor
    · rintro ⟨p, hp⟩
      exact ((ofOps_eq_iff h).mp hp).1
    · intro hvalid
      have hids : ∀ op ∈ ops.map Op.withId, op.data.GridFits := by
        intro op hop
        obtain ⟨old, hold, rfl⟩ := List.mem_map.mp hop
        exact hcounted hvalid old hold
      have hfault : (Pipeline.optimize flags (ops.map Op.withId)).fault = none :=
        Pipeline.optimize_fault_eq_none (Pipeline.Valid.map_withId hvalid) hids
      exact ⟨⟨_⟩, (ofOps_eq_iff h).mpr ⟨hvalid, hfault, rfl⟩⟩
  · intro hvalid
    exact ⟨Pipeline.optimize_fault_eq_none hvalid (hcounted hvalid),
      Pipeline.valid_optimize hvalid⟩
  · intro p hp
    have hops := ops_of_eq_ok h hp
    have hgrids := gridFits_of_eq_ok h hp (hcounted ((ofOps_eq_iff h).mp hp).1)
    have hread : p.readEvaluated = .ok () :=
      readEvaluated_eq_ok (fun op hop => (hops op hop).2.1) hgrids
    refine ⟨hops, ?_, ?_⟩
    · intro input output hinput houtput
      obtain ⟨renderers, hrenderers⟩ := exists_mapM_eq_ok fun op hop =>
        Renderer.exists_ofOp_eq_ok (hops op hop).1 (hops op hop).2.1
      unfold PixelProcessor.create PixelProcessor.ofProcessor PixelProcessor.make
      rw [hread, hrenderers]
      exact ⟨_, if_neg (not_or.mpr ⟨hinput, houtput⟩)⟩
    · intro program
      unfold ShaderProgram.extract ShaderProgram.addPipeline ShaderProgram.addOps
      rw [hread]
      refine exists_foldlM_eq_ok ?_ _
      intro op hop q
      exact ShaderProgram.exists_addOp_eq_ok (hops op hop).1 (hops op hop).2.1 q

section LimitedGrid

open scoped ColorPipeline.RealScalar

/-- Limits from 0 to 1, finalized, and the inverse of a grid with two points to an axis after
them. -/
noncomputable def limitedGrid : Pipeline ℝ ℝ :=
  [Op.withId { data := .range (RangeOp.clamp 0 1) },
    { data := .lut3D ⟨.identity 2, .inverse⟩ }]

theorem valid_limitedGrid : ∀ op ∈ limitedGrid, op.data.validate = .ok () := by
  have hlimits : (RangeOp.clamp (0 : ℝ) 1).validate = .ok () :=
    (RangeOp.validate_iff _).mpr (RangeOp.valid_clamp rfl rfl ExactScalar.zero_lt_one)
  have hentries : (Lut3D.identity 2 : Lut3D ℝ).entries.size = sizeCube 2 := Array.size_ofFn
  have hgrid : ((⟨.identity 2, .inverse⟩ : Lut3DOp ℝ).validate : Except (OpError ℝ) Unit) =
      .ok () :=
    (Lut3DOp.validate_iff _).mpr ⟨le_refl 2, hentries, fun _ _ => rfl⟩
  exact List.forall_mem_cons.mpr ⟨hlimits, List.forall_mem_singleton.mpr hgrid⟩

theorem reachable_limitedGrid : ∀ op ∈ limitedGrid, op.Reachable := by
  have hfirst : Op.Reachable (Op.withId { data := .range (RangeOp.clamp 0 1) } : Op ℝ ℝ) := by
    have hnew := Op.Reachable.new (S := ℝ) (.range (RangeOp.clamp (0 : ℝ) 1))
    have hvalid := valid_limitedGrid _ List.mem_cons_self
    exact .finalized hnew (hnew.finalize_iff.mpr ⟨hvalid, rfl⟩)
  exact List.forall_mem_cons.mpr ⟨hfirst, List.forall_mem_singleton.mpr (.new _)⟩

theorem gridFits_limitedGrid : ∀ op ∈ limitedGrid, op.data.GridFits := by
  have hfits : 2 ^ 3 < sizeLimit := by decide
  exact List.forall_mem_cons.mpr ⟨trivial, List.forall_mem_singleton.mpr hfits⟩

/-- The limits are finalized before the processor is made, the grid with it. -/
theorem limits_and_an_inverse_grid_make_a_processor :
    (∀ op ∈ limitedGrid, op.Reachable) ∧ (∀ op ∈ limitedGrid, op.data.GridFits) ∧
      ∃ p, ofOps limitedGrid .all = .ok p ∧
        ∃ c, PixelProcessor.create p .float .half = .ok c := by
  refine ⟨reachable_limitedGrid, gridFits_limitedGrid, ?_⟩
  obtain ⟨hmade, _, huse⟩ := a_processor_is_made_of_well_formed_ops .all limitedGrid
    reachable_limitedGrid fun op hop _ => gridFits_limitedGrid op hop
  obtain ⟨p, hp⟩ := hmade.mpr valid_limitedGrid
  exact ⟨p, hp, (huse p hp).2.1 .float .half nofun nofun⟩

end LimitedGrid

section Unread

variable [Scalar P] [Scalar S] [Precision P S] {op : Op P S} {e : OpError P}

omit [Scalar P] [Precision P S] in
theorem readEvaluated_of_unread (h : op.data.readEvaluated = .error e) :
    readEvaluated ⟨[op]⟩ = .error e := by
  unfold readEvaluated
  rw [List.forM, h]
  rfl

/-- No pixel processor is made of an op whose grid cannot be read. -/
theorem create_of_unread (h : op.data.readEvaluated = .error e) (input output : BitDepth) :
    PixelProcessor.create ⟨[op]⟩ input output = .error e := by
  unfold PixelProcessor.create
  rw [readEvaluated_of_unread h]
  rfl

variable [Stored P] [Stored S]

theorem extract_of_unread (h : op.data.readEvaluated = .error e) (program : ShaderProgram S) :
    program.extract ⟨[op]⟩ = .error e := by
  unfold ShaderProgram.extract
  rw [readEvaluated_of_unread h]
  rfl

omit [Stored S] in
/-- No processor is made of an op whose grid cannot be read where identities are looked for. -/
theorem ofOps_all_of_unread (h : op.data.readIdentity = .error e) (p : Processor P S) :
    ofOps [op] .all ≠ .ok p := by
  have hstopped : ∀ done : Op P S, done.data = op.data →
      (Pipeline.optimize .all [done]).toExcept = .error e := by
    intro done hdone
    have htidied : Pipeline.removeIdentities [done] = ⟨[done], some e⟩ := by
      unfold Pipeline.removeIdentities
      rw [List.forM, hdone, h]
      rfl
    change ((Pipeline.removeIdentities [done]).andThen _).toExcept = _
    rw [htidied]
    rfl
  intro hp
  obtain ⟨checked, hchecked, hp⟩ := exists_of_bind_eq_ok hp
  obtain ⟨left, hleft, _⟩ := exists_of_bind_eq_ok hp
  obtain ⟨first, rest, hfirst, hrest, rfl⟩ := Pipeline.finalize_cons_eq_iff.mp hchecked
  obtain rfl : [] = rest := Except.ok.inj hrest
  rw [hstopped first (Op.data_of_finalize hfirst)] at hleft
  cases hleft

end Unread

section HugeGrid

/-- The inverse of a grid without entries, whose 2^66 points are counted as none. -/
def hugeGrid : Lut3DOp Float32 := ⟨{ entries := #[], size := 4194304 }, .inverse⟩

theorem validate_hugeGrid : (hugeGrid.validate : Except (OpError Float) Unit) = .ok () :=
  (Lut3DOp.validate_iff _).mpr ⟨by decide, by decide, nofun⟩

/-- The inverse is baked from the first entry on, which is missing. -/
theorem readEvaluated_hugeGrid : (hugeGrid.readEvaluated : Except (OpError Float) Unit) =
    .error (.lut (.size (.pointMissing 0 0))) := by
  have hgrid : hugeGrid.evaluatedGrid? = none :=
    Lut3D.invert?_of_empty rfl (by decide)
  unfold Lut3DOp.readEvaluated
  rw [hgrid]
  rfl

theorem readIdentity_hugeGrid : (hugeGrid.readIdentity : Except (OpError Float) Unit) =
    .error (.lut (.size (.pointMissing 0 0))) := by
  have hidentity : hugeGrid.lut.isIdentity? tableTolerance = none :=
    Lut3D.isIdentity?_of_empty rfl (by decide) _
  unfold Lut3DOp.readIdentity
  rw [hidentity]
  rfl

/-- A grid whose points are too many to be counted can be well-formed. No processor is made of
it where identities are looked for. Where they are not, one is made, and can neither be run nor
extracted: both read a grid point without an entry. -/
theorem a_grid_without_entries_is_found_out_late :
    let op : Op Float Float32 := { data := .lut3D hugeGrid }
    op.Reachable ∧ op.data.validate = .ok () ∧ (∀ p, ofOps [op] .all ≠ .ok p) ∧
      ∃ p, ofOps [op] .none = .ok p ∧
        PixelProcessor.create p .float .float = .error (.lut (.size (.pointMissing 0 0))) ∧
        ∀ program : ShaderProgram Float32,
          program.extract p = .error (.lut (.size (.pointMissing 0 0))) := by
  intro op
  have hvalid : op.data.validate = .ok () := validate_hugeGrid
  have hidentity : op.data.readIdentity = .error (.lut (.size (.pointMissing 0 0))) :=
    readIdentity_hugeGrid
  have hread : op.withId.data.readEvaluated = .error (.lut (.size (.pointMissing 0 0))) :=
    readEvaluated_hugeGrid
  have hmade : ofOps [op] .none = .ok ⟨[op.withId]⟩ :=
    ofOps_none_eq (List.forall_mem_singleton.mpr (.new _)) (List.forall_mem_singleton.mpr hvalid)
  exact ⟨.new _, hvalid, ofOps_all_of_unread hidentity, _, hmade, create_of_unread hread _ _,
    extract_of_unread hread⟩

end HugeGrid

end Processor

end ColorPipeline
