-- Runs of the optimizer over well-formed ops. Every edit leaves well-formed ops, so what a run
-- leaves is well-formed. No error stops a run where the points of all grids can be counted.
import ColorPipeline.Proofs.CountedReads
import ColorPipeline.Proofs.Edits
import ColorPipeline.Proofs.Validity

namespace ColorPipeline

variable {P S : Type}

namespace Pipeline

/-- The parameters of all ops are well-formed. -/
def Valid [Scalar P] [Scalar S] (ops : Pipeline P S) : Prop :=
  ∀ op ∈ ops, op.data.validate = .ok ()

variable [Scalar P] [Scalar S] [Precision P S] [ExactScalar P] [ExactScalar S]
  [ExactPrecision P S] {flags : OptimizationFlags}

/-! ## Edits -/

theorem valid_of_replacement {d : OpData P S} {out : Pipeline P S} (hd : d.validate = .ok ())
    (hout : d.replacement.ops = some out) : Valid out := by
  intro op hop
  obtain ⟨limits, hr, rfl⟩ := Replacement.mem_ops hout hop
  exact OpData.validate_replacement hd hr

variable [Stored P]

omit [Precision P S] [ExactPrecision P S] in
/-- Well-formed ops fuse into well-formed ones, and the work does not fail. -/
theorem fuse_valid {a b : Op P S} (ha : a.data.validate = .ok ()) (hb : b.data.validate = .ok ())
    (hfuses : a.canFuse b) : ∃ out, a.fuse b = .ok out ∧ Valid out := by
  obtain ⟨ds, hds, hvalid⟩ := OpData.validate_fuse ha hb hfuses
  refine ⟨ds.map fun data => { data }, ?_, ?_⟩
  · unfold Op.fuse
    rw [if_pos hfuses, hds]
    rfl
  · intro op hop
    obtain ⟨d, hd, rfl⟩ := List.mem_map.mp hop
    exact hvalid d hd

theorem Edit.valid {old new : Pipeline P S} (h : Edit flags old new) (hold : Valid old) :
    Valid new := by
  cases h with
  | identity _ _ hout => exact valid_of_replacement (hold _ (by simp)) hout
  | inverse _ _ hout => exact valid_of_replacement (hold _ (by simp)) hout
  | @fusion a b _ _ hfuses _ hout _ =>
    obtain ⟨out, hok, hvalid⟩ := fuse_valid (hold a (by simp)) (hold b (by simp)) hfuses
    rw [hout] at hok
    cases hok
    exact hvalid

omit [ExactScalar P] [ExactScalar S] [ExactPrecision P S] in
/-- No edit makes a grid. -/
theorem Edit.gridFits {old new : Pipeline P S} (h : Edit flags old new)
    (hold : ∀ op ∈ old, op.data.GridFits) : ∀ op ∈ new, op.data.GridFits := by
  intro op hop
  cases h with
  | identity _ _ hout =>
    obtain ⟨_, _, rfl⟩ := Replacement.mem_ops hout hop
    trivial
  | inverse _ _ hout =>
    obtain ⟨_, _, rfl⟩ := Replacement.mem_ops hout hop
    trivial
  | fusion _ _ _ hout _ =>
    obtain ⟨ds, hds, rfl⟩ := Op.fuse_eq_ok hout
    obtain ⟨d, hd, rfl⟩ := List.mem_map.mp hop
    have hkind := OpData.kind_of_mem_fuse hds hd
    cases d with
    | lut3D l => simp [OpData.kind] at hkind
    | _ => trivial

omit [ExactScalar P] [ExactScalar S] [ExactPrecision P S] in
/-- No edit makes a grid, so all grids of a run are among the given ones. -/
theorem Steps.gridFits {xs ys : Pipeline P S} (h : Steps flags xs ys)
    (hxs : ∀ op ∈ xs, op.data.GridFits) : ∀ op ∈ ys, op.data.GridFits :=
  h.forall_mem (fun _ _ he => he.gridFits) hxs

theorem Steps.valid {xs ys : Pipeline P S} (h : Steps flags xs ys) (hxs : Valid xs) :
    Valid ys :=
  h.forall_mem (fun _ _ he hold => he.valid hold) hxs

/-! ## Runs -/

omit [Precision P S] [ExactPrecision P S] in
theorem fuseRule_eq_ok (allowLossy : Bool) {a b : Op P S} (ha : a.data.validate = .ok ())
    (hb : b.data.validate = .ok ()) : ∃ change, fuseRule allowLossy a b = .ok change := by
  unfold fuseRule
  split
  · rename_i hfuses
    rw [Bool.and_eq_true] at hfuses
    obtain ⟨out, hok, _⟩ := fuse_valid ha hb hfuses.1
    rw [hok]
    rcases out with _ | ⟨op, _ | ⟨next, rest⟩⟩
    · exact ⟨.drop, rfl⟩
    · exact ⟨.merge op, rfl⟩
    · exact ⟨.leave, rfl⟩
  · exact ⟨.leave, rfl⟩

/-- No error stops the optimizer on well-formed ops whose grids can be counted. -/
theorem optimize_fault_eq_none {ops : Pipeline P S} (hops : Valid ops)
    (hfits : ∀ op ∈ ops, op.data.GridFits) : (optimize flags ops).fault = none := by
  have hgood : NoFaults flags fun op : Op P S =>
      op.data.validate = .ok () ∧ op.data.GridFits := {
    edit := by
      intro old new he hold op hop
      exact ⟨he.valid (fun op hop => (hold op hop).1) op hop,
        he.gridFits (fun op hop => (hold op hop).2) op hop⟩
    fuse := fun _ _ ha hb => fuseRule_eq_ok flags.composeTables ha.1 hb.1
    identity := fun _ h => OpData.readIdentity_eq_ok h.1 h.2
    replacement := fun _ h => OpData.readReplacement_eq_ok h.1 h.2 }
  exact optimize_fault_eq_none_of hgood fun op hop => ⟨hops op hop, hfits op hop⟩

theorem valid_optimize {ops : Pipeline P S} (hops : Valid ops) :
    Valid (optimize flags ops).reached :=
  (optimize_steps flags ops).valid hops

end Pipeline

end ColorPipeline
