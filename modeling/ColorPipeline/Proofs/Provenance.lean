-- Where the ops of an optimized pipeline come from. Logarithms, grids and fixed
-- functions are never made by a rewrite: they are ops of the pipeline, in its
-- order. So are tables, unless they may be fused into an approximation.
import ColorPipeline.Proofs.Edits

namespace ColorPipeline

/-- Rewrites that the flags allow can make an op of this kind. -/
def OptimizationFlags.canMake (flags : OptimizationFlags) : OpKind → Bool
  | .range | .matrix | .exponent => true
  | .lut1D => flags.combine && flags.composeTables
  | .log | .lut3D | .fixedFunction => false

namespace Pipeline

variable {P S : Type}

/-- The ops of the kinds that no rewrite makes, in order. -/
def whole (flags : OptimizationFlags) (ops : Pipeline P S) : Pipeline P S :=
  ops.filter fun op => !flags.canMake op.kind

theorem whole_append (flags : OptimizationFlags) (xs ys : Pipeline P S) :
    whole flags (xs ++ ys) = whole flags xs ++ whole flags ys :=
  List.filter_append xs ys

variable [Scalar P] [Scalar S] [Stored P] [Precision P S] {flags : OptimizationFlags}

/-- What an edit makes is of a kind that the flags can make. -/
theorem Edit.canMake {old new : Pipeline P S} (h : Edit flags old new) {op : Op P S}
    (hop : op ∈ new) : flags.canMake op.kind := by
  cases h with
  | identity _ _ hout =>
    obtain ⟨_, _, rfl⟩ := Replacement.mem_ops hout hop
    rfl
  | inverse _ _ hout =>
    obtain ⟨_, _, rfl⟩ := Replacement.mem_ops hout hop
    rfl
  | @fusion a b _ hflag hfuses hlossy hout _ =>
    obtain ⟨ds, hds, rfl⟩ := Op.fuse_eq_ok hout
    obtain ⟨d, hd, rfl⟩ := List.mem_map.mp hop
    unfold Op.kind
    rcases OpData.kind_of_mem_fuse hds hd with h | h | h | ⟨h, happrox⟩
    · rw [h]
      rfl
    · rw [h]
      rfl
    · rw [h]
      rfl
    · have htables : flags.composeTables := by
        simpa [Op.fusionIsLossy, hfuses, happrox] using hlossy
      rw [h]
      exact Bool.and_eq_true_iff.mpr ⟨hflag, htables⟩

theorem Edit.whole_eq_nil {old new : Pipeline P S} (h : Edit flags old new) :
    whole flags new = [] := by
  refine List.filter_eq_nil_iff.mpr ?_
  intro op hop
  simp [h.canMake hop]

/-- A step takes such ops away and keeps the order of the others. -/
theorem Step.whole_sublist {xs ys : Pipeline P S} (h : Step flags xs ys) :
    (whole flags ys).Sublist (whole flags xs) := by
  cases h with
  | @within old new before after he =>
    simp only [whole_append, he.whole_eq_nil, List.append_nil]
    have hbefore : (whole flags before).Sublist (whole flags before ++ whole flags old) :=
      List.sublist_append_left _ _
    exact hbefore.append (List.Sublist.refl _)

theorem Step.mem_or_canMake {xs ys : Pipeline P S} (h : Step flags xs ys) {op : Op P S}
    (hop : op ∈ ys) : op ∈ xs ∨ flags.canMake op.kind := by
  obtain ⟨before, after, he⟩ := h
  simp only [List.mem_append] at hop ⊢
  rcases hop with (hop | hop) | hop
  · exact .inl (.inl (.inl hop))
  · exact .inr (he.canMake hop)
  · exact .inl (.inr hop)

theorem Steps.whole_sublist {xs ys : Pipeline P S} (h : Steps flags xs ys) :
    (whole flags ys).Sublist (whole flags xs) := by
  induction h with
  | refl => exact List.Sublist.refl _
  | tail _ hstep ih => exact hstep.whole_sublist.trans ih

/-- Whatever is left was there before or is of a kind that rewrites make. -/
theorem Steps.mem_or_canMake {xs ys : Pipeline P S} (h : Steps flags xs ys) {op : Op P S}
    (hop : op ∈ ys) : op ∈ xs ∨ flags.canMake op.kind := by
  induction h generalizing op with
  | refl => exact .inl hop
  | tail _ hstep ih =>
    rcases hstep.mem_or_canMake hop with hop | hmade
    · exact ih hop
    · exact .inr hmade

/-- Logarithms, grids, fixed functions, and tables that may not be fused, are left out or
stay in order, each with its parameters and ID. All other ops that are left were there
before, or are of a kind that the flags allow to be made. -/
theorem what_no_rewrite_makes_stays_in_order (flags : OptimizationFlags) (ops : Pipeline P S) :
    (whole flags (optimize flags ops).reached).Sublist (whole flags ops) ∧
      ∀ op ∈ (optimize flags ops).reached, op ∈ ops ∨ flags.canMake op.kind := by
  have hsteps : Steps flags ops (optimize flags ops).reached := optimize_steps flags ops
  refine ⟨hsteps.whole_sublist, ?_⟩
  intro op hop
  exact hsteps.mem_or_canMake hop

end Pipeline

end ColorPipeline
