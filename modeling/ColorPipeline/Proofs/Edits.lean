-- Single edits of a pipeline. Every pass of the optimizer is a chain of edits,
-- each of one op or of two neighbours, so a law that holds across one edit
-- holds for whatever the optimizer leaves, also where an error stops it.
import ColorPipeline.Proofs.Walks
import Mathlib.Logic.Relation

namespace ColorPipeline

variable {P S : Type}

/-! ## What takes the place of what -/

/-- The ops that stand in for what is replaced, if it may go at all. -/
def Replacement.ops : Replacement P → Option (Pipeline P S)
  | .remove => some []
  | .clamp r => some [{ data := .range r }]
  | .keep => none

theorem Replacement.mem_ops {r : Replacement P} {out : Pipeline P S} {op : Op P S}
    (hout : r.ops = some out) (hop : op ∈ out) :
    ∃ limits, r = .clamp limits ∧ op = { data := .range limits } := by
  cases r with
  | remove =>
    cases hout
    cases hop
  | clamp limits =>
    cases hout
    exact ⟨limits, rfl, List.mem_singleton.mp hop⟩
  | keep => cases hout

/-- Fusing gives ranges, matrices and exponents, and tables only where it is lossy. -/
theorem OpData.kind_of_mem_fuse [Scalar P] [Scalar S] [Stored P] {a b d : OpData P S}
    {ds : List (OpData P S)} (h : a.fuse b = .ok ds) (hd : d ∈ ds) :
    d.kind = .range ∨ d.kind = .matrix ∨ d.kind = .exponent ∨
      d.kind = .lut1D ∧ a.fusionIsLossy b := by
  unfold OpData.fuse at h
  split at h
  · cases h
    rw [List.mem_singleton.mp hd]
    exact .inr (.inl rfl)
  · split at h
    · cases h
      cases hd
    · cases h
      rw [List.mem_singleton.mp hd]
      exact .inl rfl
    · cases h
      rw [List.mem_singleton.mp hd]
      exact .inr (.inl rfl)
    · cases h
  · cases h
    rw [List.mem_singleton.mp hd]
    exact .inr (.inr (.inl rfl))
  · rename_i a b
    rcases hl : a.fuse b with e | l
    · rw [hl] at h
      cases h
    · rw [hl] at h
      cases h
      rw [List.mem_singleton.mp hd]
      exact .inr (.inr (.inr ⟨rfl, rfl⟩))
  · split at h <;> cases h

/-- Two ops that fuse leave new ones, which have no ID yet. -/
theorem Op.fuse_eq_ok [Scalar P] [Scalar S] [Stored P] {a b : Op P S} {out : List (Op P S)}
    (h : a.fuse b = .ok out) :
    ∃ ds, a.data.fuse b.data = .ok ds ∧ out = ds.map fun data => { data := data } := by
  unfold Op.fuse at h
  split at h
  · rcases hds : a.data.fuse b.data with e | ds
    · rw [hds] at h
      cases h
    · rw [hds] at h
      cases h
      exact ⟨ds, rfl, rfl⟩
  · cases h

namespace Pipeline

section Edits

variable [Scalar P] [Scalar S] [Stored P] [Precision P S]

/-- One edit: what stands there before it, and what it leaves there. -/
inductive Edit (flags : OptimizationFlags) : Pipeline P S → Pipeline P S → Prop
  | identity {a : Op P S} {out : Pipeline P S} :
      flags.removeIdentities → a.isIdentity → a.data.replacement.ops = some out →
      Edit flags [a] out
  | inverse {a b : Op P S} {out : Pipeline P S} :
      flags.removeInversePairs → a.isInverse b → a.data.replacement.ops = some out →
      Edit flags [a, b] out
  | fusion {a b : Op P S} {out : Pipeline P S} :
      flags.combine → a.canFuse b → (flags.composeTables || !a.fusionIsLossy b) →
      a.fuse b = .ok out → out.length < 2 → Edit flags [a, b] out

/-- One edit somewhere in a pipeline. All ops before and after it stay in place. -/
inductive Step (flags : OptimizationFlags) : Pipeline P S → Pipeline P S → Prop
  | within {old new : Pipeline P S} (before after : Pipeline P S) :
      Edit flags old new → Step flags (before ++ old ++ after) (before ++ new ++ after)

/-- Any number of edits, one after the other. -/
abbrev Steps (flags : OptimizationFlags) : Pipeline P S → Pipeline P S → Prop :=
  Relation.ReflTransGen (Step flags)

/-- An edit touches nothing before or behind it. -/
theorem Step.within_context {flags : OptimizationFlags} {xs ys : Pipeline P S}
    (h : Step flags xs ys) (before after : Pipeline P S) :
    Step flags (before ++ xs ++ after) (before ++ ys ++ after) := by
  obtain ⟨pre, post, he⟩ := h
  have := Step.within (before ++ pre) (post ++ after) he
  simpa only [List.append_assoc] using this

theorem Steps.within_context {flags : OptimizationFlags} {xs ys : Pipeline P S}
    (h : Steps flags xs ys) (before after : Pipeline P S) :
    Steps flags (before ++ xs ++ after) (before ++ ys ++ after) := by
  induction h with
  | refl => exact .refl
  | tail _ hs ih => exact ih.tail (hs.within_context before after)

/-- What every edit keeps is kept at every step. -/
theorem Step.forall_mem {flags : OptimizationFlags} {Good : Op P S → Prop}
    (hedit : ∀ old new, Edit flags old new → (∀ op ∈ old, Good op) → ∀ op ∈ new, Good op)
    {xs ys : Pipeline P S} (h : Step flags xs ys) (hxs : ∀ op ∈ xs, Good op) :
    ∀ op ∈ ys, Good op := by
  cases h with
  | @within old new before after he =>
    simp only [List.forall_mem_append] at hxs ⊢
    exact ⟨⟨hxs.1.1, hedit old new he hxs.1.2⟩, hxs.2⟩

/-- What all ops of a pipeline have, and edits keep, all ops have after any edits. -/
theorem Steps.forall_mem {flags : OptimizationFlags} {Good : Op P S → Prop}
    (hedit : ∀ old new, Edit flags old new → (∀ op ∈ old, Good op) → ∀ op ∈ new, Good op)
    {xs ys : Pipeline P S} (h : Steps flags xs ys) (hxs : ∀ op ∈ xs, Good op) :
    ∀ op ∈ ys, Good op := by
  induction h with
  | refl => exact hxs
  | tail _ hstep ih => exact hstep.forall_mem hedit ih

theorem Edit.steps {flags : OptimizationFlags} {old new : Pipeline P S}
    (h : Edit flags old new) : Steps flags old new := by
  have := Step.within [] [] h
  simp only [List.nil_append, List.append_nil] at this
  exact .single this

end Edits

/-! ## The passes as chains of edits -/

section Passes

variable [Scalar P] [Scalar S] [Stored P] [Precision P S] {flags : OptimizationFlags}

/-- The walk over the neighbours is a chain of edits, whatever its rule is. -/
theorem Walk.steps {rule : PairRule P S}
    (hrule : ∀ a b change out, rule a b = .ok change → change.ops = some out →
      Edit flags [a, b] out)
    {ops : Pipeline P S} {i : Nat} {result : Attempt P (Pipeline P S)}
    (h : Walk rule ops i result) : Steps flags ops result.reached := by
  induction h with
  | finish _ => exact .refl
  | fault _ _ _ => exact .refl
  | leave _ _ _ _ ih => exact ih
  | @edit ops out i a b change result ha hb hchange hout _ ih =>
    have hstep := Step.within (ops.take i) (ops.drop (i + 2)) (hrule a b change out hchange hout)
    rw [← split_at_neighbours ha hb] at hstep
    exact .head hstep ih

theorem cancelRule_edit (hflag : flags.removeInversePairs) (a b : Op P S) (change : PairEdit P S)
    (out : Pipeline P S) (h : cancelRule a b = .ok change) (hout : change.ops = some out) :
    Edit flags [a, b] out := by
  cases change with
  | leave => cases hout
  | drop =>
    obtain ⟨hinverse, _, hr⟩ := (cancelRule_eq_drop_iff a b).mp h
    refine .inverse hflag hinverse ?_
    rw [hr]
    exact hout
  | merge made =>
    obtain ⟨hinverse, _, r, hr, rfl⟩ := (cancelRule_eq_merge_iff a b made).mp h
    refine .inverse hflag hinverse ?_
    rw [hr]
    exact hout

theorem fuseRule_edit (hflag : flags.combine) (a b : Op P S) (change : PairEdit P S)
    (out : Pipeline P S) (h : fuseRule flags.composeTables a b = .ok change)
    (hout : change.ops = some out) : Edit flags [a, b] out := by
  unfold fuseRule at h
  split at h
  · rename_i hfuses
    rw [Bool.and_eq_true] at hfuses
    rcases hfused : a.fuse b with e | ds
    · rw [hfused] at h
      cases h
    · rw [hfused] at h
      have hds : ds = out ∧ ds.length < 2 := by
        rcases ds with _ | ⟨d, _ | ⟨d', ds⟩⟩
        · cases h
          cases hout
          exact ⟨rfl, by simp⟩
        · cases h
          cases hout
          exact ⟨rfl, by simp⟩
        · cases h
          cases hout
      obtain ⟨rfl, hlength⟩ := hds
      exact .fusion hflag hfuses.1 hfuses.2 hfused hlength
  · cases h
    cases hout

theorem withoutIdentity_steps (hflag : flags.removeIdentities) (op : Op P S) :
    Steps flags [op] (withoutIdentity op) := by
  unfold withoutIdentity
  split
  · rename_i hid
    split
    · rename_i hr
      exact (Edit.identity hflag hid (by rw [hr]; rfl)).steps
    · rename_i r hr
      exact (Edit.identity hflag hid (by rw [hr]; rfl)).steps
    · exact .refl
  · exact .refl

theorem flatMap_withoutIdentity_steps (hflag : flags.removeIdentities) (ops : Pipeline P S) :
    Steps flags ops (ops.flatMap withoutIdentity) := by
  induction ops with
  | nil => exact .refl
  | cons op ops ih =>
    have hhead := (withoutIdentity_steps hflag op).within_context [] ops
    have htail := ih.within_context (withoutIdentity op) []
    simp only [List.nil_append, List.append_nil] at hhead htail
    rw [List.flatMap_cons]
    exact .trans hhead htail

theorem Pass.steps {on : Bool} {rule : PairRule P S}
    (hrule : on → ∀ a b change out, rule a b = .ok change → change.ops = some out →
      Edit flags [a, b] out)
    {ops : Pipeline P S} {result : Attempt P (Pipeline P S)} (h : Pass on rule ops result) :
    Steps flags ops result.reached := by
  unfold Pass at h
  split at h
  · rename_i hon
    exact h.steps (hrule hon)
  · rw [h]

theorem tidied_steps (flags : OptimizationFlags) (ops : Pipeline P S) :
    Steps flags ops (tidied flags ops).reached := by
  rcases h : tidied flags ops with ⟨left, _ | e⟩
  · rcases tidied_eq_ok h with ⟨hflag, _, rfl⟩ | ⟨_, rfl⟩
    · exact flatMap_withoutIdentity_steps hflag ops
    · exact .refl
  · rw [tidied_eq_fault h]

theorem Round.steps {ops : Pipeline P S} {result : Attempt P (Pipeline P S)}
    (h : Round flags ops result) : Steps flags ops result.reached := by
  cases h with
  | unread hcancelled => exact hcancelled.steps cancelRule_edit
  | fault hcancelled hfused =>
    exact .trans (hcancelled.steps cancelRule_edit) (hfused.steps fuseRule_edit)
  | @done cancelled fused hcancelled hfused =>
    have htidied := tidied_steps flags fused
    exact .trans (hcancelled.steps cancelRule_edit) (.trans (hfused.steps fuseRule_edit) htidied)

theorem Rounds.steps {ops : Pipeline P S} {result : Attempt P (Pipeline P S)}
    (h : Rounds flags ops result) : Steps flags ops result.reached := by
  induction h with
  | last hround _ => exact hround.steps
  | more hround _ _ _ ih => exact .trans hround.steps ih

/-- A whole run is a chain of edits, also one that an error stops. -/
theorem Run.steps {ops : Pipeline P S} {result : Attempt P (Pipeline P S)}
    (h : Run flags ops result) : Steps flags ops result.reached := by
  have htidied := tidied_steps flags ops
  cases h with
  | skip _ => exact .refl
  | unread _ hleft =>
    rw [hleft] at htidied
    exact htidied
  | rounds _ hstart h =>
    rw [hstart] at htidied
    exact .trans htidied h.steps

/-- Whatever the optimizer leaves was reached by edits, also where an error stopped it. -/
theorem optimize_steps (flags : OptimizationFlags) (ops : Pipeline P S) :
    Steps flags ops (optimize flags ops).reached :=
  ((run_iff flags ops _).mpr rfl).steps

/-! ## Runs that no error stops -/

section Faults

variable {Good : Op P S → Prop}

/-- A walk whose edits are edits of the optimizer does not fail on ops with a property that
edits keep and under which its rule does not fail. -/
theorem Pass.fault_eq_none {on : Bool} {rule : PairRule P S}
    (hedit : ∀ old new, Edit flags old new → (∀ op ∈ old, Good op) → ∀ op ∈ new, Good op)
    (hrule : on → ∀ a b change out, rule a b = .ok change → change.ops = some out →
      Edit flags [a, b] out)
    (hok : ∀ a b, Good a → Good b → ∃ change, rule a b = .ok change)
    {ops : Pipeline P S} {result : Attempt P (Pipeline P S)} (h : Pass on rule ops result)
    (hops : ∀ op ∈ ops, Good op) : result.fault = none := by
  unfold Pass at h
  split at h
  · rename_i hon
    refine h.fault_eq_none ?_ hops
    intro a b ha hb
    obtain ⟨change, hchange⟩ := hok a b ha hb
    refine ⟨change, hchange, ?_⟩
    intro out hout
    refine hedit [a, b] out (hrule hon a b change out hchange hout) ?_
    exact List.forall_mem_cons.mpr ⟨ha, List.forall_mem_singleton.mpr hb⟩
  · rw [h]

omit [Stored P] in
theorem tidied_fault_eq_none (hidentity : ∀ op, Good op → op.data.readIdentity = .ok ())
    {ops : Pipeline P S} (hops : ∀ op ∈ ops, Good op) : (tidied flags ops).fault = none := by
  have hread : IdentitiesRead ops := fun op hop => hidentity op (hops op hop)
  unfold tidied removeIdentities
  rw [forM_eq_ok_iff.mpr hread]
  split <;> rfl

/-- A property of ops under which nothing of the optimizer fails: edits keep it, ops that have
it fuse where they are said to, and their grids can be read. -/
structure NoFaults (flags : OptimizationFlags) (Good : Op P S → Prop) : Prop where
  edit : ∀ old new, Edit flags old new → (∀ op ∈ old, Good op) → ∀ op ∈ new, Good op
  fuse : ∀ a b, Good a → Good b → ∃ change, fuseRule flags.composeTables a b = .ok change
  identity : ∀ op, Good op → op.data.readIdentity = .ok ()
  replacement : ∀ op, Good op → op.data.readReplacement = .ok ()

variable (hgood : NoFaults flags Good)
include hgood

/-- No round fails where no rule fails on good ops and edits keep them good. -/
theorem Round.fault_eq_none {ops : Pipeline P S} {result : Attempt P (Pipeline P S)}
    (h : Round flags ops result) (hops : ∀ op ∈ ops, Good op) : result.fault = none := by
  cases h with
  | unread hcancelled =>
    exact hcancelled.fault_eq_none hgood.edit cancelRule_edit
      (fun a b ha _ => exists_cancelRule_eq_ok b (hgood.replacement a ha)) hops
  | fault hcancelled hfused =>
    have hleft := (hcancelled.steps cancelRule_edit).forall_mem hgood.edit hops
    exact hfused.fault_eq_none hgood.edit fuseRule_edit hgood.fuse hleft
  | done hcancelled hfused =>
    have hleft := (hcancelled.steps cancelRule_edit).forall_mem hgood.edit hops
    exact tidied_fault_eq_none hgood.identity
      ((hfused.steps fuseRule_edit).forall_mem hgood.edit hleft)

theorem Rounds.fault_eq_none {ops : Pipeline P S} {result : Attempt P (Pipeline P S)}
    (h : Rounds flags ops result) (hops : ∀ op ∈ ops, Good op) : result.fault = none := by
  induction h with
  | last hround _ => exact hround.fault_eq_none hgood hops
  | more hround _ _ _ ih => exact ih (hround.steps.forall_mem hgood.edit hops)

theorem Run.fault_eq_none {ops : Pipeline P S} {result : Attempt P (Pipeline P S)}
    (h : Run flags ops result) (hops : ∀ op ∈ ops, Good op) : result.fault = none := by
  have htidied := tidied_steps flags ops
  have hnone : (tidied flags ops).fault = none := tidied_fault_eq_none hgood.identity hops
  cases h with
  | skip _ => rfl
  | unread _ hleft =>
    rw [hleft] at hnone
    exact hnone
  | rounds _ hstart h =>
    rw [hstart] at htidied
    exact h.fault_eq_none hgood (htidied.forall_mem hgood.edit hops)

/-- No error stops the optimizer on ops with a property under which nothing of it fails. -/
theorem optimize_fault_eq_none_of {ops : Pipeline P S} (hops : ∀ op ∈ ops, Good op) :
    (optimize flags ops).fault = none :=
  ((run_iff flags ops _).mpr rfl).fault_eq_none hgood hops

end Faults

end Passes

end Pipeline

end ColorPipeline
