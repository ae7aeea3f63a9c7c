-- A transform followed by its inverse leaves nothing. Logarithms and fixed functions
-- cancel as the letters of a free group do, so a pipeline of them spells a word. The
-- optimizer keeps what the word stands for, and a normal form spells a reduced word.
import ColorPipeline.Proofs.Directions
import ColorPipeline.Proofs.Equality
import ColorPipeline.Proofs.Meaning
import ColorPipeline.Proofs.NormalForm
import ColorPipeline.Proofs.Processors
import Mathlib.GroupTheory.FreeGroup.Reduce

namespace ColorPipeline

variable {P S : Type}

/-! ## Letters -/

theorem FixedFunctionOp.validate_iff_of_family [Scalar P] {f : FixedFunctionOp P}
    (h : f.style.family ≠ .surround2100) : f.validate = .ok () ↔ f.parameters = [] := by
  obtain ⟨style, parameters⟩ := f
  have hsurround : ¬ (isSurround ⟨style, parameters⟩ : Bool) := by simpa [isSurround] using h
  unfold validate
  rw [if_neg hsurround]
  cases parameters with
  | nil => simp
  | cons v vs => simp

/-- The numbers that a base is equal to, or a family of fixed functions, and whether the op
runs forward. -/
abbrev Letter (P : Type) := ((P → Bool) ⊕ FixedFunctionFamily) × Bool

/-- The letter that the free group cancels with this one. -/
def Letter.flip (k : Letter P) : Letter P := (k.1, !k.2)

namespace OpData

/-- The letter of a logarithm or of a fixed function without a gamma. -/
def letter [Scalar P] : OpData P S → Option (Letter P)
  | .log l => some (.inl fun v => l.base == v, l.direction == .forward)
  | .fixedFunction f =>
    if f.isSurround then none
    else some (.inr f.style.family, f.style.direction == .forward)
  | _ => none

/-- The word that ops spell. -/
def word [Scalar P] (ds : List (OpData P S)) : List (Letter P) := ds.filterMap letter

/-- The op is well-formed and has a letter. -/
def Reversible [Scalar P] [Scalar S] (d : OpData P S) : Prop :=
  d.validate = .ok () ∧ ∃ k, d.letter = some k

theorem letter_fixedFunction [Scalar P] {s : FixedFunctionStyle} {parameters : List P}
    (h : s.family ≠ .surround2100) :
    (fixedFunction ⟨s, parameters⟩ : OpData P S).letter =
      some (.inr s.family, s.direction == .forward) := by
  unfold letter FixedFunctionOp.isSurround
  exact if_neg fun hsurround => h (eq_of_beq hsurround)

/-- What undoes an op has its letter the other way round. -/
theorem letter_of_undoes [Scalar P] {a b : OpData P S} (h : a.Undoes b) :
    b.letter = a.letter.map Letter.flip := by
  have hinverse : ∀ c d : OpData P S, c.inverse = .ok d →
      d.letter = c.letter.map Letter.flip := by
    intro c d hd
    unfold inverse at hd
    split at hd
    · rename_i m
      rcases hm : m.inverse with e | n <;> rw [hm] at hd <;> cases hd
      rfl
    · cases hd
      rfl
    · rename_i e
      rcases he : e.inverse with e' | n <;> rw [he] at hd <;> cases hd
      rfl
    · rename_i l
      obtain ⟨base, direction⟩ := l
      cases hd
      cases direction <;> rfl
    · cases hd
      rfl
    · cases hd
      rfl
    · rename_i f
      obtain ⟨⟨family, direction⟩, parameters⟩ := f
      cases hd
      cases family <;> cases direction <;> rfl
  rcases h with h | h
  · exact hinverse a b h
  · rw [hinverse b a h, Option.map_map]
    simp [Function.comp_def, Letter.flip]

theorem word_of_undoes [Scalar P] {ds undone : List (OpData P S)}
    (h : List.Forall₂ Undoes ds undone.reverse) : word undone = FreeGroup.invRev (word ds) := by
  have hreverse : ∀ {xs ys : List (OpData P S)}, List.Forall₂ Undoes xs ys →
      word ys = (word xs).map Letter.flip := by
    intro xs ys hxs
    induction hxs with
    | nil => rfl
    | cons hd _ ih =>
      unfold word at ih ⊢
      rw [List.filterMap_cons, List.filterMap_cons, letter_of_undoes hd, ih]
      rcases letter _ with _ | k <;> rfl
  have hword := congrArg List.reverse (hreverse h)
  unfold word at hword ⊢
  rw [List.filterMap_reverse, List.reverse_reverse] at hword
  exact hword

theorem Reversible.cases [Scalar P] [Scalar S] {d : OpData P S} (h : d.Reversible) :
    (∃ l : LogOp P, d = .log l ∧ Scalar.isFinite l.base) ∨
      ∃ s : FixedFunctionStyle, d = .fixedFunction ⟨s, []⟩ ∧ s.family ≠ .surround2100 := by
  obtain ⟨hvalid, k, hk⟩ := h
  cases d with
  | log l =>
    left
    refine ⟨l, rfl, ?_⟩
    change l.validate = .ok () at hvalid
    unfold LogOp.validate at hvalid
    split at hvalid
    · cases hvalid
    · rename_i hbase
      rw [Bool.or_eq_true, not_or, Bool.not_eq_true', Bool.not_eq_false] at hbase
      exact hbase.1
  | fixedFunction f =>
    right
    obtain ⟨style, parameters⟩ := f
    by_cases hstyle : style.family = .surround2100
    · simp [letter, FixedFunctionOp.isSurround, hstyle] at hk
    · refine ⟨style, ?_, hstyle⟩
      obtain rfl : parameters = [] := (FixedFunctionOp.validate_iff_of_family hstyle).mp hvalid
      rfl
  | _ => cases hk

section Rewrites

variable [Scalar P] [Scalar S] {d : OpData P S}

theorem Reversible.isIdentity_eq (h : d.Reversible) : d.isIdentity = false := by
  rcases h.cases with ⟨l, rfl, _⟩ | ⟨s, rfl, hs⟩
  · rfl
  · simp [isIdentity, FixedFunctionOp.isIdentity]

theorem Reversible.replacement_eq [Precision P S] (h : d.Reversible) :
    d.replacement = .remove := by
  rcases h.cases with ⟨l, rfl, _⟩ | ⟨s, rfl, hs⟩ <;> rfl

theorem Reversible.gridFits (h : d.Reversible) : d.GridFits := by
  rcases h.cases with ⟨l, rfl, _⟩ | ⟨s, rfl, hs⟩ <;> trivial

theorem Reversible.canFuse_eq (h : d.Reversible) (e : OpData P S) : d.canFuse e = false := by
  rcases h.cases with ⟨l, rfl, _⟩ | ⟨s, rfl, hs⟩ <;> rfl

end Rewrites

/-- Only inverse letters are dropped together. -/
theorem letter_of_isInverse [Scalar P] [Scalar S] [LawfulEquality P] {a b : OpData P S}
    (h : a.isInverse b) : b.letter = a.letter.map Letter.flip := by
  unfold isInverse at h
  split at h
  case h_4 l m =>
    obtain ⟨base, d⟩ := l
    obtain ⟨base', e⟩ := m
    rw [LogOp.isInverse, Bool.and_eq_true] at h
    have hbase := LawfulEquality.beq_left_eq h.1
    simp only [letter, hbase, Option.map_some, Letter.flip]
    cases d <;> cases e <;> simp at h ⊢
  case h_7 f g =>
    rw [FixedFunctionOp.isInverse, Bool.or_eq_true, Bool.and_eq_true] at h
    rcases h with ⟨hstyle, _⟩ | hsurrounds
    · obtain ⟨⟨family, d⟩, parameters⟩ := f
      obtain ⟨⟨family', e⟩, parameters'⟩ := g
      cases eq_of_beq hstyle
      cases family <;> cases d <;> rfl
    · simp only [FixedFunctionOp.reciprocalSurrounds, Bool.and_eq_true, beq_iff_eq] at hsurrounds
      simp [letter, FixedFunctionOp.isSurround, hsurrounds.1.1, hsurrounds.1.2]
  case h_8 => cases h
  all_goals rfl

/-- Ops with letters are inverse where the letters cancel. -/
theorem Reversible.isInverse_iff [Scalar P] [Scalar S] [LawfulEquality P] {a b : OpData P S}
    (ha : a.Reversible) (hb : b.Reversible) :
    a.isInverse b ↔ b.letter = a.letter.map Letter.flip := by
  refine ⟨letter_of_isInverse, ?_⟩
  intro h
  rcases ha.cases with ⟨⟨base, d⟩, rfl, _⟩ | ⟨⟨family, d⟩, rfl, hs⟩ <;>
    rcases hb.cases with ⟨⟨base', e⟩, rfl, hfinite⟩ | ⟨⟨family', e⟩, rfl, ht⟩
  · have hbase : (fun v => base' == v) = fun v => base == v :=
      Sum.inl.inj (congrArg Prod.fst (Option.some.inj h))
    have hdirection : (e == .forward) = !(d == .forward) :=
      congrArg Prod.snd (Option.some.inj h)
    rw [isInverse, LogOp.isInverse, Bool.and_eq_true]
    refine ⟨(LawfulEquality.beq_iff hfinite).mpr hbase.symm, ?_⟩
    cases d <;> cases e <;> simp at hdirection ⊢
  · rw [letter_fixedFunction ht] at h
    cases congrArg Prod.fst (Option.some.inj h)
  · rw [letter_fixedFunction hs] at h
    cases congrArg Prod.fst (Option.some.inj h)
  · rw [letter_fixedFunction hs, letter_fixedFunction ht] at h
    obtain rfl : family' = family := Sum.inr.inj (congrArg Prod.fst (Option.some.inj h))
    have hdirection : (e == .forward) = !(d == .forward) :=
      congrArg Prod.snd (Option.some.inj h)
    rw [isInverse, FixedFunctionOp.isInverse]
    cases d <;> cases e <;> simp [FixedFunctionStyle.inverse, Direction.flip] at hdirection ⊢

end OpData

/-! ## Ops as moves in the free group -/

section Moves

variable [Scalar P]

/-- An op moves an element of the free group by its letter. -/
def turn (d : OpData P S) (x : FreeGroup ((P → Bool) ⊕ FixedFunctionFamily)) :
    FreeGroup ((P → Bool) ⊕ FixedFunctionFamily) :=
  match d.letter with
  | some k => x * FreeGroup.mk [k]
  | none => x

theorem turn_eq_id {d : OpData P S} (h : d.letter = none) : turn d = id := by
  funext x
  unfold turn
  rw [h]
  rfl

/-- A pipeline turns an element of the free group by its word. -/
theorem composed_turn (ds : List (OpData P S)) (x : FreeGroup ((P → Bool) ⊕ FixedFunctionFamily)) :
    composed turn ds x = x * FreeGroup.mk (OpData.word ds) := by
  induction ds generalizing x with
  | nil => exact (mul_one x).symm
  | cons d ds ih =>
    unfold composed OpData.word at ih ⊢
    rw [List.foldl_cons, ih, turn, List.filterMap_cons]
    rcases d.letter with _ | k
    · rfl
    · change x * FreeGroup.mk [k] * _ = x * FreeGroup.mk ([k] ++ _)
      rw [mul_assoc, FreeGroup.mul_mk]

theorem turn_inverse [Scalar S] [LawfulEquality P] {a b : OpData P S} (h : a.isInverse b) :
    turn b ∘ turn a = id := by
  have hletter := OpData.letter_of_isInverse h
  funext x
  rw [Function.comp_apply, turn, turn, hletter]
  rcases a.letter with _ | k
  · rfl
  · have hflip : (FreeGroup.mk [k])⁻¹ = FreeGroup.mk [k.flip] := FreeGroup.inv_mk
    simp only [Option.map_some, ← hflip, mul_inv_cancel_right, id]

/-- No rewrite changes the element that a word stands for. -/
theorem faithful_turn [Scalar S] [Stored P] [Precision P S] [LawfulEquality P]
    (flags : OptimizationFlags) : Faithful flags (turn : OpData P S → _ → _) := by
  refine .of_silent ?_ ?_ fun a b hab => turn_inverse hab
  · intro d hmade
    refine turn_eq_id ?_
    cases d <;> cases hmade <;> rfl
  · intro d hid
    refine turn_eq_id ?_
    cases d with
    | log l => cases hid
    | fixedFunction f =>
      change f.isIdentity = true at hid
      rw [FixedFunctionOp.isIdentity, Bool.and_eq_true] at hid
      exact if_pos hid.1
    | _ => rfl

end Moves

/-! ## What the optimizer leaves of a word -/

namespace Pipeline

variable [Scalar P] [Scalar S]

/-- Ops spell a reduced word where no op undoes the one before it. -/
theorem isReduced_word [LawfulEquality P] {ops : Pipeline P S}
    (hops : ∀ op ∈ ops, op.data.Reversible)
    (hleft : ∀ a b : Op P S, Adjacent ops a b → ¬ a.isInverse b) :
    FreeGroup.IsReduced (OpData.word (ops.map Op.data)) := by
  induction ops with
  | nil => exact .nil
  | cons a ops ih =>
    rw [List.forall_mem_cons] at hops
    have htail : ∀ b c : Op P S, Adjacent ops b c → Adjacent (a :: ops) b c := by
      rintro b c ⟨i, hb, hc⟩
      exact ⟨i + 1, hb, hc⟩
    have ih := ih hops.2 fun b c hbc => hleft b c (htail b c hbc)
    obtain ⟨j, hj⟩ := hops.1.2
    unfold OpData.word at ih ⊢
    cases ops with
    | nil => simp [hj]
    | cons b ops =>
      have hb := hops.2 b List.mem_cons_self
      obtain ⟨k, hk⟩ := hb.2
      simp only [List.map_cons, List.filterMap_cons, hj, hk] at ih ⊢
      rw [FreeGroup.isReduced_cons_cons]
      refine ⟨?_, ih⟩
      intro hsame
      by_contra hdirection
      refine hleft a b ⟨0, rfl, rfl⟩ ((hops.1.isInverse_iff hb).mpr ?_)
      rw [hj, hk, Option.map_some, Letter.flip, hsame, ← Bool.eq_not_of_ne (Ne.symm hdirection)]

variable [Stored P] [Precision P S] {flags : OptimizationFlags}

/-- Edits of ops with letters only drop ops. -/
theorem Edit.eq_nil_of_reversible {old new : Pipeline P S} (h : Edit flags old new)
    (hold : ∀ op ∈ old, op.data.Reversible) : new = [] := by
  cases h with
  | @identity a out _ hid hout =>
    rw [Op.isIdentity, (hold a List.mem_cons_self).isIdentity_eq] at hid
    cases hid
  | @inverse a b out _ _ hout =>
    rw [(hold a List.mem_cons_self).replacement_eq] at hout
    cases hout
    rfl
  | @fusion a b out _ hfuses _ _ _ =>
    rw [Op.canFuse, (hold a List.mem_cons_self).canFuse_eq] at hfuses
    cases hfuses

/-- A word that reduces to nothing leaves no op: what is left is reduced, and no reduced word but
the empty one is trivial. -/
theorem optimize_eq_nil [LawfulEquality P] {ops : Pipeline P S}
    (hops : ∀ op ∈ ops, op.data.Reversible) (hflag : flags.removeInversePairs)
    (hword : FreeGroup.mk (OpData.word (ops.map Op.data)) = 1) :
    optimize flags ops = ⟨[], none⟩ := by
  have hedit : ∀ old new : Pipeline P S, Edit flags old new →
      (∀ op ∈ old, op.data.Reversible) → ∀ op ∈ new, op.data.Reversible := by
    intro old new he hold
    rw [he.eq_nil_of_reversible hold]
    exact List.forall_mem_nil _
  have hfuse : ∀ a b : Op P S, a.data.Reversible → b.data.Reversible →
      ∃ change, fuseRule flags.composeTables a b = .ok change := by
    intro a b ha _
    refine ⟨.leave, (fuseRule_eq_leave_iff flags.composeTables a b).mpr ?_⟩
    intro hfuses
    rw [Op.canFuse, ha.canFuse_eq] at hfuses
    cases hfuses
  have hgood : NoFaults flags fun op : Op P S => op.data.Reversible :=
    ⟨hedit, hfuse, fun _ h => OpData.readIdentity_eq_ok h.1 h.gridFits,
      fun _ h => OpData.readReplacement_eq_ok h.1 h.gridFits⟩
  have hfault := optimize_fault_eq_none_of hgood hops
  have hreached := (optimize_steps flags ops).forall_mem hedit hops
  have hnormal := (((run_iff flags ops _).mpr rfl).normal hfault).1
  -- nothing that is left undoes its neighbour, so the word that is left is the shortest one for
  -- what it does, and what it does is still nothing
  have hreduced : FreeGroup.IsReduced (OpData.word ((optimize flags ops).reached.map Op.data)) := by
    refine isReduced_word hreached ?_
    intro a b hab hinverse
    have hkeep := hnormal.inverse hflag a b hab hinverse
    obtain ⟨i, ha, _⟩ := hab
    rw [(hreached a (List.mem_of_getElem? ha)).replacement_eq] at hkeep
    cases hkeep
  have hkept := congrFun ((optimize_steps flags ops).composed_eq (faithful_turn flags)) 1
  rw [composed_turn, composed_turn, hword, mul_one, one_mul] at hkept
  have hnil : OpData.word ((optimize flags ops).reached.map Op.data) = [] := by
    classical
    have hreduce := congrArg FreeGroup.toWord hkept
    rwa [FreeGroup.toWord_mk, hreduced.reduce_eq, FreeGroup.toWord_one] at hreduce
  have hempty : (optimize flags ops).reached = [] := by
    rw [List.eq_nil_iff_forall_not_mem]
    intro op hop
    obtain ⟨k, hk⟩ := (hreached op hop).2
    have hmem : k ∈ OpData.word ((optimize flags ops).reached.map Op.data) :=
      List.mem_filterMap.mpr ⟨op.data, List.mem_map_of_mem hop, hk⟩
    rw [hnil] at hmem
    cases hmem
  calc optimize flags ops = ⟨(optimize flags ops).reached, (optimize flags ops).fault⟩ := rfl
    _ = ⟨[], none⟩ := by rw [hempty, hfault]

end Pipeline

/-- Ops that spell the word of nothing make an empty processor. -/
theorem Processor.ofOps_eq_empty [Scalar P] [Scalar S] [Stored P] [Precision P S]
    [LawfulEquality P] {flags : OptimizationFlags} {ds : List (OpData P S)}
    (hds : ∀ d ∈ ds, d.Reversible) (hflag : flags.removeInversePairs)
    (hword : FreeGroup.mk (OpData.word ds) = 1) :
    ofOps (ds.map fun data => { data }) flags = .ok ⟨[]⟩ := by
  let ops : Pipeline P S := ds.map fun data => { data }
  have hdata : (ops.map Op.withId).map Op.data = ds := by simp [ops, Function.comp_def, Op.withId]
  have hops : ∀ op ∈ ops.map Op.withId, op.data.Reversible := by
    rw [← List.forall_mem_map (f := Op.data) (P := OpData.Reversible), hdata]
    exact hds
  have hchecked : ops.finalize.toExcept = .ok (ops.map Op.withId) := by
    refine (Pipeline.finalize_eq_iff ?_).mpr ⟨?_, rfl⟩
    · intro op hop
      obtain ⟨d, _, rfl⟩ := List.mem_map.mp hop
      exact .new d
    · intro op hop
      obtain ⟨d, hd, rfl⟩ := List.mem_map.mp hop
      exact (hds d hd).1
  have hoptimized : Pipeline.optimize flags (ops.map Op.withId) = ⟨[], none⟩ :=
    Pipeline.optimize_eq_nil hops hflag (by rw [hdata, hword])
  unfold ofOps
  simp only [ops] at hchecked hoptimized
  rw [hchecked]
  simp only [bind, Except.bind, hoptimized]
  rfl

/-! ## Transforms and their inverses -/

/-- A well-formed logarithm, or a well-formed fixed function that is no surround. -/
def TransformStep.Reversible [Scalar P] : TransformStep P S → Prop
  | .log base => (⟨base, .forward⟩ : LogOp P).validate = .ok ()
  | .fixedFunction f => f.style.family ≠ .surround2100 ∧ f.validate = .ok ()
  | _ => False

namespace Transform

/-- All steps of a transform have a property, at any depth. -/
inductive All (p : TransformStep P S → Prop) : Transform P S → Prop
  | step {s : TransformStep P S} (d : Direction) : p s → All p (.step s d)
  | group {items : List (Transform P S)} (d : Direction) :
      (∀ t ∈ items, All p t) → All p (.group items d)

section Building

variable [Scalar P] [Scalar S] [Stored S] [Precision P S] {files : String → Option ByteArray}

theorem exists_build_step {s : TransformStep P S} (h : s.Reversible) (d : Direction) :
    ∃ ops, s.build files d = ⟨ops, none⟩ ∧ ∀ op ∈ ops, op.Reversible := by
  unfold TransformStep.Reversible at h
  split at h
  · rename_i base
    have hop : ∀ e : Direction, (OpData.log ⟨base, e⟩ : OpData P S).Reversible :=
      fun e => ⟨h, _, rfl⟩
    cases d with
    | forward => exact ⟨_, rfl, List.forall_mem_singleton.mpr (hop .forward)⟩
    | inverse => exact ⟨_, rfl, List.forall_mem_singleton.mpr (hop .inverse)⟩
  · rename_i f
    obtain ⟨style, parameters⟩ := f
    obtain rfl : parameters = [] := (FixedFunctionOp.validate_iff_of_family h.1).mp h.2
    have hop : ∀ e : Direction,
        (OpData.fixedFunction ⟨⟨style.family, e⟩, []⟩ : OpData P S).Reversible := by
      intro e
      exact ⟨(FixedFunctionOp.validate_iff_of_family h.1).mpr rfl, _,
        OpData.letter_fixedFunction h.1⟩
    cases d with
    | forward => exact ⟨_, rfl, List.forall_mem_singleton.mpr (hop style.direction)⟩
    | inverse => exact ⟨_, rfl, List.forall_mem_singleton.mpr (hop style.direction.flip)⟩
  · cases h

theorem exists_build {t : Transform P S} (h : t.All TransformStep.Reversible) (d : Direction) :
    ∃ ops, t.build files d = ⟨ops, none⟩ ∧ ∀ op ∈ ops, op.Reversible := by
  induction t using Transform.induction generalizing d with
  | step s e =>
    cases h with
    | step _ hs => exact exists_build_step hs (e.within d)
  | group items e ih =>
    cases h with
    | group _ hitems =>
      have heach : ∀ d, ∀ a ∈ buildEach files items d,
          ∃ ops, a = ⟨ops, none⟩ ∧ ∀ op ∈ ops, op.Reversible := by
        intro d a ha
        rw [buildEach_eq_map] at ha
        obtain ⟨t, ht, rfl⟩ := List.mem_map.mp ha
        exact ih t ht (hitems t ht) d
      unfold build
      split
      · exact Attempt.exists_concat_eq_done (heach .forward)
      · refine Attempt.exists_concat_eq_done ?_
        intro a ha
        exact heach .inverse a (List.mem_reverse.mp ha)

/-- In either direction the ops of a transform come first, and then those that undo them. -/
theorem buildList_inverse (t : Transform P S) (d : Direction) :
    buildList files [t, t.inverse] d =
      (t.build files .forward).append (t.build files .inverse) := by
  cases d <;> simp [buildList, Attempt.concat, inverse_build, Direction.flip]

end Building

/-- A transform of well-formed logarithms and fixed functions without gammas, in groups of
any depth, followed by its inverse: where inverse neighbours are dropped, the processor of the
two has no op left, whatever cancels first. -/
theorem a_transform_and_its_inverse_leave_nothing [Scalar P] [Scalar S] [Stored P] [Stored S]
    [Precision P S] [LawfulEquality P] (files : String → Option ByteArray)
    (flags : OptimizationFlags) (t : Transform P S) (d : Direction)
    (ht : t.All TransformStep.Reversible) (hflag : flags.removeInversePairs) :
    ∃ p, Processor.ofTransforms files [t, t.inverse] d flags = .ok p ∧ p.ops = [] ∧
      p.cacheId = "[]" := by
  obtain ⟨ops, hbuild, hops⟩ : ∃ ops, t.build files .forward = ⟨ops, none⟩ ∧ _ :=
    exists_build ht .forward
  obtain ⟨undone, hinverse, hundone⟩ : ∃ ops, t.build files .inverse = ⟨ops, none⟩ ∧ _ :=
    exists_build ht .inverse
  have hlist : (buildList files [t, t.inverse] d).toExcept = .ok (ops ++ undone) := by
    rw [buildList_inverse, hbuild, hinverse]
    rfl
  have hall : ∀ op ∈ ops ++ undone, op.Reversible := List.forall_mem_append.mpr ⟨hops, hundone⟩
  have hword : FreeGroup.mk (OpData.word (ops ++ undone)) = 1 := by
    have hundo := OpData.word_of_undoes (undoes_of_build hbuild hinverse)
    unfold OpData.word at hundo ⊢
    rw [List.filterMap_append, hundo, ← FreeGroup.mul_mk, ← FreeGroup.inv_mk, mul_inv_cancel]
  refine ⟨⟨[]⟩, ?_, rfl, rfl⟩
  unfold Processor.ofTransforms
  rw [hlist]
  exact Processor.ofOps_eq_empty hall hflag hword

/-- A logarithm, then an inverse group in which two others cancel before a conversion from
HSV. -/
def nestedLogs : Transform Float Float32 :=
  .group [.step (.log 2) .forward,
    .group [.step (.log 10) .forward, .step (.log 10) .inverse,
      .step (.fixedFunction ⟨⟨.hsv, .inverse⟩, []⟩) .forward] .inverse] .forward

theorem nested_logarithms_leave_nothing :
    nestedLogs.All TransformStep.Reversible ∧
      ∃ p, Processor.ofTransforms (fun _ => none) [nestedLogs, nestedLogs.inverse] .inverse
        (.ofBits 2) = .ok p ∧ p.ops = [] ∧ p.cacheId = "[]" := by
  have hbase : ∀ base : Float, Scalar.isFinite base ∧ ¬ base ≤ 0 ∧ (base == 1) = false →
      (⟨base, .forward⟩ : LogOp Float).validate = .ok () := by
    rintro base ⟨hfinite, hpositive, hone⟩
    simp [LogOp.validate, hfinite, hpositive, hone]
  have htwo := hbase 2 (by decide +kernel)
  have hten := hbase 10 (by decide +kernel)
  have hhsv : (FixedFunctionOp.validate ⟨⟨.hsv, .inverse⟩, []⟩ : Except (OpError Float) Unit) =
      .ok () := rfl
  have hall : nestedLogs.All TransformStep.Reversible := by
    refine .group _ (List.forall_mem_cons.mpr ⟨.step _ htwo, List.forall_mem_singleton.mpr ?_⟩)
    refine .group _ (List.forall_mem_cons.mpr ⟨.step _ hten, List.forall_mem_cons.mpr ⟨?_, ?_⟩⟩)
    · exact .step _ hten
    · exact List.forall_mem_singleton.mpr (.step _ ⟨nofun, hhsv⟩)
  exact ⟨hall, a_transform_and_its_inverse_leave_nothing _ _ nestedLogs .inverse hall rfl⟩

end Transform

end ColorPipeline
