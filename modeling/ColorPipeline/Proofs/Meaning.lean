-- The optimizer keeps what a pipeline does. What an op does is left open: any
-- reading of ops as functions on pixels will do, as long as every single rewrite
-- that the flags allow is right under it.
import ColorPipeline.Proofs.Provenance

namespace ColorPipeline

variable {P S X : Type}

/-! ## Readings -/

/-- What ops do one after the other, the first one first. -/
def composed (meaning : OpData P S → X → X) (ds : List (OpData P S)) (x : X) : X :=
  ds.foldl (fun y d => meaning d y) x

/-- The replacement does what `f` does. Nothing is said where the ops must stay. -/
def Replacement.StandsFor (meaning : OpData P S → X → X) (f : X → X) : Replacement P → Prop
  | .remove => f = id
  | .clamp r => f = meaning (.range r)
  | .keep => True

/-- Every rewrite that the flags allow is right under a reading of the ops. -/
structure Faithful [Scalar P] [Scalar S] [Stored P] [Precision P S] (flags : OptimizationFlags)
    (meaning : OpData P S → X → X) : Prop where
  identity : flags.removeIdentities → ∀ d : OpData P S, d.isIdentity →
    d.replacement.StandsFor meaning (meaning d)
  inverse : flags.removeInversePairs → ∀ a b : OpData P S, a.isInverse b →
    a.replacement.StandsFor meaning (meaning b ∘ meaning a)
  fusion : flags.combine → ∀ (a b : OpData P S) (ds : List (OpData P S)), a.canFuse b →
    (flags.composeTables || !a.fusionIsLossy b) → a.fuse b = .ok ds →
    composed meaning ds = meaning b ∘ meaning a

theorem composed_append (meaning : OpData P S → X → X) (ds es : List (OpData P S)) :
    composed meaning (ds ++ es) = composed meaning es ∘ composed meaning ds := by
  funext x
  unfold composed
  rw [List.foldl_append]
  rfl

theorem Replacement.StandsFor.composed_eq {meaning : OpData P S → X → X} {f : X → X}
    {r : Replacement P} {out : Pipeline P S} (h : r.StandsFor meaning f) (hout : r.ops = some out) :
    composed meaning (out.map Op.data) = f := by
  cases r with
  | remove =>
    cases hout
    rw [h]
    rfl
  | clamp r =>
    cases hout
    rw [h]
    rfl
  | keep => cases hout

/-! ## Readings that leave out what rewrites make -/

section Silent

variable {meaning : OpData P S → X → X}

/-- Where ranges mean nothing, every replacement stands for nothing. -/
theorem Replacement.standsFor_id (hrange : ∀ r : RangeOp P, meaning (.range r) = id)
    (r : Replacement P) : r.StandsFor meaning id := by
  cases r with
  | remove => rfl
  | clamp r => exact (hrange r).symm
  | keep => trivial

theorem composed_eq_id {ds : List (OpData P S)} (h : ∀ d ∈ ds, meaning d = id) :
    composed meaning ds = id := by
  induction ds with
  | nil => rfl
  | cons d ds ih =>
    rw [List.forall_mem_cons] at h
    unfold composed at ih ⊢
    funext x
    rw [List.foldl_cons, h.1]
    exact congrFun (ih h.2) x

/-- A reading under which the kinds that rewrites make do nothing is faithful, as long as
identities do nothing and inverse ops cancel. -/
theorem Faithful.of_silent [Scalar P] [Scalar S] [Stored P] [Precision P S]
    {flags : OptimizationFlags}
    (hmade : ∀ d : OpData P S, OptimizationFlags.all.canMake d.kind → meaning d = id)
    (hidentity : ∀ d : OpData P S, d.isIdentity → meaning d = id)
    (hinverse : ∀ a b : OpData P S, a.isInverse b → meaning b ∘ meaning a = id) :
    Faithful flags meaning where
  identity _ d hid := by
    rw [hidentity d hid]
    exact d.replacement.standsFor_id fun r => hmade (.range r) rfl
  inverse _ a b hab := by
    rw [hinverse a b hab]
    exact a.replacement.standsFor_id fun r => hmade (.range r) rfl
  fusion _ a b ds hfuses _ hds := by
    have hnew : ∀ d ∈ ds, meaning d = id := by
      intro d hd
      refine hmade d ?_
      rcases OpData.kind_of_mem_fuse hds hd with h | h | h | ⟨h, _⟩
      all_goals rw [h]; rfl
    have hab : OptimizationFlags.all.canMake a.kind ∧ OptimizationFlags.all.canMake b.kind := by
      unfold OpData.canFuse at hfuses
      split at hfuses
      case h_5 => cases hfuses
      all_goals exact ⟨rfl, rfl⟩
    rw [composed_eq_id hnew, hmade a hab.1, hmade b hab.2]
    rfl

end Silent

/-! ## A reading that counts -/

/-- Reads a pipeline as the number of logarithms it takes, where an inverse one counts as
one less. -/
def countLogs : OpData P S → Int → Int
  | .log ⟨_, .forward⟩ => fun n => n + 1
  | .log ⟨_, .inverse⟩ => fun n => n - 1
  | _ => id

theorem countLogs_of_kind {d : OpData P S} (h : d.kind ≠ .log) : countLogs d = id := by
  cases d with
  | log l => exact absurd rfl h
  | _ => rfl

theorem countLogs_inverse [Scalar P] [Scalar S] {a b : OpData P S} (h : a.isInverse b) :
    countLogs b ∘ countLogs a = id := by
  unfold OpData.isInverse at h
  split at h
  case h_4 l m =>
    obtain ⟨base, d⟩ := l
    obtain ⟨base', d'⟩ := m
    cases d <;> cases d'
    · simp [LogOp.isInverse] at h
    · funext n
      exact Int.add_sub_cancel n 1
    · funext n
      exact Int.sub_add_cancel n 1
    · simp [LogOp.isInverse] at h
  case h_8 => cases h
  all_goals rfl

/-- Counting logarithms up and down is a reading that every flag keeps. -/
theorem faithful_countLogs [Scalar P] [Scalar S] [Stored P] [Precision P S]
    (flags : OptimizationFlags) : Faithful flags (countLogs : OpData P S → Int → Int) := by
  refine .of_silent ?_ ?_ fun a b hab => countLogs_inverse hab
  · intro d hmade
    refine countLogs_of_kind ?_
    intro hlog
    rw [hlog] at hmade
    cases hmade
  · intro d hid
    refine countLogs_of_kind ?_
    intro hlog
    cases d <;> cases hlog
    cases hid

/-! ## The optimizer keeps readings -/

namespace Pipeline

variable [Scalar P] [Scalar S] [Stored P] [Precision P S] {flags : OptimizationFlags}
  {meaning : OpData P S → X → X}

/-- A reading that is faithful to every rule does not see an edit. -/
theorem Edit.composed_eq (h : Faithful flags meaning) {old new : Pipeline P S}
    (he : Edit flags old new) :
    composed meaning (new.map Op.data) = composed meaning (old.map Op.data) := by
  cases he with
  | @identity a out hflag hid hout => exact (h.identity hflag a.data hid).composed_eq hout
  | @inverse a b out hflag hinverse hout =>
    exact (h.inverse hflag a.data b.data hinverse).composed_eq hout
  | @fusion a b out hflag hfuses hlossy hout _ =>
    obtain ⟨ds, hds, rfl⟩ := Op.fuse_eq_ok hout
    unfold Op.fusionIsLossy at hlossy
    rw [hfuses, Bool.true_and] at hlossy
    rw [List.map_map, show Op.data ∘ (fun d => ({ data := d } : Op P S)) = id from rfl,
      List.map_id]
    exact h.fusion hflag a.data b.data ds hfuses hlossy hds

theorem Step.composed_eq (h : Faithful flags meaning) {xs ys : Pipeline P S}
    (hs : Step flags xs ys) :
    composed meaning (ys.map Op.data) = composed meaning (xs.map Op.data) := by
  obtain ⟨before, after, he⟩ := hs
  simp only [List.map_append, composed_append]
  rw [he.composed_eq h]

theorem Steps.composed_eq (h : Faithful flags meaning) {xs ys : Pipeline P S}
    (hs : Steps flags xs ys) :
    composed meaning (ys.map Op.data) = composed meaning (xs.map Op.data) := by
  induction hs with
  | refl => rfl
  | tail _ hstep ih => exact (hstep.composed_eq h).trans ih

/-- Under every reading that the single rewrites are right for, the pipeline that the
optimizer leaves does what the pipeline did. It makes no difference whether an error
stopped the optimizer: `reached` is what it leaves in both cases. -/
theorem the_optimizer_keeps_what_a_pipeline_does (flags : OptimizationFlags)
    (meaning : OpData P S → X → X) (h : Faithful flags meaning) (ops : Pipeline P S) :
    composed meaning ((optimize flags ops).reached.map Op.data) =
      composed meaning (ops.map Op.data) :=
  (optimize_steps flags ops).composed_eq h

end Pipeline

/-- Of the logarithms here the last two cancel, so one of them still counts. -/
theorem one_logarithm_is_left_to_count :
    Faithful .all (countLogs : OpData Float Float32 → Int → Int) ∧
      composed countLogs ((Pipeline.optimize .all ([⟨.log ⟨2, .forward⟩, none⟩,
        ⟨.log ⟨10, .forward⟩, none⟩, ⟨.matrix MatrixOp.identity, none⟩,
        ⟨.log ⟨10, .inverse⟩, none⟩] : Pipeline Float Float32)).reached.map Op.data) 0 = 1 := by
  refine ⟨faithful_countLogs .all, ?_⟩
  rw [Pipeline.the_optimizer_keeps_what_a_pipeline_does .all countLogs (faithful_countLogs .all)]
  rfl

end ColorPipeline
