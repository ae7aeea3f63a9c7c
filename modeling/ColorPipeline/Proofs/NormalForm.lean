-- The optimizer ends in a normal form: nothing is left that its rewrites would
-- change. A last round leaves the length as it was, and then it changed nothing
-- at all, since identities were gone before it began.
import ColorPipeline.Proofs.Walks
import Mathlib.Data.List.Basic

namespace ColorPipeline

variable {P S : Type}

namespace Pipeline

/-- The second op comes right after the first. -/
def Adjacent (ops : Pipeline P S) (a b : Op P S) : Prop :=
  ∃ i : Nat, ops[i]? = some a ∧ ops[i + 1]? = some b

/-- A rule leaves all neighbours of a pipeline. -/
def Settled (rule : PairRule P S) (ops : Pipeline P S) : Prop :=
  ∀ a b : Op P S, Adjacent ops a b → rule a b = .ok .leave

/-- Where the flags ask for that, identities that are left must stay. -/
def Tidy [Scalar P] [Scalar S] [Precision P S] (flags : OptimizationFlags)
    (ops : Pipeline P S) : Prop :=
  flags.removeIdentities → ∀ op ∈ ops, op.isIdentity → op.data.replacement = .keep

/-- What the flags ask for is done: identities that are left must stay, and so must
inverse neighbours, and neighbours that fuse would not become fewer. -/
structure Normal [Scalar P] [Scalar S] [Stored P] [Precision P S] (flags : OptimizationFlags)
    (ops : Pipeline P S) : Prop where
  identity : Tidy flags ops
  inverse : flags.removeInversePairs → ∀ a b : Op P S, Adjacent ops a b → a.isInverse b →
    a.data.replacement = .keep
  fusion : flags.combine → ∀ a b : Op P S, Adjacent ops a b → a.canFuse b →
    (flags.composeTables || !a.fusionIsLossy b) → ∃ out, a.fuse b = .ok out ∧ 2 ≤ out.length

/-- The grids that the optimizer looks at in a normal form can be read. -/
structure Legible [Scalar P] [Scalar S] (flags : OptimizationFlags) (ops : Pipeline P S) :
    Prop where
  identity : flags.removeIdentities → IdentitiesRead ops
  replacement : flags.removeInversePairs → ∀ a b : Op P S, Adjacent ops a b → a.isInverse b →
    a.data.readReplacement = .ok ()

/-! ## A walk settles its rule -/

/-- The rule leaves the neighbours at all positions below `i`. -/
def SettledBelow (rule : PairRule P S) (ops : Pipeline P S) (i : Nat) : Prop :=
  ∀ j < i, ∀ a b : Op P S, ops[j]? = some a → ops[j + 1]? = some b → rule a b = .ok .leave

theorem settledBelow_succ {rule : PairRule P S} {ops : Pipeline P S} {i : Nat} {a b : Op P S}
    (h : SettledBelow rule ops i) (ha : ops[i]? = some a) (hb : ops[i + 1]? = some b)
    (hleave : rule a b = .ok .leave) : SettledBelow rule ops (i + 1) := by
  intro j hj c d hc hd
  rcases Nat.lt_succ_iff_lt_or_eq.mp hj with hj | rfl
  · exact h j hj c d hc hd
  · rw [ha] at hc
    rw [hb] at hd
    cases hc
    cases hd
    exact hleave

/-- An edit at `i` keeps what stands below `i`, so only the position before it has to be
looked at again. -/
theorem settledBelow_edit {rule : PairRule P S} {ops out : Pipeline P S} {i : Nat}
    (h : SettledBelow rule ops i) (hi : i < ops.length) :
    SettledBelow rule (ops.take i ++ out ++ ops.drop (i + 2)) (i - 1) := by
  intro j hj c d hc hd
  have hlength : (ops.take i).length = i := List.length_take_of_le (Nat.le_of_lt hi)
  rw [List.append_assoc, List.getElem?_append_left (by omega), List.getElem?_take] at hc hd
  rw [if_pos (by omega)] at hc hd
  exact h j (by omega) c d hc hd

/-- A walk that reaches the end has left every pair behind it alone. -/
theorem Walk.settled {rule : PairRule P S} {ops : Pipeline P S} {i : Nat}
    {result : Attempt P (Pipeline P S)} (h : Walk rule ops i result)
    (hbelow : SettledBelow rule ops i) (hfault : result.fault = none) :
    Settled rule result.reached := by
  -- what is settled below the walk stays so: an edit can only unsettle the position
  -- before it, and the walk goes back there
  induction h with
  | @finish ops i hend =>
    rintro a b ⟨j, ha, hb⟩
    obtain ⟨hj, _⟩ := List.getElem?_eq_some_iff.mp hb
    change j + 1 < ops.length at hj
    exact hbelow j (by omega) a b ha hb
  | fault _ _ _ => cases hfault
  | leave ha hb hleave _ ih => exact ih (settledBelow_succ hbelow ha hb hleave) hfault
  | edit ha _ _ _ _ ih =>
    obtain ⟨hi, _⟩ := List.getElem?_eq_some_iff.mp ha
    exact ih (settledBelow_edit hbelow hi) hfault

theorem Pass.settled {on : Bool} {rule : PairRule P S} {ops : Pipeline P S}
    {result : Attempt P (Pipeline P S)} (h : Pass on rule ops result)
    (hfault : result.fault = none) (hon : on) : Settled rule result.reached := by
  unfold Pass at h
  rw [if_pos hon] at h
  exact h.settled (fun j hj => absurd hj (Nat.not_lt_zero j)) hfault

/-- A walk over a settled pipeline changes nothing. -/
theorem editPairs_of_settled {rule : PairRule P S} {ops : Pipeline P S} (h : Settled rule ops) :
    editPairs rule [] ops = ⟨ops, none⟩ := by
  have hwalk : ∀ n i, ops.length ≤ i + n → Walk rule ops i ⟨ops, none⟩ := by
    intro n
    induction n with
    | zero =>
      intro i hi
      exact .finish (by omega)
    | succ n ih =>
      intro i hi
      by_cases hend : ops.length ≤ i + 1
      · exact .finish hend
      · have hi : i < ops.length := by omega
        have hj : i + 1 < ops.length := by omega
        have ha : ops[i]? = some ops[i] := List.getElem?_eq_getElem hi
        have hb : ops[i + 1]? = some ops[i + 1] := List.getElem?_eq_getElem hj
        exact .leave ha hb (h _ _ ⟨i, ha, hb⟩) (ih (i + 1) (by omega))
  exact ((walk_iff rule ops _).mp (hwalk ops.length 0 (by omega))).symm

/-! ## Identities are gone before a round begins -/

section Identities

variable [Scalar P] [Scalar S] [Precision P S]

/-- Limits that take the place of an op are limits on some side. -/
theorem hasBounds_of_replacement {d : OpData P S} {r : RangeOp P}
    (h : d.replacement = .clamp r) : r.hasBounds := by
  unfold OpData.replacement at h
  split at h
  · split at h
    · rename_i hbounds
      cases h
      exact hbounds
    · cases h
  · unfold Lut1DOp.replacement at h
    split at h
    · cases h
      rfl
    · split at h
      · cases h
        rfl
      · cases h
  · unfold Lut3DOp.replacement at h
    split at h
    · cases h
    · cases h
      rfl
  · cases h

theorem keep_of_mem_withoutIdentity {op other : Op P S} (h : other ∈ withoutIdentity op)
    (hid : other.isIdentity) : other.data.replacement = .keep := by
  unfold withoutIdentity at h
  split at h
  · split at h
    · cases h
    · rename_i r hr
      rw [List.mem_singleton.mp h] at hid
      have hbounds := hasBounds_of_replacement hr
      simp [Op.isIdentity, OpData.isIdentity, RangeOp.isIdentity, hbounds] at hid
    · rename_i hkeep
      rw [List.mem_singleton.mp h]
      exact hkeep
  · rename_i hop
    rw [List.mem_singleton.mp h] at hid
    exact absurd hid hop

theorem tidy_of_tidied {flags : OptimizationFlags} {ops left : Pipeline P S}
    (h : tidied flags ops = ⟨left, none⟩) : Tidy flags left := by
  intro hflag op hop hid
  rcases tidied_eq_ok h with ⟨_, _, rfl⟩ | ⟨hoff, _⟩
  · obtain ⟨_, _, hmem⟩ := List.mem_flatMap.mp hop
    exact keep_of_mem_withoutIdentity hmem hid
  · exact absurd hflag hoff

theorem flatMap_withoutIdentity_of_tidy {flags : OptimizationFlags} {ops : Pipeline P S}
    (h : Tidy flags ops) (hflag : flags.removeIdentities) :
    ops.flatMap withoutIdentity = ops := by
  have hop : ∀ op ∈ ops, withoutIdentity op = [op] := by
    intro op hop
    unfold withoutIdentity
    split
    · rename_i hid
      rw [h hflag op hop hid]
    · rfl
  rw [List.flatMap_congr hop, List.flatMap_singleton']

theorem tidied_of_tidy {flags : OptimizationFlags} {ops : Pipeline P S} (h : Tidy flags ops)
    (hread : flags.removeIdentities → IdentitiesRead ops) : tidied flags ops = ⟨ops, none⟩ := by
  unfold tidied
  split
  · rename_i hflag
    unfold removeIdentities
    rw [forM_eq_ok_iff.mpr (hread hflag)]
    change Attempt.mk (ops.flatMap withoutIdentity) none = _
    rw [flatMap_withoutIdentity_of_tidy h hflag]
  · rfl

end Identities

/-! ## The last round -/

section LastRound

/-- A pair that can be fused is left only where fusing makes no progress. -/
theorem fuseRule_eq_leave_iff [Scalar P] [Scalar S] [Stored P] (allowLossy : Bool) (a b : Op P S) :
    fuseRule allowLossy a b = .ok .leave ↔
      (a.canFuse b → (allowLossy || !a.fusionIsLossy b) →
        ∃ out, a.fuse b = .ok out ∧ 2 ≤ out.length) := by
  unfold fuseRule
  split
  · rename_i hfuses
    rw [Bool.and_eq_true] at hfuses
    simp only [hfuses.1, hfuses.2, forall_const]
    rcases hfused : a.fuse b with e | ds
    · constructor
      · intro h
        cases h
      · rintro ⟨out, hout, _⟩
        cases hout
    · -- neighbours that fuse into two ops or more are left as they are
      rcases ds with _ | ⟨d, _ | ⟨d', ds⟩⟩
      · constructor
        · intro h
          cases h
        · rintro ⟨out, hout, hlength⟩
          cases hout
          simp at hlength
      · constructor
        · intro h
          cases h
        · rintro ⟨out, hout, hlength⟩
          cases hout
          simp at hlength
      · constructor
        · intro _
          exact ⟨_, rfl, by simp⟩
        · intro _
          rfl
  · rename_i hfuses
    rw [Bool.and_eq_true] at hfuses
    constructor
    · intro _ hcan hlossy
      exact absurd ⟨hcan, hlossy⟩ hfuses
    · intro _
      rfl

variable [Scalar P] [Scalar S] [Stored P] [Precision P S] {flags : OptimizationFlags}

theorem Round.tidy {ops : Pipeline P S} {result : Attempt P (Pipeline P S)}
    (h : Round flags ops result) (hfault : result.fault = none) : Tidy flags result.reached := by
  cases h with
  | unread _ => cases hfault
  | fault _ _ => cases hfault
  | @done cancelled fused _ _ =>
    rcases htidied : tidied flags fused with ⟨left, _ | e⟩
    · exact tidy_of_tidied htidied
    · rw [htidied] at hfault
      cases hfault

/-- A round that keeps the length of a tidy pipeline changed nothing: each of its passes
makes the pipeline shorter or leaves it alone. -/
theorem Round.unchanged {ops : Pipeline P S} {result : Attempt P (Pipeline P S)}
    (h : Round flags ops result) (htidy : Tidy flags ops) (hfault : result.fault = none)
    (hlength : result.reached.length = ops.length) :
    result.reached = ops ∧ Normal flags ops ∧ Legible flags ops := by
  cases h with
  | unread _ => cases hfault
  | fault _ _ => cases hfault
  | @done cancelled fused hcancelled hfused =>
    have htidied := length_tidied_le flags fused
    have hfuses : fused = cancelled ∨ fused.length < cancelled.length := hfused.eq_or_shorter
    have hcancels : cancelled = ops ∨ cancelled.length < ops.length := hcancelled.eq_or_shorter
    -- lengths only go down, from the start over both walks to the end of the round, so
    -- equal lengths at both ends leave no room for an edit in between
    obtain rfl : fused = cancelled := by
      rcases hfuses with h | h
      · exact h
      · have := hcancelled.length_le
        simp only at this
        omega
    obtain rfl : fused = ops := by
      rcases hcancels with h | h
      · exact h
      · omega
    have hleave (hflag : flags.removeInversePairs) (a b : Op P S) (hab : Adjacent fused a b) :=
      (cancelRule_eq_leave_iff a b).mp (hcancelled.settled rfl hflag a b hab)
    have hread : flags.removeIdentities → IdentitiesRead fused := by
      intro hflag
      rcases hleft : tidied flags fused with ⟨left, _ | e⟩
      · rcases tidied_eq_ok hleft with ⟨_, hread, _⟩ | ⟨hoff, _⟩
        · exact hread
        · exact absurd hflag hoff
      · rw [hleft] at hfault
        cases hfault
    refine ⟨?_, ⟨htidy, ?_, ?_⟩, hread, ?_⟩
    · rw [tidied_of_tidy htidy hread]
    · intro hflag a b hab hinverse
      exact (hleave hflag a b hab hinverse).2
    · intro hflag a b hab
      exact (fuseRule_eq_leave_iff flags.composeTables a b).mp (hfused.settled rfl hflag a b hab)
    · intro hflag a b hab hinverse
      exact (hleave hflag a b hab hinverse).1

/-- The last round has changed nothing, so each of its passes has settled its rule. -/
theorem Rounds.normal {ops : Pipeline P S} {result : Attempt P (Pipeline P S)}
    (h : Rounds flags ops result) (htidy : Tidy flags ops) (hfault : result.fault = none) :
    Normal flags result.reached ∧ Legible flags result.reached := by
  induction h with
  | last hround hlast =>
    rw [hfault] at hlast
    have hlength := hlast.resolve_left Bool.false_ne_true
    obtain ⟨hreached, hnormal⟩ := hround.unchanged htidy hfault hlength
    rw [hreached]
    exact hnormal
  | more hround hnext _ _ ih => exact ih (hround.tidy hnext) hfault

theorem normal_of_isEmpty {ops : Pipeline P S} (h : flags.isEmpty ∨ ops.isEmpty) :
    Normal flags ops ∧ Legible flags ops := by
  rcases h with h | h
  · have hflags : flags = ⟨false, false, false, false⟩ := beq_iff_eq.mp h
    rw [hflags]
    exact ⟨⟨nofun, nofun, nofun⟩, nofun, nofun⟩
  · rw [List.isEmpty_iff.mp h]
    refine ⟨⟨?_, ?_, ?_⟩, ?_, ?_⟩
    · intro _ op hop
      cases hop
    · rintro _ _ _ ⟨_, ha, _⟩
      cases ha
    · rintro _ _ _ ⟨_, ha, _⟩
      cases ha
    · intro _ op hop
      cases hop
    · rintro _ _ _ ⟨_, ha, _⟩
      cases ha

theorem Run.normal {ops : Pipeline P S} {result : Attempt P (Pipeline P S)}
    (h : Run flags ops result) (hfault : result.fault = none) :
    Normal flags result.reached ∧ Legible flags result.reached := by
  cases h with
  | skip hempty => exact normal_of_isEmpty hempty
  | unread _ _ => cases hfault
  | rounds _ hstart h => exact h.normal (tidy_of_tidied hstart) hfault

end LastRound

/-! ## A normal form stays as it is -/

section Again

theorem Adjacent.of_data {ops again : Pipeline P S} {a b : Op P S}
    (hdata : again.map Op.data = ops.map Op.data) (h : Adjacent again a b) :
    ∃ c d : Op P S, Adjacent ops c d ∧ c.data = a.data ∧ d.data = b.data := by
  have hget : ∀ (i : Nat) (op : Op P S), again[i]? = some op →
      ∃ old, ops[i]? = some old ∧ old.data = op.data := by
    intro i op hop
    have hi : (ops.map Op.data)[i]? = some op.data := by
      rw [← hdata, List.getElem?_map, hop]
      rfl
    rw [List.getElem?_map] at hi
    exact Option.map_eq_some_iff.mp hi
  obtain ⟨i, ha, hb⟩ := h
  obtain ⟨c, hc, hca⟩ := hget i a ha
  obtain ⟨d, hd, hdb⟩ := hget (i + 1) b hb
  exact ⟨c, d, ⟨i, hc, hd⟩, hca, hdb⟩

variable [Scalar P] [Scalar S] [Stored P] [Precision P S] {flags : OptimizationFlags}

/-- A normal form has to do with the parameters of ops alone, not with their IDs. -/
theorem Normal.of_data {ops again : Pipeline P S} (h : Normal flags ops)
    (hdata : again.map Op.data = ops.map Op.data) : Normal flags again where
  identity hflag op hop hid := by
    have hmem : op.data ∈ ops.map Op.data := by
      rw [← hdata]
      exact List.mem_map_of_mem hop
    obtain ⟨old, hold, heq⟩ := List.mem_map.mp hmem
    unfold Op.isIdentity at hid
    rw [← heq] at hid ⊢
    exact h.identity hflag old hold hid
  inverse hflag a b hab hinverse := by
    obtain ⟨c, d, hcd, hca, hdb⟩ := hab.of_data hdata
    unfold Op.isInverse at hinverse
    rw [← hca, ← hdb] at hinverse
    rw [← hca]
    exact h.inverse hflag c d hcd hinverse
  fusion hflag a b hab := by
    obtain ⟨c, d, hcd, hca, hdb⟩ := hab.of_data hdata
    have := h.fusion hflag c d hcd
    simp only [Op.fusionIsLossy, Op.fuse, Op.canFuse, Op.kind, hca, hdb] at this ⊢
    exact this

omit [Stored P] [Precision P S] in
theorem Legible.of_data {ops again : Pipeline P S} (h : Legible flags ops)
    (hdata : again.map Op.data = ops.map Op.data) : Legible flags again where
  identity hflag op hop := by
    have hmem : op.data ∈ ops.map Op.data := by
      rw [← hdata]
      exact List.mem_map_of_mem hop
    obtain ⟨old, hold, heq⟩ := List.mem_map.mp hmem
    rw [← heq]
    exact h.identity hflag old hold
  replacement hflag a b hab hinverse := by
    obtain ⟨c, d, hcd, hca, hdb⟩ := hab.of_data hdata
    unfold Op.isInverse at hinverse
    rw [← hca, ← hdb] at hinverse
    rw [← hca]
    exact h.replacement hflag c d hcd hinverse

theorem optimizeOnce_of_normal {ops : Pipeline P S} (h : Normal flags ops)
    (hread : Legible flags ops) : optimizeOnce flags ops = ⟨ops, none⟩ := by
  have hcancelled : Pass flags.removeInversePairs cancelRule ops ⟨ops, none⟩ := by
    rw [pass_iff]
    split
    · rename_i hflag
      exact (editPairs_of_settled fun a b hab =>
        (cancelRule_eq_leave_iff a b).mpr fun hinverse =>
          ⟨hread.replacement hflag a b hab hinverse, h.inverse hflag a b hab hinverse⟩).symm
    · rfl
  have hfused : Pass flags.combine (fuseRule flags.composeTables) ops ⟨ops, none⟩ := by
    rw [pass_iff]
    split
    · rename_i hflag
      exact (editPairs_of_settled fun a b hab =>
        (fuseRule_eq_leave_iff flags.composeTables a b).mpr (h.fusion hflag a b hab)).symm
    · rfl
  have hround := (round_iff flags ops _).mp (.done hcancelled hfused)
  rw [tidied_of_tidy h.identity hread.identity] at hround
  exact hround.symm

/-- A normal form stays as it is. -/
theorem optimize_of_normal {ops : Pipeline P S} (h : Normal flags ops)
    (hread : Legible flags ops) : optimize flags ops = ⟨ops, none⟩ := by
  refine ((run_iff flags ops _).mp ?_).symm
  by_cases hempty : flags.isEmpty ∨ ops.isEmpty
  · exact .skip hempty
  · refine .rounds hempty (tidied_of_tidy h.identity hread.identity) ?_
    exact .last ((round_iff flags ops _).mpr (optimizeOnce_of_normal h hread).symm) (.inr rfl)

end Again

/-! ## The end of a run -/

/-- A logarithm that is undone, behind a range without bounds, and another one. -/
def undoneLog : Pipeline Float Float32 :=
  [⟨.log ⟨2, .forward⟩, none⟩, ⟨.range {}, none⟩, ⟨.log ⟨2, .inverse⟩, none⟩,
    ⟨.log ⟨10, .forward⟩, none⟩]

theorem optimize_undoneLog : optimize .all undoneLog = ⟨[⟨.log ⟨10, .forward⟩, none⟩], none⟩ := by
  have hbase : ((2 : Float) == 2) = true := by decide +kernel
  have htidied : removeIdentities undoneLog =
      ⟨[⟨.log ⟨2, .forward⟩, none⟩, ⟨.log ⟨2, .inverse⟩, none⟩, ⟨.log ⟨10, .forward⟩, none⟩],
        none⟩ := rfl
  have hleft : removeIdentities ([⟨.log ⟨10, .forward⟩, none⟩] : Pipeline Float Float32) =
      ⟨[⟨.log ⟨10, .forward⟩, none⟩], none⟩ := rfl
  have hflags : OptimizationFlags.all = ⟨true, true, true, true⟩ := rfl
  have hsome : (⟨true, true, true, true⟩ : OptimizationFlags).isEmpty = false := rfl
  have hops : undoneLog.isEmpty = false := rfl
  simp [optimize, hflags, hsome, hops, htidied, hleft, optimizeRounds, optimizeOnce, editPairs,
    Attempt.andThen, cancelRule, Op.isInverse, OpData.isInverse, LogOp.isInverse, hbase,
    OpData.replacement, OpData.readReplacement, Except.map]

/-- The loops end, without any limit on their rounds, in what `optimize` gives. Unless an
error stopped them that is a normal form, and a second run changes no parameters of it,
whatever IDs its ops have by then. -/
theorem a_run_ends_in_a_normal_form [Scalar P] [Scalar S] [Stored P] [Precision P S]
    (flags : OptimizationFlags) (ops : Pipeline P S) :
    (∀ result, Run flags ops result ↔ result = optimize flags ops) ∧
      ((optimize flags ops).fault = none →
        Normal flags (optimize flags ops).reached ∧
          ∀ again : Pipeline P S, again.map Op.data = (optimize flags ops).reached.map Op.data →
            optimize flags again = ⟨again, none⟩) := by
  refine ⟨run_iff flags ops, ?_⟩
  intro hfault
  obtain ⟨hnormal, hread⟩ := ((run_iff flags ops _).mpr rfl).normal hfault
  refine ⟨hnormal, ?_⟩
  intro again hdata
  exact optimize_of_normal (hnormal.of_data hdata) (hread.of_data hdata)

/-- No error stops the run here, so what it leaves is a normal form. -/
theorem one_logarithm_is_a_normal_form :
    (optimize .all undoneLog).fault = none ∧
      Normal .all ([⟨.log ⟨10, .forward⟩, none⟩] : Pipeline Float Float32) := by
  have hfault : (optimize .all undoneLog).fault = none := by rw [optimize_undoneLog]
  have hnormal := ((a_run_ends_in_a_normal_form .all undoneLog).2 hfault).1
  rw [optimize_undoneLog] at hnormal
  exact ⟨hfault, hnormal⟩

end Pipeline

end ColorPipeline
