-- The optimizer as loops that edit one list in place. A walk over the positions
-- of the list looks at two neighbours at a time; a round makes two walks and
-- drops identities; rounds go on, without a limit on their number, until one
-- leaves the length as it was. The loops always end, with what `optimize` gives.
import ColorPipeline.Pipeline.Optimizer
import ColorPipeline.Proofs.Results

namespace ColorPipeline

variable {P S : Type}

/-- The ops that an edit puts in place of two neighbours, unless it leaves them. -/
def PairEdit.ops : PairEdit P S → Option (Pipeline P S)
  | .leave => none
  | .drop => some []
  | .merge op => some [op]

theorem PairEdit.length_ops_le {change : PairEdit P S} {out : Pipeline P S}
    (h : change.ops = some out) : out.length ≤ 1 := by
  cases change with
  | leave => cases h
  | drop =>
    cases h
    exact Nat.zero_le 1
  | merge op =>
    cases h
    exact Nat.le_refl 1

namespace Pipeline

/-! ## The walk over neighbours -/

/-- A walk that looks at the neighbours at positions `i` and `i + 1` of a pipeline. It
goes on to the next position where they stay, and one back where they were edited.
The result has the pipeline at the end of the walk, and the error that ended it. -/
inductive Walk (rule : PairRule P S) :
    Pipeline P S → Nat → Attempt P (Pipeline P S) → Prop
  | finish {ops : Pipeline P S} {i : Nat} :
      ops.length ≤ i + 1 → Walk rule ops i ⟨ops, none⟩
  | fault {ops : Pipeline P S} {i : Nat} {a b : Op P S} {e : OpError P} :
      ops[i]? = some a → ops[i + 1]? = some b → rule a b = .error e →
      Walk rule ops i ⟨ops, some e⟩
  | leave {ops : Pipeline P S} {i : Nat} {a b : Op P S} {result : Attempt P (Pipeline P S)} :
      ops[i]? = some a → ops[i + 1]? = some b → rule a b = .ok .leave →
      Walk rule ops (i + 1) result → Walk rule ops i result
  | edit {ops out : Pipeline P S} {i : Nat} {a b : Op P S} {change : PairEdit P S}
      {result : Attempt P (Pipeline P S)} :
      ops[i]? = some a → ops[i + 1]? = some b → rule a b = .ok change →
      change.ops = some out → Walk rule (ops.take i ++ out ++ ops.drop (i + 2)) (i - 1) result →
      Walk rule ops i result

/-- A pipeline parts at two neighbours. -/
theorem split_at_neighbours {ops : Pipeline P S} {i : Nat} {a b : Op P S}
    (ha : ops[i]? = some a) (hb : ops[i + 1]? = some b) :
    ops = ops.take i ++ [a, b] ++ ops.drop (i + 2) := by
  obtain ⟨hi, rfl⟩ := List.getElem?_eq_some_iff.mp ha
  obtain ⟨hj, rfl⟩ := List.getElem?_eq_some_iff.mp hb
  calc ops = ops.take i ++ ops.drop i := (List.take_append_drop i ops).symm
    _ = ops.take i ++ [ops[i], ops[i + 1]] ++ ops.drop (i + 2) := by
      rw [List.drop_eq_getElem_cons hi, List.drop_eq_getElem_cons hj]
      simp

section Zipper

variable (before : List (Op P S)) (a b : Op P S) (rest : List (Op P S))

theorem neighbour_at : (before.reverse ++ a :: b :: rest)[before.length]? = some a := by simp

theorem neighbour_after : (before.reverse ++ a :: b :: rest)[before.length + 1]? = some b := by
  rw [List.getElem?_append_right (by simp)]
  simp

theorem take_reverse_append : (before.reverse ++ rest).take before.length = before.reverse :=
  List.take_left' (by simp)

theorem drop_neighbours : (before.reverse ++ a :: b :: rest).drop (before.length + 2) = rest := by
  rw [List.drop_append]
  simp

end Zipper

/-- The walk goes as `editPairs` does, which keeps the ops before the position in
reverse order. -/
theorem walk_editPairs (rule : PairRule P S) (before rest : List (Op P S)) :
    Walk rule (before.reverse ++ rest) before.length (editPairs rule before rest) := by
  fun_induction editPairs rule before rest with
  | case1 before a b rest e he =>
    exact .fault (neighbour_at before a b rest) (neighbour_after before a b rest) he
  | case2 before a b rest hleave ih =>
    refine .leave (neighbour_at before a b rest) (neighbour_after before a b rest) hleave ?_
    simpa using ih
  | case3 a b rest hdrop ih =>
    exact .edit rfl rfl hdrop rfl ih
  | case4 a b rest hdrop p earlier ih =>
    refine .edit (neighbour_at _ a b rest) (neighbour_after _ a b rest) hdrop rfl ?_
    rw [take_reverse_append, drop_neighbours]
    simpa using ih
  | case5 a b rest op hmerge ih =>
    exact .edit rfl rfl hmerge rfl ih
  | case6 a b rest op hmerge p earlier ih =>
    refine .edit (neighbour_at _ a b rest) (neighbour_after _ a b rest) hmerge rfl ?_
    rw [take_reverse_append, drop_neighbours]
    simpa using ih
  | case7 before rest hshort =>
    refine .finish ?_
    rcases rest with _ | ⟨a, _ | ⟨b, rest⟩⟩
    · simp
    · simp
    · exact absurd rfl (hshort a b rest)

theorem not_finished {ops : Pipeline P S} {i : Nat} {b : Op P S} (hb : ops[i + 1]? = some b) :
    ¬ ops.length ≤ i + 1 := by
  intro hend
  rw [List.getElem?_eq_none hend] at hb
  cases hb

/-- The loop can end in one way only. -/
theorem Walk.deterministic {rule : PairRule P S} {ops : Pipeline P S} {i : Nat}
    {result other : Attempt P (Pipeline P S)} (h : Walk rule ops i result)
    (h' : Walk rule ops i other) : result = other := by
  induction h with
  | finish hend =>
    cases h' with
    | finish _ => rfl
    | fault _ hb _ => exact absurd hend (not_finished hb)
    | leave _ hb _ _ => exact absurd hend (not_finished hb)
    | edit _ hb _ _ _ => exact absurd hend (not_finished hb)
  | fault ha hb he =>
    cases h' with
    | finish hend => exact absurd hend (not_finished hb)
    | fault ha' hb' he' => grind
    | leave ha' hb' he' _ => grind
    | edit ha' hb' he' _ _ => grind
  | leave ha hb hleave _ ih =>
    cases h' with
    | finish hend => exact absurd hend (not_finished hb)
    | fault ha' hb' he' => grind
    | leave _ _ _ hrest => exact ih hrest
    | edit ha' hb' he' hout' _ => grind [PairEdit.ops]
  | edit ha hb hchange hout _ ih =>
    cases h' with
    | finish hend => exact absurd hend (not_finished hb)
    | fault ha' hb' he' => grind
    | leave ha' hb' he' _ => grind [PairEdit.ops]
    | edit ha' hb' hchange' hout' hrest =>
      refine ih ?_
      grind

/-- What the loop ends with is what the recursion over the list gives. -/
theorem walk_iff (rule : PairRule P S) (ops : Pipeline P S)
    (result : Attempt P (Pipeline P S)) :
    Walk rule ops 0 result ↔ result = editPairs rule [] ops := by
  have hwalk : Walk rule ops 0 (editPairs rule [] ops) := walk_editPairs rule [] ops
  constructor
  · intro h
    exact h.deterministic hwalk
  · rintro rfl
    exact hwalk

/-- A walk that edits makes the pipeline shorter. -/
theorem Walk.eq_or_shorter {rule : PairRule P S} {ops : Pipeline P S} {i : Nat}
    {result : Attempt P (Pipeline P S)} (h : Walk rule ops i result) :
    result.reached = ops ∨ result.reached.length < ops.length := by
  induction h with
  | finish _ => exact .inl rfl
  | fault _ _ _ => exact .inl rfl
  | leave _ _ _ _ ih => exact ih
  | @edit ops out i a b change result ha hb hchange hout _ ih =>
    have hsplit := congrArg List.length (split_at_neighbours ha hb)
    have hshort := PairEdit.length_ops_le hout
    simp only [List.length_append, List.length_cons, List.length_nil] at hsplit ih
    right
    rcases ih with ih | ih
    · rw [ih]
      simp only [List.length_append]
      omega
    · omega

/-- No error stops a walk over ops with a property that edits keep and under which the rule
never fails. -/
theorem Walk.fault_eq_none {rule : PairRule P S} {Good : Op P S → Prop}
    (hrule : ∀ a b, Good a → Good b → ∃ change, rule a b = .ok change ∧
      ∀ out, change.ops = some out → ∀ op ∈ out, Good op)
    {ops : Pipeline P S} {i : Nat} {result : Attempt P (Pipeline P S)}
    (h : Walk rule ops i result) (hops : ∀ op ∈ ops, Good op) : result.fault = none := by
  induction h with
  | finish _ => rfl
  | fault ha hb he =>
    obtain ⟨change, hok, _⟩ :=
      hrule _ _ (hops _ (List.mem_of_getElem? ha)) (hops _ (List.mem_of_getElem? hb))
    rw [he] at hok
    cases hok
  | leave _ _ _ _ ih => exact ih hops
  | @edit ops out i a b change result ha hb hchange hout _ ih =>
    obtain ⟨other, hok, hgood⟩ :=
      hrule a b (hops a (List.mem_of_getElem? ha)) (hops b (List.mem_of_getElem? hb))
    rw [hchange] at hok
    cases hok
    refine ih ?_
    intro op hop
    simp only [List.mem_append] at hop
    rcases hop with (hop | hop) | hop
    · exact hops op (List.mem_of_mem_take hop)
    · exact hgood out hout op hop
    · exact hops op (List.mem_of_mem_drop hop)

/-! ## Passes -/

/-- A walk from the first position, where it is switched on. -/
def Pass (on : Bool) (rule : PairRule P S) (ops : Pipeline P S)
    (result : Attempt P (Pipeline P S)) : Prop :=
  if on then Walk rule ops 0 result else result = ⟨ops, none⟩

theorem pass_iff (on : Bool) (rule : PairRule P S) (ops : Pipeline P S)
    (result : Attempt P (Pipeline P S)) :
    Pass on rule ops result ↔ result = if on then editPairs rule [] ops else ⟨ops, none⟩ := by
  unfold Pass
  split
  · exact walk_iff rule ops result
  · rfl

/-- A pass that changes anything makes the pipeline shorter. -/
theorem Pass.eq_or_shorter {on : Bool} {rule : PairRule P S} {ops : Pipeline P S}
    {result : Attempt P (Pipeline P S)} (h : Pass on rule ops result) :
    result.reached = ops ∨ result.reached.length < ops.length := by
  unfold Pass at h
  split at h
  · exact h.eq_or_shorter
  · rw [h]
    exact .inl rfl

theorem Pass.length_le {on : Bool} {rule : PairRule P S} {ops : Pipeline P S}
    {result : Attempt P (Pipeline P S)} (h : Pass on rule ops result) :
    result.reached.length ≤ ops.length := by
  rcases h.eq_or_shorter with heq | hlt
  · exact Nat.le_of_eq (congrArg List.length heq)
  · exact Nat.le_of_lt hlt

/-! ## Rounds -/

section Rounds

variable [Scalar P] [Scalar S] [Precision P S]

/-- The ops without identities, where the flags ask for that. -/
def tidied (flags : OptimizationFlags) (ops : Pipeline P S) : Attempt P (Pipeline P S) :=
  if flags.removeIdentities then removeIdentities ops else ⟨ops, none⟩

/-- Every grid of the ops can be read as far as it takes to see whether it is an identity. -/
def IdentitiesRead (ops : Pipeline P S) : Prop := ∀ op ∈ ops, op.data.readIdentity = .ok ()

/-- Identities are dropped where all grids can be read, and otherwise everything stays. -/
theorem removeIdentities_cases (ops : Pipeline P S) :
    (IdentitiesRead ops ∧ removeIdentities ops = ⟨ops.flatMap withoutIdentity, none⟩) ∨
      ∃ e, removeIdentities ops = ⟨ops, some e⟩ := by
  unfold removeIdentities IdentitiesRead
  rw [← forM_eq_ok_iff]
  cases ops.forM fun op => op.data.readIdentity with
  | error e => exact .inr ⟨e, rfl⟩
  | ok _ => exact .inl ⟨rfl, rfl⟩

/-- Identities are either all taken out or all left in. -/
theorem tidied_eq_ok {flags : OptimizationFlags} {ops left : Pipeline P S}
    (h : tidied flags ops = ⟨left, none⟩) :
    (flags.removeIdentities ∧ IdentitiesRead ops ∧ left = ops.flatMap withoutIdentity) ∨
      (¬ flags.removeIdentities ∧ left = ops) := by
  unfold tidied at h
  split at h
  · rename_i hflag
    rcases removeIdentities_cases ops with ⟨hread, htidy⟩ | ⟨e, hfault⟩
    · rw [htidy] at h
      cases h
      exact .inl ⟨hflag, hread, rfl⟩
    · rw [hfault] at h
      cases h
  · rename_i hflag
    cases h
    exact .inr ⟨hflag, rfl⟩

/-- Where an identity cannot be read, nothing has been taken out yet. -/
theorem tidied_eq_fault {flags : OptimizationFlags} {ops left : Pipeline P S} {e : OpError P}
    (h : tidied flags ops = ⟨left, some e⟩) : left = ops := by
  unfold tidied at h
  split at h
  · rcases removeIdentities_cases ops with ⟨_, htidy⟩ | ⟨e', hfault⟩
    · rw [htidy] at h
      cases h
    · rw [hfault] at h
      cases h
      rfl
  · cases h

/-- Neighbours are dropped where the second one undoes the first and the two together are a true
no-op. -/
theorem cancelRule_eq_drop_iff (a b : Op P S) :
    cancelRule a b = .ok .drop ↔
      a.isInverse b ∧ a.data.readReplacement = .ok () ∧ a.data.replacement = .remove := by
  unfold cancelRule
  by_cases hinverse : a.isInverse b
  · cases hread : a.data.readReplacement <;> cases hr : a.data.replacement <;>
      simp [hinverse, Except.map]
  · simp [hinverse]

/-- Neighbours make way for one op where the two together still limit values. -/
theorem cancelRule_eq_merge_iff (a b made : Op P S) :
    cancelRule a b = .ok (.merge made) ↔
      a.isInverse b ∧ a.data.readReplacement = .ok () ∧
        ∃ r, a.data.replacement = .clamp r ∧ made = { data := .range r } := by
  unfold cancelRule
  by_cases hinverse : a.isInverse b
  · cases hread : a.data.readReplacement <;> cases hr : a.data.replacement <;>
      simp [hinverse, Except.map, eq_comm]
  · simp [hinverse]

/-- Inverse pairs are left alone only where their replacement says so. -/
theorem cancelRule_eq_leave_iff (a b : Op P S) :
    cancelRule a b = .ok .leave ↔
      (a.isInverse b → a.data.readReplacement = .ok () ∧ a.data.replacement = .keep) := by
  unfold cancelRule
  by_cases hinverse : a.isInverse b
  · cases hread : a.data.readReplacement <;> cases hr : a.data.replacement <;>
      simp [hinverse, Except.map]
  · simp [hinverse]

/-- Neighbours that undo each other fail only where a grid cannot be read. -/
theorem exists_cancelRule_eq_ok {a : Op P S} (b : Op P S)
    (h : a.data.readReplacement = .ok ()) : ∃ change, cancelRule a b = .ok change := by
  unfold cancelRule
  rw [h]
  split
  · exact ⟨_, rfl⟩
  · exact ⟨_, rfl⟩

theorem length_withoutIdentity_le (op : Op P S) : (withoutIdentity op).length ≤ 1 := by
  unfold withoutIdentity
  split
  · split <;> simp
  · simp

theorem length_flatMap_withoutIdentity_le (ops : Pipeline P S) :
    (ops.flatMap withoutIdentity).length ≤ ops.length := by
  induction ops with
  | nil => exact Nat.le_refl 0
  | cons op ops ih =>
    have := length_withoutIdentity_le op
    rw [List.flatMap_cons, List.length_append, List.length_cons]
    omega

theorem length_tidied_le (flags : OptimizationFlags) (ops : Pipeline P S) :
    (tidied flags ops).reached.length ≤ ops.length := by
  rcases h : tidied flags ops with ⟨left, _ | e⟩
  · rcases tidied_eq_ok h with ⟨_, _, rfl⟩ | ⟨_, rfl⟩
    · exact length_flatMap_withoutIdentity_le ops
    · exact Nat.le_refl left.length
  · obtain rfl := tidied_eq_fault h
    exact Nat.le_refl left.length

variable [Stored P]

/-- One round: a walk that cancels, a walk that fuses, and no identities at the end. An
error ends the round where it comes up. -/
inductive Round (flags : OptimizationFlags) (ops : Pipeline P S) :
    Attempt P (Pipeline P S) → Prop
  | unread {cancelled : Pipeline P S} {e : OpError P} :
      Pass flags.removeInversePairs cancelRule ops ⟨cancelled, some e⟩ →
      Round flags ops ⟨cancelled, some e⟩
  | fault {cancelled fused : Pipeline P S} {e : OpError P} :
      Pass flags.removeInversePairs cancelRule ops ⟨cancelled, none⟩ →
      Pass flags.combine (fuseRule flags.composeTables) cancelled ⟨fused, some e⟩ →
      Round flags ops ⟨fused, some e⟩
  | done {cancelled fused : Pipeline P S} :
      Pass flags.removeInversePairs cancelRule ops ⟨cancelled, none⟩ →
      Pass flags.combine (fuseRule flags.composeTables) cancelled ⟨fused, none⟩ →
      Round flags ops (tidied flags fused)

/-- Rounds one after the other, as many as it takes until one leaves the length as it was
or meets an error. -/
inductive Rounds (flags : OptimizationFlags) :
    Pipeline P S → Attempt P (Pipeline P S) → Prop
  | last {ops : Pipeline P S} {next : Attempt P (Pipeline P S)} :
      Round flags ops next → next.fault.isSome ∨ next.reached.length = ops.length →
      Rounds flags ops next
  | more {ops : Pipeline P S} {next result : Attempt P (Pipeline P S)} :
      Round flags ops next → next.fault = none → next.reached.length ≠ ops.length →
      Rounds flags next.reached result → Rounds flags ops result

/-- The whole optimizer as loops, with no limit on the number of rounds. -/
inductive Run (flags : OptimizationFlags) (ops : Pipeline P S) :
    Attempt P (Pipeline P S) → Prop
  | skip : flags.isEmpty ∨ ops.isEmpty → Run flags ops ⟨ops, none⟩
  | unread {left : Pipeline P S} {e : OpError P} : ¬ (flags.isEmpty ∨ ops.isEmpty) →
      tidied flags ops = ⟨left, some e⟩ → Run flags ops ⟨left, some e⟩
  | rounds {start : Pipeline P S} {result : Attempt P (Pipeline P S)} :
      ¬ (flags.isEmpty ∨ ops.isEmpty) → tidied flags ops = ⟨start, none⟩ →
      Rounds flags start result → Run flags ops result

/-! ## The loops end with what `optimize` gives -/

theorem round_iff (flags : OptimizationFlags) (ops : Pipeline P S)
    (result : Attempt P (Pipeline P S)) :
    Round flags ops result ↔ result = optimizeOnce flags ops := by
  unfold optimizeOnce
  extract_lets cancelled fused
  constructor
  · intro h
    cases h with
    | unread hcancelled =>
      have hc : _ = cancelled := (pass_iff _ _ _ _).mp hcancelled
      simp only [fused, ← hc, Attempt.andThen]
    | fault hcancelled hfused =>
      have hc : _ = cancelled := (pass_iff _ _ _ _).mp hcancelled
      have hf := (pass_iff _ _ _ _).mp hfused
      simp only [fused, ← hc, Attempt.andThen, ← hf]
    | done hcancelled hfused =>
      have hc : _ = cancelled := (pass_iff _ _ _ _).mp hcancelled
      have hf := (pass_iff _ _ _ _).mp hfused
      simp only [fused, ← hc, Attempt.andThen, ← hf]
      rfl
  · rintro rfl
    have hcancelled : Pass flags.removeInversePairs cancelRule ops cancelled :=
      (pass_iff _ _ _ _).mpr rfl
    rcases hc : cancelled with ⟨left, _ | e⟩
    · rw [hc] at hcancelled
      have hfused : Pass flags.combine (fuseRule flags.composeTables) left fused := by
        rw [pass_iff]
        simp only [fused, hc, Attempt.andThen]
      rcases hf : fused with ⟨reached, _ | e⟩
      · rw [hf] at hfused
        exact .done hcancelled hfused
      · rw [hf] at hfused
        exact .fault hcancelled hfused
    · rw [hc] at hcancelled
      simp only [fused, hc, Attempt.andThen]
      exact .unread hcancelled

theorem Round.deterministic {flags : OptimizationFlags} {ops : Pipeline P S}
    {result other : Attempt P (Pipeline P S)} (h : Round flags ops result)
    (h' : Round flags ops other) : result = other :=
  ((round_iff flags ops result).mp h).trans ((round_iff flags ops other).mp h').symm

theorem Round.length_le {flags : OptimizationFlags} {ops : Pipeline P S}
    {result : Attempt P (Pipeline P S)} (h : Round flags ops result) :
    result.reached.length ≤ ops.length := by
  cases h with
  | unread hcancelled => exact hcancelled.length_le
  | fault hcancelled hfused => exact Nat.le_trans hfused.length_le hcancelled.length_le
  | @done cancelled fused hcancelled hfused =>
    calc (tidied flags fused).reached.length ≤ fused.length := length_tidied_le flags fused
      _ ≤ cancelled.length := hfused.length_le
      _ ≤ ops.length := hcancelled.length_le

theorem Rounds.deterministic {flags : OptimizationFlags} {ops : Pipeline P S}
    {result other : Attempt P (Pipeline P S)} (h : Rounds flags ops result)
    (h' : Rounds flags ops other) : result = other := by
  induction h with
  | last hround hlast =>
    cases h' with
    | last hround' _ => exact hround.deterministic hround'
    | more hround' hfault hlength _ =>
      obtain rfl := hround.deterministic hround'
      simp [hfault, hlength] at hlast
  | more hround hfault hlength _ ih =>
    cases h' with
    | last hround' hlast =>
      obtain rfl := hround.deterministic hround'
      simp [hfault, hlength] at hlast
    | more hround' _ _ hrest =>
      obtain rfl := hround.deterministic hround'
      exact ih hrest

/-- A round that is not the last makes the pipeline shorter, so a limit above the length
is never met. -/
theorem rounds_optimizeRounds (flags : OptimizationFlags) (limit : Nat) (ops : Pipeline P S)
    (h : ops.length < limit) : Rounds flags ops (optimizeRounds flags limit ops) := by
  -- each round that is not the last takes away at least one op, and the limit goes down
  -- by one, so it stays above the length
  induction limit generalizing ops with
  | zero => exact absurd h (Nat.not_lt_zero _)
  | succ limit ih =>
    unfold optimizeRounds
    extract_lets next
    have hround : Round flags ops next := (round_iff flags ops next).mpr rfl
    split
    · rename_i hlast
      rw [Bool.or_eq_true, beq_iff_eq] at hlast
      exact .last hround hlast
    · rename_i hmore
      rw [Bool.or_eq_true, beq_iff_eq, not_or] at hmore
      have hfault : next.fault = none := by simpa using hmore.1
      have hlength := hround.length_le
      exact .more hround hfault hmore.2 (ih next.reached (by have := hmore.2; omega))

/-- The loops over rounds end with what the optimizer gives. -/
theorem run_iff (flags : OptimizationFlags) (ops : Pipeline P S)
    (result : Attempt P (Pipeline P S)) :
    Run flags ops result ↔ result = optimize flags ops := by
  have hrounds (start : Pipeline P S) :=
    rounds_optimizeRounds flags _ start (Nat.lt_succ_self start.length)
  have htidied : tidied flags ops =
      if flags.removeIdentities then removeIdentities ops else ⟨ops, none⟩ := rfl
  unfold optimize
  rw [← htidied]
  constructor
  · intro h
    cases h with
    | skip hskip =>
      rw [← Bool.or_eq_true] at hskip
      rw [if_pos hskip]
    | unread hskip hleft =>
      rw [← Bool.or_eq_true] at hskip
      rw [if_neg hskip, hleft]
      rfl
    | rounds hskip hstart h =>
      rw [← Bool.or_eq_true] at hskip
      rw [if_neg hskip, hstart]
      exact h.deterministic (hrounds _)
  · rintro rfl
    split
    · rename_i hskip
      rw [Bool.or_eq_true] at hskip
      exact .skip hskip
    · rename_i hskip
      rw [Bool.or_eq_true] at hskip
      rcases hstart : tidied flags ops with ⟨start, _ | e⟩
      · exact .rounds hskip hstart (hrounds start)
      · exact .unread hskip hstart

end Rounds

end Pipeline

end ColorPipeline
