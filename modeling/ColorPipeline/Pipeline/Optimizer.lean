-- Simplifications of pipelines into shorter ones that do the same. Only single ops
-- and neighbours are looked at: ops that change nothing are dropped, neighbours
-- that undo each other are dropped, and neighbours that fuse are fused. Where
-- an op that is dropped still limits its inputs, a range stays in its place.
import ColorPipeline.Pipeline.Basic
import ColorPipeline.Pipeline.Flags

namespace ColorPipeline

/-- What a rule makes of two neighbours. -/
inductive PairEdit (P S : Type) where
  /-- They stay. -/
  | leave
  | drop
  /-- One op takes their place. -/
  | merge (op : Op P S)

/-- A rule for two neighbours, which can fail. -/
abbrev PairRule (P S : Type) := Op P S → Op P S → Except (OpError P) (PairEdit P S)

namespace Pipeline

variable {P S : Type}

/-! ## Single ops -/

section Identities

variable [Scalar P] [Scalar S] [Precision P S]

/-- What takes the place of an op: the op itself unless it is an identity. -/
def withoutIdentity (op : Op P S) : List (Op P S) :=
  if op.isIdentity then
    match op.data.replacement with
    | .remove => []
    | .clamp r => [{ data := .range r }]
    | .keep => [op]
  else [op]

/-- The ops without identities. -/
def removeIdentities (ops : Pipeline P S) : Attempt P (Pipeline P S) :=
  match ops.forM fun op => op.data.readIdentity with
  | .ok _ => ⟨ops.flatMap withoutIdentity, none⟩
  | .error e => ⟨ops, some e⟩

end Identities

/-! ## Neighbours -/

/-- The ops after edits of neighbours by a rule, where `before` has the ops that
were passed, last one first. After an edit the op before it is looked at again,
since it has a new neighbour. -/
def editPairs (rule : PairRule P S) (before : List (Op P S)) :
    List (Op P S) → Attempt P (Pipeline P S)
  | a :: b :: rest =>
    match rule a b with
    | .error e => ⟨before.reverse ++ a :: b :: rest, some e⟩
    | .ok .leave => editPairs rule (a :: before) (b :: rest)
    | .ok .drop =>
      match before with
      | [] => editPairs rule [] rest
      | p :: earlier => editPairs rule earlier (p :: rest)
    | .ok (.merge op) =>
      match before with
      | [] => editPairs rule [] (op :: rest)
      | p :: earlier => editPairs rule earlier (p :: op :: rest)
  | rest => ⟨before.reverse ++ rest, none⟩
termination_by rest => before.length + 2 * rest.length

variable [Scalar P] [Scalar S] [Precision P S]

/-- An op followed by one that undoes it is dropped, or makes way for the limits
that the two still apply. -/
def cancelRule : PairRule P S := fun a b =>
  if a.isInverse b then
    a.data.readReplacement.map fun _ =>
      match a.data.replacement with
      | .remove => .drop
      | .clamp r => .merge { data := .range r }
      | .keep => .leave
  else .ok .leave

variable [Stored P]

/-- Neighbours that fuse into one op or none are fused. -/
def fuseRule (allowLossy : Bool) : PairRule P S := fun a b =>
  if a.canFuse b && (allowLossy || !a.fusionIsLossy b) then do
    match ← a.fuse b with
    | [] => return .drop
    | [op] => return .merge op
    | _ => return .leave
  else .ok .leave

/-! ## The whole pipeline -/

/-- One round of simplifications. An error stops it. -/
def optimizeOnce (flags : OptimizationFlags) (ops : Pipeline P S) : Attempt P (Pipeline P S) :=
  let cancelled := if flags.removeInversePairs then editPairs cancelRule [] ops else ⟨ops, none⟩
  let fused := cancelled.andThen fun left =>
    if flags.combine then editPairs (fuseRule flags.composeTables) [] left else ⟨left, none⟩
  fused.andThen fun left => if flags.removeIdentities then removeIdentities left else ⟨left, none⟩

/-- Rounds of simplifications until one leaves the length as it was, at most `limit`. -/
def optimizeRounds (flags : OptimizationFlags) : Nat → Pipeline P S → Attempt P (Pipeline P S)
  | 0, ops => ⟨ops, none⟩
  | limit + 1, ops =>
    let next := optimizeOnce flags ops
    if next.fault.isSome || next.reached.length == ops.length then next
    else optimizeRounds flags limit next.reached

/-- The pipeline after all simplifications of a set. A round that is not the last makes
it shorter, so one round more than there are ops is enough. -/
def optimize (flags : OptimizationFlags) (ops : Pipeline P S) : Attempt P (Pipeline P S) :=
  if flags.isEmpty || ops.isEmpty then ⟨ops, none⟩
  else
    let start := if flags.removeIdentities then removeIdentities ops else ⟨ops, none⟩
    start.andThen fun left => optimizeRounds flags (left.length + 1) left

end Pipeline

end ColorPipeline
