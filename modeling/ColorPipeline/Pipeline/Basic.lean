-- Pipelines: ops in the order in which they are applied. Work on a pipeline
-- that an error stops keeps what was done before.
import ColorPipeline.Op.Basic

namespace ColorPipeline

/-- What was reached, and the error that stopped the work there, if one did. -/
structure Attempt (P α : Type) where
  reached : α
  fault : Option (OpError P) := none

namespace Attempt

variable {P α : Type}

/-- The result of work that no error stopped. -/
def toExcept (a : Attempt P α) : Except (OpError P) α :=
  match a.fault with
  | none => .ok a.reached
  | some e => .error e

/-- Work that goes on with what was reached, unless an error stopped it before. -/
def andThen {β : Type} (a : Attempt P β) (f : β → Attempt P β) : Attempt P β :=
  match a.fault with
  | none => f a.reached
  | some _ => a

/-- More items after the first ones, unless an error stopped those. -/
def append (a b : Attempt P (List α)) : Attempt P (List α) :=
  match a.fault with
  | none => ⟨a.reached ++ b.reached, b.fault⟩
  | some e => ⟨a.reached, some e⟩

/-- The items of several attempts in order, up to the first error. -/
def concat : List (Attempt P (List α)) → Attempt P (List α)
  | [] => ⟨[], none⟩
  | a :: rest => a.append (concat rest)

/-- The images of items in order, up to the first error. -/
def traverse {β : Type} (f : α → Except (OpError P) β) : List α → Attempt P (List β)
  | [] => ⟨[], none⟩
  | a :: rest =>
    match f a with
    | .ok b =>
      let tail := traverse f rest
      ⟨b :: tail.reached, tail.fault⟩
    | .error e => ⟨[], some e⟩

end Attempt

/-- Ops in the order in which they are applied. -/
abbrev Pipeline (P S : Type) := List (Op P S)

namespace Pipeline

variable {P S : Type}

/-- The cache IDs of the ops in brackets. -/
def cacheId (ops : Pipeline P S) : String :=
  "[" ++ " ".intercalate (ops.map Op.cacheId) ++ "]"

def isFinalized (ops : Pipeline P S) : Bool := ops.all Op.isFinalized

/-- The ops finalized in order, up to the first that is refused. -/
def finalize [Scalar P] [Scalar S] [Stored P] [Precision P S] :
    Pipeline P S → Attempt P (Pipeline P S)
  | [] => ⟨[], none⟩
  | op :: rest =>
    match op.finalize with
    | .ok done =>
      let tail := finalize rest
      ⟨done :: tail.reached, tail.fault⟩
    | .error e => ⟨op :: rest, some e⟩

end Pipeline

end ColorPipeline
