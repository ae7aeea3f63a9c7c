-- Ops: parameters together with their cache ID, which an op gets when it is
-- finalized. Only a finalized op can be rendered or emitted.
import ColorPipeline.Op.Data

namespace ColorPipeline

/-- One step of a pipeline. The ID is there once the op is finalized. -/
structure Op (P S : Type) where
  data : OpData P S
  id : Option String := none

namespace Op

variable {P S : Type}

def isFinalized (op : Op P S) : Bool := op.id.isSome

/-- The cache ID, empty before the op is finalized. -/
def cacheId (op : Op P S) : String := op.id.getD ""

def kind (op : Op P S) : OpKind := op.data.kind

variable [Scalar P] [Scalar S]

def isIdentity (op : Op P S) : Bool := op.data.isIdentity

/-- `other` is of the same kind and undoes `op`. -/
def isInverse (op other : Op P S) : Bool := op.data.isInverse other.data

def canFuse (op next : Op P S) : Bool := op.data.canFuse next.data

/-- The ops fuse, but only into an approximation. -/
def fusionIsLossy (op next : Op P S) : Bool :=
  op.canFuse next && op.data.fusionIsLossy next.data

variable [Stored P]

/-- The ops that do what `op` followed by `next` does, if they fuse. -/
def fuse (op next : Op P S) : Except (OpError P) (List (Op P S)) :=
  if op.canFuse next then
    (op.data.fuse next.data).map fun ds => ds.map fun data => { data }
  else .error (.notCombinable op.kind)

/-- The cache ID that a finalized op with these parameters has. -/
def finalId [Precision P S] (data : OpData P S) : String :=
  s!"<{data.kind.name} {data.cacheId} >"

/-- The op checked and with its cache ID. A finalized op stays as it is. -/
def finalize [Precision P S] (op : Op P S) : Except (OpError P) (Op P S) :=
  if op.isFinalized then .ok op
  else op.data.validate.map fun _ => { op with id := some (finalId op.data) }

/-- The op, if it is finalized. -/
def requireFinalized (op : Op P S) (use : FinalizedUse) : Except (OpError P) Unit :=
  if op.isFinalized then .ok () else .error (.notFinalized op.kind use)

end Op

end ColorPipeline
