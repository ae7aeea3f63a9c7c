-- The parameters of an op of any kind, and the questions that an optimizer
-- asks about them. Ops of different kinds are never inverse and never fuse.
import ColorPipeline.Op.Exponent
import ColorPipeline.Op.FixedFunction
import ColorPipeline.Op.Log
import ColorPipeline.Op.Tables

namespace ColorPipeline

/-- The parameters of one op. -/
inductive OpData (P S : Type) where
  | matrix (m : MatrixOp P)
  | range (r : RangeOp P)
  | exponent (e : ExponentOp P)
  | log (l : LogOp P)
  | lut1D (l : Lut1DOp S)
  | lut3D (l : Lut3DOp S)
  | fixedFunction (f : FixedFunctionOp P)

namespace OpData

variable {P S : Type}

def kind : OpData P S → OpKind
  | matrix _ => .matrix
  | range _ => .range
  | exponent _ => .exponent
  | log _ => .log
  | lut1D _ => .lut1D
  | lut3D _ => .lut3D
  | fixedFunction _ => .fixedFunction

variable [Scalar P] [Scalar S]

/-- The parameters make a well-formed op. -/
def validate : OpData P S → Except (OpError P) Unit
  | matrix m => m.validate
  | range r => r.validate
  | exponent e => e.validate
  | log l => l.validate
  | lut1D l => l.validate
  | lut3D l => l.validate
  | fixedFunction f => f.validate

/-- The op leaves every value of its domain as it is. A logarithm never does. -/
def isIdentity : OpData P S → Bool
  | matrix m => m.isIdentity
  | range r => r.isIdentity
  | exponent e => e.isIdentity
  | log _ => false
  | lut1D l => l.isIdentity
  | lut3D l => l.isIdentity
  | fixedFunction f => f.isIdentity

/-- Asking whether the op is an identity reads the entries of a grid. -/
def readIdentity : OpData P S → Except (OpError P) Unit
  | lut3D l => l.readIdentity
  | _ => .ok ()

/-- The second op undoes the first. -/
def isInverse : OpData P S → OpData P S → Bool
  | matrix a, matrix b => a.isInverse b
  | range a, range b => a.isInverse b
  | exponent a, exponent b => a.isInverse b
  | log a, log b => a.isInverse b
  | lut1D a, lut1D b => a.isInverse b
  | lut3D a, lut3D b => a.isInverse b
  | fixedFunction a, fixedFunction b => a.isInverse b
  | _, _ => false

/-- The parameters of the op that undoes this one. -/
def inverse : OpData P S → Except (OpError P) (OpData P S)
  | matrix m => m.inverse.map matrix
  | range r => .ok (range r.inverse)
  | exponent e => e.inverse.map exponent
  | log l => .ok (log l.inverse)
  | lut1D l => .ok (lut1D l.inverse)
  | lut3D l => .ok (lut3D l.inverse)
  | fixedFunction f => .ok (fixedFunction f.inverse)

/-- The parameters of the op that runs in a direction. -/
def toward (d : OpData P S) : Direction → Except (OpError P) (OpData P S)
  | .forward => .ok d
  | .inverse => d.inverse

/-- What takes the place of the op followed by its inverse. -/
def replacement [Precision P S] : OpData P S → Replacement P
  | range r => if r.hasBounds then .clamp r.inputClamp else .remove
  | lut1D l => l.replacement
  | lut3D l => l.replacement
  | _ => .remove

/-- Asking for the replacement reads the entries of an inverse grid. -/
def readReplacement : OpData P S → Except (OpError P) Unit
  | lut3D l => l.readReplacement
  | _ => .ok ()

/-- Making a renderer or code for the op reads the entries of an inverse grid. -/
def readEvaluated : OpData P S → Except (OpError P) Unit
  | lut3D l => l.readEvaluated
  | _ => .ok ()

/-- The ops fuse into fewer. Matrices always do. -/
def canFuse : OpData P S → OpData P S → Bool
  | matrix _, matrix _ => true
  | range a, range b => a.canFuse b
  | exponent a, exponent b => a.canFuse b
  | lut1D a, lut1D b => a.canFuse b
  | _, _ => false

/-- Fusing the ops gives only an approximation of them. -/
def fusionIsLossy : OpData P S → OpData P S → Bool
  | lut1D _, lut1D _ => true
  | _, _ => false

variable [Stored P]

/-- The ops that do what the first op followed by the second does. -/
def fuse : OpData P S → OpData P S → Except (OpError P) (List (OpData P S))
  | matrix a, matrix b => .ok [matrix (a.followedBy b)]
  | range a, range b =>
    match a.fuse b with
    | .nothing => .ok []
    | .range r => .ok [range r]
    | .matrix m => .ok [matrix m]
    | .inexpressible => .error (.unsupported (.rangesDoNotFuse a.cacheId b.cacheId))
  | exponent a, exponent b => .ok [exponent (a.fuse b)]
  | lut1D a, lut1D b => (a.fuse b).map fun l => [lut1D l]
  | a, b =>
    if a.kind = b.kind then .error (.notCombinable a.kind)
    else .error (.unsupported (.kindsDoNotFuse a.kind b.kind))

/-- A text that tells the parameters apart from others of their kind. -/
def cacheId [Precision P S] : OpData P S → String
  | matrix m => m.cacheId
  | range r => r.cacheId
  | exponent e => e.cacheId
  | log l => l.cacheId
  | lut1D l => l.cacheId P
  | lut3D l => l.cacheId P
  | fixedFunction f => f.cacheId

end OpData

end ColorPipeline
