-- Lookup tables as ops. A table runs forward, or in the inverse direction,
-- where it is searched for the input of each value.
import ColorPipeline.Lut.Lut1D
import ColorPipeline.Lut.Lut3D
import ColorPipeline.Op.Direction
import ColorPipeline.Op.Range

open scoped ColorPipeline.Scalar

namespace ColorPipeline

/-- What takes the place of an op followed by its inverse, or of an op that
counts as the identity. -/
inductive Replacement (P : Type) where
  /-- Nothing: the ops can be dropped. -/
  | remove
  /-- The limits that the ops still apply. -/
  | clamp (r : RangeOp P)
  /-- The ops must stay: no single op does the same. -/
  | keep

/-- How far from its input a sample may be and still count as equal to it. -/
def tableTolerance {S : Type} [Scalar S] : S := 1e-5

/-- The samples of a table one after the other. -/
def tableNumbers {S : Type} (entries : Array (Rgb S)) : List S := entries.toList.flatMap Rgb.toList

/-- Tables with equal samples. -/
def sameTable {S : Type} [Scalar S] (a b : Array (Rgb S)) : Bool :=
  Array.isEqv a b fun p q => p.red == q.red && p.green == q.green && p.blue == q.blue

/-- The digest of the samples of a table, widened to parameters. -/
def tableDigest {S : Type} (P : Type) [Scalar P] [Stored P] [Precision P S]
    (entries : Array (Rgb S)) : String :=
  Fingerprint.digest ((tableNumbers entries).map (Precision.widen (P := P)))

/-! ## 1D tables -/

structure Lut1DOp (S : Type) where
  lut : Lut1D S
  direction : Direction

namespace Lut1DOp

variable {P S : Type}

def inverse (l : Lut1DOp S) : Lut1DOp S := { l with direction := l.direction.flip }

variable [Scalar S]

def validate (l : Lut1DOp S) : Except (OpError P) Unit :=
  if l.lut.size < 2 then .error (.invalid .lut1D (.lutTooShort l.lut.size))
  else if !(tableNumbers l.lut.samples).all Scalar.isFinite then
    .error (.invalid .lut1D .lutNotFinite)
  else if l.direction == .inverse && !l.lut.isNonDecreasing then
    .error (.invalid .lut1D .lutDecreasing)
  else .ok ()

def isIdentity (l : Lut1DOp S) : Bool := l.lut.isIdentity tableTolerance

/-- `other` undoes `l`: the same samples in the other direction. -/
def isInverse (l other : Lut1DOp S) : Bool :=
  l.direction != other.direction && sameTable l.lut.samples other.lut.samples

/-- The least and the greatest of a list of numbers. -/
def extent (vs : List S) : Option (S × S) :=
  (vs.filter fun v => !Scalar.isNaN v).foldl
    (fun range v =>
      match range with
      | none => some (v, v)
      | some (lo, hi) => some (Scalar.minNum lo v, Scalar.maxNum hi v))
    none

/-- The range of the samples, if it is the same in all channels and not empty. -/
def commonExtent (l : Lut1DOp S) : Option (S × S) :=
  let channel (c : Channel) := extent (l.lut.samples.toList.map fun p => p.get c)
  match channel .red, channel .green, channel .blue with
  | some (lo, hi), some (lo', hi'), some (lo'', hi'') =>
    if decide (lo < hi) && lo' == lo && hi' == hi && lo'' == lo && hi'' == hi then some (lo, hi)
    else none
  | _, _, _ => none

/-- Forward tables limit all channels to inputs from 0 to 1. Inverse tables
limit each channel to its own samples, which one range does only where the
samples of the channels span the same range. -/
def replacement [Scalar P] [Precision P S] (l : Lut1DOp S) : Replacement P :=
  match l.direction with
  | .forward => .clamp (RangeOp.clamp 0 1)
  | .inverse =>
    match l.commonExtent with
    | some (lo, hi) => .clamp (RangeOp.clamp (Precision.widen lo) (Precision.widen hi))
    | none => .keep

/-- Two forward tables fuse. -/
def canFuse (l next : Lut1DOp S) : Bool := l.direction == .forward && next.direction == .forward

/-- The table for `l` followed by `next`, with as many samples as the larger one. -/
def fuse (l next : Lut1DOp S) : Except (OpError P) (Lut1DOp S) :=
  match l.lut.compose next.lut (max l.lut.size next.lut.size) with
  | .ok lut => .ok ⟨lut, .forward⟩
  | .error e => .error (.lut (.size e))

def cacheId (P : Type) [Scalar P] [Stored P] [Precision P S] (l : Lut1DOp S) : String :=
  s!"{tableDigest P l.lut.samples} {l.lut.interpolation.name} {l.direction.name}"

end Lut1DOp

/-! ## 3D tables -/

structure Lut3DOp (S : Type) where
  lut : Lut3D S
  direction : Direction

namespace Lut3DOp

variable {P S : Type}

def inverse (l : Lut3DOp S) : Lut3DOp S := { l with direction := l.direction.flip }

variable [Scalar S]

def validate (l : Lut3DOp S) : Except (OpError P) Unit :=
  let size := l.lut.size
  let found := l.lut.entries.size
  if size < 2 then .error (.invalid .lut3D (.gridTooSmall size))
  else if found ≠ l.lut.entryCount then
    .error (.invalid .lut3D (.gridEntryCount size l.lut.entryCount found))
  else if !(tableNumbers l.lut.entries).all Scalar.isFinite then
    .error (.invalid .lut3D .lutNotFinite)
  else .ok ()

def isIdentity (l : Lut3DOp S) : Bool := l.lut.isIdentity tableTolerance

/-- What was read of the grid, or the first grid point that cannot be read. -/
def found {P α : Type} (l : Lut3DOp S) : Option α → Except (OpError P) α
  | some a => .ok a
  | none => .error (.lut (.size l.lut.missing))

/-- The grid is read to see whether it is an identity. -/
def readIdentity (l : Lut3DOp S) : Except (OpError P) Unit :=
  (l.found (l.lut.isIdentity? tableTolerance)).map fun _ => ()

/-- `other` undoes `l`: the same grid in the other direction. -/
def isInverse (l other : Lut3DOp S) : Bool :=
  l.direction != other.direction && l.lut.size == other.lut.size &&
    sameTable l.lut.entries other.lut.entries

/-- A forward grid limits its inputs to the unit cube. An inverse grid does so
too, but the forward grid after it comes back to them only inside its own
gamut, so only an identity is the same as the limits. -/
def replacement [Scalar P] (l : Lut3DOp S) : Replacement P :=
  if l.direction == .inverse && !l.isIdentity then .keep else .clamp (RangeOp.clamp 0 1)

/-- Only what takes the place of an inverse grid depends on its entries. -/
def readReplacement (l : Lut3DOp S) : Except (OpError P) Unit :=
  match l.direction with
  | .forward => .ok ()
  | .inverse => l.readIdentity

/-- The grid that is evaluated: the inverse direction has its own. -/
def evaluatedGrid (l : Lut3DOp S) : Lut3D S :=
  match l.direction with
  | .forward => l.lut
  | .inverse => l.lut.invert

/-- The grid that is evaluated, made from the entries as they are read. -/
def evaluatedGrid? (l : Lut3DOp S) : Option (Lut3D S) :=
  match l.direction with
  | .forward => some l.lut
  | .inverse => l.lut.invert?

/-- The grid is read to make the one that is evaluated. -/
def readEvaluated (l : Lut3DOp S) : Except (OpError P) Unit :=
  (l.found l.evaluatedGrid?).map fun _ => ()

def cacheId (P : Type) [Scalar P] [Stored P] [Precision P S] (l : Lut3DOp S) : String :=
  s!"{tableDigest P l.lut.entries} {l.lut.size} {l.lut.interpolation.name} {l.direction.name}"

end Lut3DOp

end ColorPipeline
