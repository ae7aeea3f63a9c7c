-- Ranges: a scale and an offset of the colour channels with limits. A bound
-- pair, of an input and an output value, is set or missing on each side. With
-- both pairs the input range is mapped onto the output range; with one pair
-- values are shifted and limited on that side.
import ColorPipeline.Op.Matrix

open scoped ColorPipeline.Scalar

namespace ColorPipeline

structure RangeOp (P : Type) where
  minIn : Option P := none
  maxIn : Option P := none
  minOut : Option P := none
  maxOut : Option P := none

/-- `v * scale + offset`, not below `lower` and not above `upper`. -/
structure ClampedAffine (P : Type) where
  scale : P
  offset : P
  lower : Option P
  upper : Option P

/-- What a clamped affine map can be written as. -/
inductive FusedRange (P : Type) where
  /-- It changes nothing. -/
  | nothing
  | range (r : RangeOp P)
  | matrix (m : MatrixOp P)
  /-- Neither a range nor a matrix is the same. -/
  | inexpressible

namespace ClampedAffine

variable {P : Type} [Scalar P]

/-- The limit that is tighter, by `choose`, or the only one. -/
def tighter (choose : P → P → P) : Option P → Option P → Option P
  | some a, some b => some (choose a b)
  | some a, none => some a
  | none, b => b

/-- `a` first, then `next`, where the scale of `next` is positive. -/
def followedBy (a next : ClampedAffine P) : ClampedAffine P :=
  let moved (v : P) : P := v * next.scale + next.offset
  { scale := a.scale * next.scale
    offset := a.offset * next.scale + next.offset
    lower := tighter Scalar.maxNum (a.lower.map moved) next.lower
    upper := tighter Scalar.minNum (a.upper.map moved) next.upper }

/-- How far from 1 a scale, and from 0 an offset, may be and still count as such. -/
def tolerance : P := 1e-9

/-- The single op that does the same. -/
def toFused (a : ClampedAffine P) : FusedRange P :=
  let unitScale := decide (Scalar.abs (a.scale - 1) < tolerance)
  match a.lower, a.upper with
  | some lo, some hi =>
    if lo < hi then
      .range ⟨some ((lo - a.offset) / a.scale), some ((hi - a.offset) / a.scale), some lo, some hi⟩
    else .inexpressible
  | some lo, none =>
    if unitScale then .range ⟨some (lo - a.offset), none, some lo, none⟩ else .inexpressible
  | none, some hi =>
    if unitScale then .range ⟨none, some (hi - a.offset), none, some hi⟩ else .inexpressible
  | none, none =>
    if unitScale && decide (Scalar.abs a.offset < tolerance) then .nothing
    else
      .matrix { MatrixOp.scale ⟨a.scale, a.scale, a.scale, 1⟩ with
        offset := ⟨a.offset, a.offset, a.offset, 0⟩ }

end ClampedAffine

namespace RangeOp

variable {P : Type}

/-- The limits `low` and `high` alone. -/
def clamp (low high : P) : RangeOp P := ⟨some low, some high, some low, some high⟩

/-- Some input bound is set. -/
def hasBounds (r : RangeOp P) : Bool := r.minIn.isSome || r.maxIn.isSome

/-- The bounds that are set, inputs first. -/
def bounds (r : RangeOp P) : List P := [r.minIn, r.maxIn, r.minOut, r.maxOut].filterMap id

/-- A range without any bound changes nothing. -/
def isIdentity (r : RangeOp P) : Bool :=
  !r.hasBounds && r.minOut.isNone && r.maxOut.isNone

/-- Inputs and outputs exchanged. -/
def inverse (r : RangeOp P) : RangeOp P := ⟨r.minOut, r.maxOut, r.minIn, r.maxIn⟩

/-- The limits of the inputs alone: the range followed by its inverse. -/
def inputClamp (r : RangeOp P) : RangeOp P := ⟨r.minIn, r.maxIn, r.minIn, r.maxIn⟩

variable [Scalar P]

/-- The scale, the offset and the limits. -/
def affine (r : RangeOp P) : ClampedAffine P :=
  match r.minIn, r.maxIn, r.minOut, r.maxOut with
  | some minIn, some maxIn, some minOut, some maxOut =>
    let scale := (maxOut - minOut) / (maxIn - minIn)
    ⟨scale, minOut - minIn * scale, some minOut, some maxOut⟩
  | some minIn, _, some minOut, _ => ⟨1, minOut - minIn, some minOut, none⟩
  | _, some maxIn, _, some maxOut => ⟨1, maxOut - maxIn, none, some maxOut⟩
  | _, _, _, _ => ⟨1, 0, none, none⟩

/-- The upper bound of a side is above the lower one, where both are set. -/
def checkOrder (side : RangeSide) : Option P → Option P → Except (OpError P) Unit
  | some lo, some hi =>
    if hi ≤ lo then .error (.invalid .range (.boundsReversed side hi lo)) else .ok ()
  | _, _ => .ok ()

def validate (r : RangeOp P) : Except (OpError P) Unit := do
  if r.minIn.isSome ≠ r.minOut.isSome then
    throw (.invalid .range .minimumHalfSet)
  if r.maxIn.isSome ≠ r.maxOut.isSome then
    throw (.invalid .range .maximumHalfSet)
  if !r.bounds.all Scalar.isFinite then
    throw (.invalid .range .boundNotFinite)
  checkOrder .input r.minIn r.maxIn
  checkOrder .output r.minOut r.maxOut

/-- Bounds that are equal as numbers, or both missing. -/
def sameBound : Option P → Option P → Bool
  | some a, some b => a == b
  | none, none => true
  | _, _ => false

/-- `other` is the inverse of `r`. A range without bounds has none. -/
def isInverse (r other : RangeOp P) : Bool :=
  r.hasBounds && sameBound r.minOut other.minIn && sameBound r.maxOut other.maxIn &&
    sameBound r.minIn other.minOut && sameBound r.maxIn other.maxOut

/-- What `r` followed by `next` can be written as. -/
def fuse (r next : RangeOp P) : FusedRange P := (r.affine.followedBy next.affine).toFused

def canFuse (r next : RangeOp P) : Bool :=
  r.validate.isOk && next.validate.isOk &&
    match r.fuse next with
    | .inexpressible => false
    | _ => true

/-- A bound in a cache ID. -/
def boundId [Stored P] : Option P → String
  | some v => Fingerprint.number v
  | none => "-"

def cacheId [Stored P] (r : RangeOp P) : String :=
  s!"{boundId r.minIn} {boundId r.maxIn} {boundId r.minOut} {boundId r.maxOut}"

end RangeOp

end ColorPipeline
