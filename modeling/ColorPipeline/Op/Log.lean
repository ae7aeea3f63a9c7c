-- Logarithms of the colour channels, and powers of the base to undo them.
import ColorPipeline.Op.Direction
import ColorPipeline.Op.Error

open scoped ColorPipeline.Scalar

namespace ColorPipeline

/-- Forward takes the logarithm, inverse raises the base to the value. -/
structure LogOp (P : Type) where
  base : P
  direction : Direction

namespace LogOp

variable {P : Type}

def inverse (l : LogOp P) : LogOp P := { l with direction := l.direction.flip }

variable [Scalar P]

def validate (l : LogOp P) : Except (OpError P) Unit :=
  if !Scalar.isFinite l.base || decide (l.base ≤ 0) then
    .error (.invalid .log (.baseNotPositive l.base))
  else if l.base == 1 then .error (.invalid .log .baseIsOne)
  else .ok ()

/-- `other` undoes `l`: the same base in the other direction. -/
def isInverse (l other : LogOp P) : Bool :=
  l.base == other.base && l.direction != other.direction

def cacheId [Stored P] (l : LogOp P) : String :=
  s!"{Fingerprint.number l.base} {l.direction.name}"

end LogOp

end ColorPipeline
