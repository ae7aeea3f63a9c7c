-- Powers of each channel, with a choice of what happens to negative values.
import ColorPipeline.Image.Pixel
import ColorPipeline.Op.Error

open scoped ColorPipeline.Scalar

namespace ColorPipeline

/-- What happens to negative values. -/
inductive NegativeStyle where
  /-- They become zero. -/
  | clamp
  /-- The power of the absolute value gets the sign back. -/
  | mirror
  /-- They stay as they are. -/
  | passThrough
deriving DecidableEq, Inhabited

def NegativeStyle.name : NegativeStyle → String
  | .clamp => "clamp"
  | .mirror => "mirror"
  | .passThrough => "pass_thru"

structure ExponentOp (P : Type) where
  value : Rgba P
  style : NegativeStyle

namespace ExponentOp

variable {P : Type} [Scalar P]

def lowest : P := 0.01

def highest : P := 100

/-- How far from 1 the product of two exponents that cancel may be. -/
def tolerance : P := 1e-9

def checkValue (v : P) : Except (OpError P) Unit :=
  if !Scalar.isFinite v then .error (.invalid .exponent .exponentNotFinite)
  else if v < lowest then .error (.invalid .exponent (.exponentTooSmall v lowest))
  else if highest < v then .error (.invalid .exponent (.exponentTooLarge v highest))
  else .ok ()

def validate (e : ExponentOp P) : Except (OpError P) Unit := do
  checkValue e.value.red
  checkValue e.value.green
  checkValue e.value.blue
  checkValue e.value.alpha

/-- Exponents of 1 change nothing unless negative values are clamped. -/
def isIdentity (e : ExponentOp P) : Bool :=
  e.style != .clamp && e.value.toList.all fun v => v == 1

/-- The products of the exponents of two ops. -/
def product (e next : ExponentOp P) : Rgba P := e.value.zipWith (· * ·) next.value

/-- `other` undoes `e`. Two ops that clamp still take negative values to zero,
so they are never inverse. -/
def isInverse (e other : ExponentOp P) : Bool :=
  e.style != .clamp && e.style == other.style &&
    (e.product other).toList.all fun p => decide (Scalar.abs (p - 1) ≤ tolerance)

def inverse (e : ExponentOp P) : Except (OpError P) (ExponentOp P) :=
  if e.value.toList.any fun v => decide (v ≤ 0) then
    .error (.unsupported (.exponentWithoutInverse e.value.toList))
  else .ok { e with value := e.value.map fun v => 1 / v }

def canFuse (e next : ExponentOp P) : Bool :=
  e.style == next.style &&
    (e.product next).toList.all fun p => decide (lowest ≤ p) && decide (p ≤ highest)

/-- `e` followed by `next`. -/
def fuse (e next : ExponentOp P) : ExponentOp P := { e with value := e.product next }

def cacheId [Stored P] (e : ExponentOp P) : String :=
  " ".intercalate (e.value.toList.map Fingerprint.number ++ [e.style.name])

end ExponentOp

end ColorPipeline
