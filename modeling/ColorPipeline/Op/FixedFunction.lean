-- Fixed functions with their parameters. Only the surround functions have one:
-- a gamma.
import ColorPipeline.FixedFunction.Style
import ColorPipeline.Op.Error

open scoped ColorPipeline.Scalar

namespace ColorPipeline

structure FixedFunctionOp (P : Type) where
  style : FixedFunctionStyle
  parameters : List P

namespace FixedFunctionOp

variable {P : Type}

/-- The default is the first style. -/
def standard : FixedFunctionOp P := ⟨⟨.redModifier03, .forward⟩, []⟩

def isSurround (f : FixedFunctionOp P) : Bool := f.style.family == .surround2100

def inverse (f : FixedFunctionOp P) : FixedFunctionOp P := { f with style := f.style.inverse }

variable [Scalar P]

def lowest : P := 0.01

def highest : P := 100

/-- How far from 1 the product of two gammas that cancel may be. -/
def tolerance : P := 1e-9

/-- The first parameter, 1 where there is none. -/
def gamma (f : FixedFunctionOp P) : P := f.parameters.head?.getD 1

def checkGamma (v : P) : Except (OpError P) Unit :=
  if Scalar.isNaN v || decide (v < lowest) then
    .error (.invalid .fixedFunction (.parameterTooSmall v lowest))
  else if highest < v then .error (.invalid .fixedFunction (.parameterTooLarge v highest))
  else .ok ()

def validate (f : FixedFunctionOp P) : Except (OpError P) Unit :=
  if f.isSurround then
    match f.parameters with
    | [v] => checkGamma v
    | vs => .error (.invalid .fixedFunction (.surroundParameterCount vs.length))
  else
    match f.parameters with
    | [] => .ok ()
    | vs => .error (.invalid .fixedFunction (.unexpectedParameters f.style vs.length))

/-- Only a surround with gamma 1 changes nothing. -/
def isIdentity (f : FixedFunctionOp P) : Bool := f.isSurround && f.parameters == [1]

/-- Two forward surrounds whose gammas are reciprocal. -/
def reciprocalSurrounds (f other : FixedFunctionOp P) : Bool :=
  f.style == ⟨.surround2100, .forward⟩ && other.style == ⟨.surround2100, .forward⟩ &&
    match f.parameters, other.parameters with
    | [a], [b] => decide (Scalar.abs (a * b - 1) ≤ tolerance)
    | _, _ => false

/-- `other` undoes `f`: it is the opposite style with the same parameters, or
both are surrounds with reciprocal gammas. -/
def isInverse (f other : FixedFunctionOp P) : Bool :=
  (f.style.inverse == other.style && f.parameters == other.parameters) ||
    f.reciprocalSurrounds other

def cacheId [Stored P] (f : FixedFunctionOp P) : String :=
  " ".intercalate (f.style.name :: f.parameters.map Fingerprint.number)

end FixedFunctionOp

end ColorPipeline
