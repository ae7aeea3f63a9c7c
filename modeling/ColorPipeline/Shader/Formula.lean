-- Formulas and statements of shader code: what a table lookup computes. They
-- are kept as terms, so that what is evaluated is what is written.
import ColorPipeline.Shader.Code

open scoped ColorPipeline.Scalar

namespace ColorPipeline

/-- Components of a vector, or vectors made of its components. -/
inductive Swizzle where
  | r
  | g
  | b
  | x
  | y
  | z
  | rgb
  | zyx
deriving DecidableEq

namespace Swizzle

/-- Every swizzle. -/
def all : List Swizzle := [r, g, b, x, y, z, rgb, zyx]

def name : Swizzle → String
  | r => "r"
  | g => "g"
  | b => "b"
  | x => "x"
  | y => "y"
  | z => "z"
  | rgb => "rgb"
  | zyx => "zyx"

/-- The component of a channel. -/
def ofChannel : Channel → Swizzle
  | .red => r
  | .green => g
  | .blue => b

end Swizzle

/-- A formula. Numbers act on vectors component by component. -/
inductive Formula (P : Type) where
  | name (n : String)
  | number (v : P)
  | part (a : Formula P) (s : Swizzle)
  | add (a b : Formula P)
  | sub (a b : Formula P)
  | mul (a b : Formula P)
  | div (a b : Formula P)
  | floor (a : Formula P)
  | least (a b : Formula P)
  /-- The nearest value from 0 to 1. -/
  | unit (a : Formula P)
  | vector (x y z : Formula P)
  /-- The value of a texture. -/
  | sample (dim : TextureDim) (texture : String) (coords : Formula P)
  /-- The coordinates of a value in the texture of a curve. -/
  | curvePosition (texture : String) (value : Formula P)

namespace Formula

variable {P : Type}

instance : Add (Formula P) := ⟨add⟩
instance : Sub (Formula P) := ⟨sub⟩
instance : Mul (Formula P) := ⟨mul⟩
instance : Div (Formula P) := ⟨div⟩

/-- A constant vector. -/
def constant (v : Rgb P) : Formula P := vector (number v.red) (number v.green) (number v.blue)

/-- A whole number. -/
def whole [Scalar P] (n : Nat) : Formula P := number (Scalar.ofNat n)

/-- The helper function that gives coordinates in the texture of a curve. -/
def curvePositionName (texture : String) : String := s!"{texture}_computePos"

/-- How tightly an operator binds. Sums bind least, single terms most. -/
inductive Binding where
  | sum
  | product
  | term
deriving DecidableEq

/-- The text of a sum where something that binds like `outer` is asked for. -/
def sumText (outer : Binding) (s : String) : String :=
  match outer with
  | .sum => s
  | _ => s!"({s})"

/-- The text of a product where something that binds like `outer` is asked for. -/
def productText (outer : Binding) (s : String) : String :=
  match outer with
  | .term => s!"({s})"
  | _ => s

variable [Scalar P] [Stored P]

/-- The text of a formula where something that binds like `outer` is asked for. -/
def text (l : ShaderLanguage) : Binding → Formula P → String
  | _, name n => n
  | _, number v => ShaderLanguage.number v
  | _, part a s => a.text l .term ++ "." ++ s.name
  | outer, add a b => sumText outer (a.text l .sum ++ " + " ++ b.text l .product)
  | outer, sub a b => sumText outer (a.text l .sum ++ " - " ++ b.text l .product)
  | outer, mul a b => productText outer (a.text l .product ++ " * " ++ b.text l .term)
  | outer, div a b => productText outer (a.text l .product ++ " / " ++ b.text l .term)
  | _, floor a => "floor(" ++ a.text l .sum ++ ")"
  | _, least a b => "min(" ++ a.text l .sum ++ ", " ++ b.text l .sum ++ ")"
  | _, unit a => "clamp(" ++ a.text l .sum ++ ", 0.0, 1.0)"
  | _, vector x y z =>
    l.typeName .float3 ++ "(" ++ x.text l .sum ++ ", " ++ y.text l .sum ++ ", " ++
      z.text l .sum ++ ")"
  | _, sample dim texture coords => l.sample dim texture (coords.text l .sum)
  | _, curvePosition texture value =>
    curvePositionName texture ++ "(" ++ value.text l .sum ++ ")"

end Formula

/-! ## Statements -/

/-- A statement. The name of a variable may end in a swizzle where it is assigned to. -/
inductive Statement (P : Type) where
  | declare (type : ShaderType) (variableName : String)
  | define (type : ShaderType) (variableName : String) (value : Formula P)
  | assign (variableName : String) (value : Formula P)
  | yield (variableName : String)

/-- A comparison: the first value is above the second. -/
structure Above (P : Type) where
  high : Formula P
  low : Formula P

/-- Statements that are run where some comparisons all hold. -/
structure Branch (P : Type) where
  conditions : List (Above P)
  statements : List (Statement P)

/-! ## Lookups -/

/-- A step of a lookup. -/
inductive LookupStep (P : Type) where
  | run (statements : List (Statement P))
  /-- Only the first branch is run whose comparisons all hold. -/
  | choose (branches : List (Branch P))

/-- How code looks a color up in a table. -/
structure TableLookup (P : Type) where
  /-- What the comment in front says. -/
  comment : String
  /-- The variables of the steps are known to a block of their own only. -/
  inBlock : Bool
  steps : List (LookupStep P)

section Writing

variable {P : Type} [Scalar P] [Stored P] (l : ShaderLanguage)

def Statement.text : Statement P → String
  | declare type n => s!"{l.typeName type} {n};"
  | define type n value => s!"{l.typeName type} {n} = " ++ value.text l .sum ++ ";"
  | assign n value => s!"{n} = " ++ value.text l .sum ++ ";"
  | yield n => s!"return {n};"

/-- The code of statements, one to a line. -/
def Statement.code (statements : List (Statement P)) : Code :=
  Code.ofList (statements.map fun s => .line (s.text l))

def Above.text (c : Above P) : String := c.high.text l .sum ++ " > " ++ c.low.text l .sum

/-- Comparisons that must all hold. -/
def Above.allText (conditions : List (Above P)) : String :=
  " && ".intercalate (conditions.map fun c => c.text l)

/-- What stands in front of the block of a branch. A branch without comparisons is the last. -/
def Branch.head (isFirst : Bool) (b : Branch P) : String :=
  if b.conditions.isEmpty then "else"
  else if isFirst then s!"if ({Above.allText l b.conditions})"
  else s!"else if ({Above.allText l b.conditions})"

/-- The code of branches, from the first one on or from a later one. -/
def Branch.code : Bool → List (Branch P) → Code
  | _, [] => .nothing
  | isFirst, b :: rest =>
    Code.ofList [.line (b.head l isFirst), .block (Statement.code l b.statements)] ++
      code false rest

def LookupStep.code : LookupStep P → Code
  | run statements => Statement.code l statements
  | choose branches => Branch.code l true branches

def TableLookup.code (t : TableLookup P) : Code :=
  let steps := Code.ofList (t.steps.map (LookupStep.code l))
  Code.title t.comment ++ if t.inBlock then .block steps else steps

end Writing

end ColorPipeline
