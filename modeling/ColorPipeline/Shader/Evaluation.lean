-- What shader code computes: the values of formulas, the effect of statements, and what the
-- host gives for a texture at coordinates from 0 to 1.
import ColorPipeline.Lut.Grid
import ColorPipeline.Shader.Formula
import ColorPipeline.Shader.Program

open scoped ColorPipeline.Scalar

namespace ColorPipeline

/-! ## Values -/

/-- A value as its components. A single number is the same in every component. -/
abbrev ShaderValue (R : Type) := Nat → R

/-- The component of the whole that is component `i` of the part. -/
def Swizzle.component : Swizzle → Nat → Nat
  | r, _ => 0
  | g, _ => 1
  | b, _ => 2
  | x, _ => 0
  | y, _ => 1
  | z, _ => 2
  | rgb, i => i
  | zyx, i => 2 - i

/-- The components of the whole that the part consists of, in the order of the part. -/
def Swizzle.places : Swizzle → List Nat
  | r => [0]
  | g => [1]
  | b => [2]
  | x => [0]
  | y => [1]
  | z => [2]
  | rgb => [0, 1, 2]
  | zyx => [2, 1, 0]

/-- The whole with another value for the part. The other components stay. -/
def Swizzle.replace {R : Type} (w : Swizzle) (value whole : ShaderValue R) : ShaderValue R :=
  fun i => if i ∈ w.places then value (w.places.idxOf i) else whole i

/-- The component of a colour that holds a channel. -/
def Channel.component : Channel → Nat
  | .red => 0
  | .green => 1
  | .blue => 2

/-! ## Variables -/

/-- The values of the variables. -/
abbrev ShaderState (R : Type) := String → ShaderValue R

namespace ShaderState

variable {R : Type}

/-- The swizzle that a name ends in, behind a dot. -/
def partOf? (n : String) : Option Swizzle :=
  Swizzle.all.find? fun w => ("." ++ w.name).toList.isSuffixOf n.toList

/-- A name as a variable, and the part of it if the name ends in one. -/
def resolve (n : String) : String × Option Swizzle :=
  match partOf? n with
  | some w => (String.ofList (n.toList.take (n.toList.length - ("." ++ w.name).toList.length)), some w)
  | none => (n, none)

/-- The value of what a name stands for. -/
def read (s : ShaderState R) (n : String) : ShaderValue R :=
  match resolve n with
  | (v, some w) => fun i => s v (w.component i)
  | (v, none) => s v

/-- The variables with another value for what a name stands for. -/
def write (s : ShaderState R) (n : String) (value : ShaderValue R) : ShaderState R :=
  match resolve n with
  | (v, some w) => fun m => if m = v then w.replace value (s v) else s m
  | (v, none) => fun m => if m = v then value else s m

end ShaderState

/-! ## Textures -/

section Sampling

variable {R : Type} [Scalar R]

/-- The index of a texel along an axis of `size` texels, that of the nearer end outside. -/
def TextureFilter.edge (size : Nat) (i : R) : Nat := min (Scalar.toNat i) (size - 1)

/-- The value at a coordinate along an axis of `size` texels. Each texel stands at its
centre, half a texel behind its start. -/
def TextureFilter.along (filter : TextureFilter) (size : Nat) (u : R) (texel : Nat → R) : R :=
  match filter with
  | .nearest => texel (edge size (Scalar.floor (u * Scalar.ofNat size)))
  | .linear =>
    let p := u * Scalar.ofNat size - 0.5
    let i := Scalar.floor p
    Grid.blend (texel (edge size i)) (texel (edge size (i + 1))) (p - i)

/-- A component of a texel, 0 beyond the texels. -/
def TextureImage.texel (t : TextureImage R) (x y z component : Nat) : R :=
  t.texels.getD (3 * ((z * t.height + y) * t.width + x) + component) 0

/-- The value of a texture at coordinates from 0 to 1. -/
def TextureImage.sample (t : TextureImage R) (coords : ShaderValue R) : ShaderValue R :=
  fun component =>
    t.filter.along t.width (coords 0) fun x =>
      t.filter.along t.height (coords 1) fun y =>
        match t.dim with
        | .two => t.texel x y 0 component
        | .three => t.filter.along t.depth (coords 2) fun z => t.texel x y z component

end Sampling

/-! ## Code -/

/-- What code uses besides its variables: the textures that the host has bound, and the
helper functions for coordinates in the textures of curves. -/
structure ShaderResources (R : Type) where
  texture : String → TextureImage R
  curvePosition : String → R → ShaderValue R

variable {R : Type} [Scalar R]

/-- The value of a formula. -/
def Formula.eval (res : ShaderResources R) (s : ShaderState R) : Formula R → ShaderValue R
  | name n => s.read n
  | number v => fun _ => v
  | part a w => fun i => a.eval res s (w.component i)
  | add a b => fun i => a.eval res s i + b.eval res s i
  | sub a b => fun i => a.eval res s i - b.eval res s i
  | mul a b => fun i => a.eval res s i * b.eval res s i
  | div a b => fun i => a.eval res s i / b.eval res s i
  | floor a => fun i => Scalar.floor (a.eval res s i)
  | least a b => fun i => Scalar.minNum (a.eval res s i) (b.eval res s i)
  | unit a => fun i => Scalar.clamp (a.eval res s i) 0 1
  | vector x y z => fun i =>
    match i with
    | 0 => x.eval res s 0
    | 1 => y.eval res s 0
    | _ => z.eval res s 0
  | sample _ texture coords => (res.texture texture).sample (coords.eval res s)
  | curvePosition texture value => res.curvePosition texture (value.eval res s 0)

/-- The variable that holds what a function gives back. -/
def ShaderState.result : String := "return"

/-- The variables after a statement. -/
def Statement.exec (res : ShaderResources R) (s : ShaderState R) : Statement R → ShaderState R
  | declare _ _ => s
  | define _ n value => s.write n (value.eval res s)
  | assign n value => s.write n (value.eval res s)
  | yield n => s.write ShaderState.result (s.read n)

/-- The variables after statements one after the other. -/
def Statement.run (res : ShaderResources R) (statements : List (Statement R))
    (s : ShaderState R) : ShaderState R :=
  statements.foldl (Statement.exec res) s

/-- A comparison holds. -/
def Above.Holds (res : ShaderResources R) (s : ShaderState R) (c : Above R) : Prop :=
  c.low.eval res s 0 < c.high.eval res s 0

instance (res : ShaderResources R) (s : ShaderState R) (c : Above R) :
    Decidable (c.Holds res s) := Scalar.decLt _ _

/-- The variables after branches, of which the first is run whose comparisons all hold. -/
def Branch.run (res : ShaderResources R) : List (Branch R) → ShaderState R → ShaderState R
  | [], s => s
  | b :: rest, s =>
    if ∀ c ∈ b.conditions, c.Holds res s then Statement.run res b.statements s else run res rest s

/-- The variables after a step of a lookup. -/
def LookupStep.exec (res : ShaderResources R) (s : ShaderState R) : LookupStep R → ShaderState R
  | run statements => Statement.run res statements s
  | choose branches => Branch.run res branches s

/-- The variables after a lookup. -/
def TableLookup.run (res : ShaderResources R) (t : TableLookup R) (s : ShaderState R) :
    ShaderState R :=
  t.steps.foldl (LookupStep.exec res) s

/-- No texture and no helper function. -/
def ShaderResources.none : ShaderResources R where
  texture _ :=
    { dim := .two, width := 0, height := 0, depth := 0, texels := [], filter := .nearest }
  curvePosition _ _ _ := 0

/-- What a function of one argument gives back that uses nothing but the argument. -/
def Statement.call (statements : List (Statement R)) (argument : String) (v : R) : ShaderValue R :=
  (run .none statements (ShaderState.write (fun _ _ => 0) argument fun _ => v)).read
    ShaderState.result

end ColorPipeline
