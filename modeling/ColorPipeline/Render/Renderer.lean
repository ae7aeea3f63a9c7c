-- Renderers: what an op does to a pixel. A renderer holds the parameters of its
-- op rounded to samples.
import ColorPipeline.FixedFunction.Apply
import ColorPipeline.Op.Basic

open scoped ColorPipeline.Scalar

namespace ColorPipeline

inductive Renderer (S : Type) where
  | matrix (weights : Matrix4 S) (offset : Rgba S)
  | range (scale offset : S) (lower upper : Option S)
  | exponent (powers : Rgba S) (style : NegativeStyle)
  /-- The logarithm, with one over the natural logarithm of the base. -/
  | logarithm (factor : S)
  /-- The power of the base. -/
  | antilogarithm (base : S)
  | lut1D (lut : Lut1D S) (direction : Direction)
  | lut3D (lut : Lut3D S)
  | fixedFunction (style : FixedFunctionStyle) (gamma : S)

namespace Renderer

variable {P S : Type} [Scalar S]

/-! ## Single values -/

/-- The value, not below a limit. Without a limit NaN still becomes the lowest
value there is. -/
def atLeast (lower : Option S) (v : S) : S :=
  match lower with
  | some lo => Scalar.maxNum v lo
  | none => if Scalar.isNaN v then -Scalar.infinity else v

/-- The value, not above a limit. Without a limit NaN still becomes the highest
value there is. -/
def atMost (upper : Option S) (v : S) : S :=
  match upper with
  | some hi => Scalar.minNum v hi
  | none => if Scalar.isNaN v then Scalar.infinity else v

/-- A power of a value of either sign. -/
def power (style : NegativeStyle) (v e : S) : S :=
  match style with
  | .clamp => Scalar.pow (Scalar.maxNum v 0) e
  | .mirror => Scalar.signum v * Scalar.pow (Scalar.abs v) e
  | .passThrough => if v < 0 then v else Scalar.pow v e

/-- The smallest sample that is stored with full precision. -/
def smallestNormal {R : Type} [Scalar R] : R := 1 / Scalar.ofNat (Nat.pow 2 126)

/-! ## Pixels -/

/-- The pixel after the op. Only matrices and exponents change alpha. -/
def apply : Renderer S → Rgba S → Rgba S
  | matrix weights offset => fun p => (weights.mulVec p).zipWith (· + ·) offset
  | range scale offset lower upper =>
    Rgba.mapRgb fun c => c.map fun v => atMost upper (atLeast lower (v * scale + offset))
  | exponent powers style => fun p => p.zipWith (power style) powers
  | logarithm factor =>
    Rgba.mapRgb fun c => c.map fun v => Scalar.ln (Scalar.maxNum v smallestNormal) * factor
  | antilogarithm base => Rgba.mapRgb fun c => c.map fun v => Scalar.pow base v
  | lut1D lut .forward => Rgba.mapRgb lut.apply
  | lut1D lut .inverse => Rgba.mapRgb lut.applyInverse
  | lut3D lut => Rgba.mapRgb lut.apply
  | fixedFunction style gamma => Rgba.mapRgb (style.apply gamma)

variable [Scalar P] [Precision P S]

/-- The renderer of an op. Tables are checked first. -/
def ofData : OpData P S → Except (OpError P) (Renderer S)
  | .matrix m =>
    .ok (matrix (m.matrix.map fun row => row.map Precision.narrow) (m.offset.map Precision.narrow))
  | .range r =>
    let a := r.affine
    .ok (range (Precision.narrow a.scale) (Precision.narrow a.offset)
      (a.lower.map Precision.narrow) (a.upper.map Precision.narrow))
  | .exponent e => .ok (exponent (e.value.map Precision.narrow) e.style)
  | .log l =>
    let base : S := Precision.narrow l.base
    match l.direction with
    | .forward => .ok (logarithm (1 / Scalar.ln base))
    | .inverse => .ok (antilogarithm base)
  | .lut1D l => l.validate.map fun _ => lut1D l.lut l.direction
  | .lut3D l => l.validate.map fun _ => lut3D l.evaluatedGrid
  | .fixedFunction f => .ok (fixedFunction f.style (Precision.narrow f.gamma))

/-- The renderer of a finalized op. -/
def ofOp (op : Op P S) : Except (OpError P) (Renderer S) := do
  op.requireFinalized .renderer
  ofData op.data

/-- The pixel after the op, which can read a grid point without an entry. -/
def read : Renderer S → Rgba S → Except LutSizeError (Rgba S)
  | lut3D lut => fun p =>
    match lut.valueAt? p.rgb with
    | some c => .ok (.ofRgb c p.alpha)
    | none => .error lut.missing
  | r => fun p => .ok (r.apply p)

/-! ## Buffers -/

/-- The pixels of a buffer of RGBA samples after the op. Samples that do not
fill a pixel stay as they are. -/
def applyBuffer (r : Renderer S) : List S → List S
  | red :: green :: blue :: alpha :: rest =>
    (r.apply ⟨red, green, blue, alpha⟩).toList ++ applyBuffer r rest
  | rest => rest

end Renderer

end ColorPipeline
