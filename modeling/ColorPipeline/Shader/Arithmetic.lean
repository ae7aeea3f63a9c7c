-- Matrices, ranges, exponents and logarithms in shader code.
import ColorPipeline.Op.Exponent
import ColorPipeline.Op.Log
import ColorPipeline.Op.Range
import ColorPipeline.Render.Renderer
import ColorPipeline.Shader.Code

open scoped ColorPipeline.Scalar

namespace ColorPipeline

variable {P : Type} [Scalar P] [Stored P]

/-- The row products where the matrix is not the identity, and the offset where
it is not zero. -/
def MatrixOp.code (m : MatrixOp P) (l : ShaderLanguage) (px : String) : Code :=
  let row (r : Rgba P) : String := s!"dot({px}, {l.vector4 r})"
  let rows := ", ".intercalate (m.matrix.toList.map row)
  let product : Code :=
    if m.hasIdentityMatrix then .nothing
    else .line s!"{px} = {l.typeName .float4}({rows});"
  let sum : Code :=
    if m.offset.toList.any fun v => !(v == 0) then .line s!"{px} = {px} + {l.vector4 m.offset};"
    else .nothing
  Code.title "Add Matrix processing" ++ product ++ sum

/-- The scale and the offset where they change something, and the limits. -/
def RangeOp.code (r : RangeOp P) (l : ShaderLanguage) (px : String) : Code :=
  let a := r.affine
  let all (v : P) : String := l.vector3 (Rgb.gray v)
  let map : Code :=
    if !(a.scale == 1) || !(a.offset == 0) then
      .line s!"{px}.rgb = {px}.rgb * {all a.scale} + {all a.offset};"
    else .nothing
  let lower : Code := match a.lower with
    | some lo => .line s!"{px}.rgb = max({all lo}, {px}.rgb);"
    | none => .nothing
  let upper : Code := match a.upper with
    | some hi => .line s!"{px}.rgb = min({all hi}, {px}.rgb);"
    | none => .nothing
  Code.title "Add Range processing" ++ map ++ lower ++ upper

/-- The power, by the style for negative values. -/
def ExponentOp.code (e : ExponentOp P) (l : ShaderLanguage) (px : String) : Code :=
  let powers := l.vector4 e.value
  let zero := l.vector4 (⟨0, 0, 0, 0⟩ : Rgba P)
  let clamped := s!"pow(max({px}, {zero}), {powers})"
  let value := match e.style with
    | .clamp => clamped
    | .mirror => s!"sign({px}) * pow(abs({px}), {powers})"
    | .passThrough => l.blend clamped px s!"step({px}, {zero})"
  Code.title "Add Exponent processing" ++ .line s!"{px} = {value};"

/-- Logarithms and powers of the base by way of those of 2. -/
def LogOp.code (o : LogOp P) (l : ShaderLanguage) (px : String) : Code :=
  let log2Base := Scalar.log2 o.base
  let body : Code := match o.direction with
    | .forward =>
      let floor := l.vector3 (Rgb.gray (Renderer.smallestNormal : P))
      Code.ofList [.line s!"{px}.rgb = max({floor}, {px}.rgb);",
        .line s!"{px}.rgb = log2({px}.rgb) * {ShaderLanguage.number (1 / log2Base)};"]
    | .inverse => .line s!"{px}.rgb = exp2({px}.rgb * {ShaderLanguage.number log2Base});"
  Code.title s!"Add Log processing ({o.direction.name})" ++ body

end ColorPipeline
