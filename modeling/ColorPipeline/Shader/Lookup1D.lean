-- 1D tables in shader code. The samples stand in rows of a texture, and each
-- row ends with the sample that the next one begins with, so that a value
-- between two samples is always found within one row. A helper function turns
-- a channel value into coordinates of the texture.
import ColorPipeline.Op.Tables
import ColorPipeline.Shader.Formula
import ColorPipeline.Shader.Program

open scoped ColorPipeline.Scalar

namespace ColorPipeline

/-- A number of samples in rows of a number of texels. -/
structure CurveTexture where
  length : Nat
  width : Nat
  nearest : Bool

namespace CurveTexture

/-- The rows that hold all samples. -/
def height (t : CurveTexture) : Nat := (t.length - 1 + (t.width - 2)) / (t.width - 1)

/-- The sample at a texel. Texels after the last sample repeat it. -/
def sampleAt (t : CurveTexture) (row column : Nat) : Nat :=
  min (row * (t.width - 1) + column) (t.length - 1)

/-- The samples of the texels, row by row. -/
def layout (t : CurveTexture) : List Nat :=
  (List.range t.height).flatMap fun row => (List.range t.width).map fun column =>
    t.sampleAt row column

section Code

variable {P : Type} [Scalar P]

/-- The statements that turn the value `f` into coordinates: the steps from the
first sample, then the row, the steps within the row, and both at texel centres
as parts of the whole texture. -/
def positionStatements (t : CurveTexture) : List (Statement P) :=
  let dep : Formula P := .name "dep"
  let x : Formula P := .name "retVal.x"
  let y : Formula P := .name "retVal.y"
  let half : Formula P := .number 0.5
  [.define .float "dep" (.unit (.name "f") * .whole (t.length - 1))] ++
    (if t.nearest then [.assign "dep" (.floor (dep + half))] else []) ++
    [.declare .float2 "retVal",
      .assign "retVal.y" (.least (.floor (dep / .whole (t.width - 1))) (.whole (t.height - 1))),
      .assign "retVal.x" (dep - y * .whole (t.width - 1)),
      .assign "retVal.x" ((x + half) / .whole t.width),
      .assign "retVal.y" ((y + half) / .whole t.height),
      .yield "retVal"]

/-- The statements that look up each channel of the pixel. -/
def lookupStatements (texture pixel : String) : List (Statement P) :=
  [Channel.red, .green, .blue].map fun c =>
    let channel := Swizzle.ofChannel c
    .assign (pixel ++ "." ++ channel.name)
      (.part (.sample .two texture (.curvePosition texture (.part (.name pixel) channel))) channel)

/-- The helper function of a texture. -/
def helper [Stored P] (t : CurveTexture) (l : ShaderLanguage) (texture : String) : Code :=
  Code.ofList ["",
    .line s!"{l.typeName .float2} {Formula.curvePositionName texture}(float f)",
    .block (Statement.code l (t.positionStatements (P := P)))]

/-- How the pixel is looked up. -/
def tableLookup (texture pixel : String) : TableLookup P where
  comment := s!"Add LUT 1D processing for {texture}"
  inBlock := false
  steps := [.run (lookupStatements texture pixel)]

/-- The code of a lookup. -/
def lookup (P : Type) [Scalar P] [Stored P] (l : ShaderLanguage) (texture pixel : String) : Code :=
  (tableLookup (P := P) texture pixel).code l

end Code

end CurveTexture

namespace Lut1DOp

variable {P S : Type} [Scalar S]

/-- The number of samples of the table that stands for an inverse one. -/
def bakedSize : Nat := 4096

/-- The table that the shader looks up: the inverse direction has its own. -/
def shaderTable (l : Lut1DOp S) : Except (OpError P) (Lut1D S) :=
  match l.direction with
  | .forward => .ok l.lut
  | .inverse =>
    match l.lut.bakeInverse bakedSize with
    | .ok lut => .ok lut
    | .error e => .error (.lut (.size e))

/-- How the samples of a table are laid out in a texture. -/
def curveTexture (lut : Lut1D S) (maxWidth : Nat) : CurveTexture where
  length := lut.size
  width := min lut.size maxWidth
  nearest := lut.interpolation.onCurve == .nearest

/-- The texture of a table. -/
def textureImage (lut : Lut1D S) (t : CurveTexture) : TextureImage S where
  dim := .two
  width := t.width
  height := t.height
  depth := 1
  texels := t.layout.flatMap fun i => (lut.entry i).toList
  filter := if t.nearest then .nearest else .linear

/-- The program with the texture and the helper of a table, and the code that
uses them. Ops with the same cache ID share both. -/
def emit [Scalar P] [Stored P] (l : Lut1DOp S) (program : ShaderProgram S) (source : String) :
    Except (OpError P) (Code × ShaderProgram S) := do
  l.validate
  let lut ← l.shaderTable
  let t := curveTexture lut program.settings.maxWidth
  let language := program.settings.language
  let (name, withTexture) := program.addTexture "lut1d" source (textureImage lut t)
  let code := CurveTexture.lookup P language name program.settings.pixelName
  if (program.findTexture? source).isSome then
    return (code, withTexture)
  else
    return (code, withTexture.addHelper ((t.helper (P := P) language name).text language))

end Lut1DOp

end ColorPipeline
