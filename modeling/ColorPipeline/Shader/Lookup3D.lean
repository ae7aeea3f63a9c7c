-- 3D tables in shader code. The entries run through blue first, so blue is the
-- x axis of the texture, and colours are swapped to make coordinates. The host
-- can blend linearly by itself. A tetrahedral lookup is written out: it reads
-- four corners of a cell, in the order of the fractions.
import ColorPipeline.Op.Tables
import ColorPipeline.Shader.Formula
import ColorPipeline.Shader.Program

open scoped ColorPipeline.Scalar

namespace ColorPipeline

/-- A case of the walk through a cell: comparisons of the fractions of two axes,
the first above the second, and the order of the axes where they hold. -/
structure WalkCase where
  comparisons : List (Channel × Channel)
  order : Grid.AxisOrder

namespace GridTexture

/-- The cases of the walk. The first that holds counts, and the last one always
holds. -/
def walkCases : List WalkCase :=
  [⟨[(.red, .green), (.green, .blue)], ⟨.red, .green, .blue⟩⟩,
    ⟨[(.red, .green), (.red, .blue)], ⟨.red, .blue, .green⟩⟩,
    ⟨[(.red, .green)], ⟨.blue, .red, .green⟩⟩,
    ⟨[(.green, .blue), (.red, .blue)], ⟨.green, .red, .blue⟩⟩,
    ⟨[(.green, .blue)], ⟨.green, .blue, .red⟩⟩,
    ⟨[], ⟨.blue, .green, .red⟩⟩]

variable {P : Type} [Scalar P]

/-! ## Formulas -/

/-- The pixel's colour in the unit cube. -/
def unitColor (pixel : String) : Formula P := .unit (.part (.name pixel) .rgb)

/-- The colour of the texture at coordinates in the order of the channels. -/
def colorAt (texture : String) (coords : Formula P) : Formula P :=
  .part (.sample .three texture (.part coords .zyx)) .rgb

/-- One lookup, which the host filters. -/
def directStatements (size : Nat) (texture pixel : String) : List (Statement P) :=
  [.define .float3 "coords"
      ((unitColor pixel * .number (Scalar.ofNat size - 1) + .number 0.5) / .whole size),
    .assign (pixel ++ ".rgb") (colorAt texture (.name "coords"))]

/-- The distance of neighbouring texels. -/
def step (size : Nat) : P := 1 / Scalar.ofNat size

/-- The coordinates one step on along each of the axes given. -/
def offsetAlong (size : Nat) (axes : List Channel) : Rgb P :=
  Rgb.ofFn fun c => if axes.contains c then step size else 0

/-- The corner of the cell one step on along each of the axes given. -/
def corner (size : Nat) (texture : String) (axes : List Channel) : Formula P :=
  let start : Formula P := .name "startPos"
  colorAt texture (if axes.isEmpty then start else start + .constant (offsetAlong size axes))

/-- The fraction of an axis. -/
def fraction (c : Channel) : Formula P := .part (.name "fr") (Swizzle.ofChannel c)

/-- What comes before the cases: the cell, the fractions and the outer corners. -/
def cellStatements (size : Nat) (texture pixel : String) : List (Statement P) :=
  [.define .float3 "coords" (unitColor pixel * .number (Scalar.ofNat size - 1)),
    .define .float3 "baseInd"
      (.least (.floor (.name "coords")) (.constant (Rgb.gray (Scalar.ofNat size - 2)))),
    .define .float3 "fr" (.name "coords" - .name "baseInd"),
    .define .float3 "startPos" ((.name "baseInd" + .number 0.5) * .number (step size)),
    .define .float3 "v1" (corner size texture []),
    .define .float3 "v4" (corner size texture [.red, .green, .blue]),
    .declare .float3 "v2",
    .declare .float3 "v3",
    .declare .float3 "f"]

/-- What one case sets: the two corners on the way and the weights. -/
def caseStatements (size : Nat) (texture : String) (o : Grid.AxisOrder) : List (Statement P) :=
  [.assign "v2" (corner size texture [o.first]),
    .assign "v3" (corner size texture [o.first, o.second]),
    .assign "f" (.vector (fraction o.first) (fraction o.second) (fraction o.third))]

/-- A case as a branch. -/
def caseBranch (size : Nat) (texture : String) (w : WalkCase) : Branch P where
  conditions := w.comparisons.map fun (a, b) => ⟨fraction a, fraction b⟩
  statements := caseStatements size texture w.order

/-- What comes after the cases: the sum along the way. -/
def sumStatement (pixel : String) : Statement P :=
  let v (n : String) : Formula P := .name n
  let weight (s : Swizzle) : Formula P := .part (.name "f") s
  .assign (pixel ++ ".rgb")
    (v "v1" + weight .x * (v "v2" - v "v1") + weight .y * (v "v3" - v "v2")
      + weight .z * (v "v4" - v "v3"))

/-! ## Code -/

/-- How the pixel is looked up. -/
def tableLookup (interpolation : Interpolation) (size : Nat) (texture pixel : String) :
    TableLookup P where
  comment := s!"Add LUT 3D processing for {texture}"
  inBlock := true
  steps :=
    if interpolation == .tetrahedral then
      [.run (cellStatements size texture pixel), .choose (walkCases.map (caseBranch size texture)),
        .run [sumStatement pixel]]
    else [.run (directStatements size texture pixel)]

/-- The code of a lookup. -/
def lookup (P : Type) [Scalar P] [Stored P] (l : ShaderLanguage) (interpolation : Interpolation)
    (size : Nat) (texture pixel : String) : Code :=
  (tableLookup (P := P) interpolation size texture pixel).code l

end GridTexture

namespace Lut3DOp

variable {P S : Type} [Scalar S]

/-- The texture of a table. -/
def textureImage (lut : Lut3D S) : TextureImage S where
  dim := .three
  width := lut.size
  height := lut.size
  depth := lut.size
  texels := tableNumbers lut.entries
  filter := if lut.interpolation.onGrid == .linear then .linear else .nearest

/-- The program with the texture of a table, and the code that uses it. -/
def emit [Scalar P] [Stored P] (l : Lut3DOp S) (program : ShaderProgram S) (source : String) :
    Except (OpError P) (Code × ShaderProgram S) := do
  l.validate
  let lut := l.evaluatedGrid
  let (name, withTexture) := program.addTexture "lut3d" source (textureImage lut)
  let code := GridTexture.lookup P program.settings.language lut.interpolation.onGrid lut.size name
    program.settings.pixelName
  return (code, withTexture)

end Lut3DOp

end ColorPipeline
