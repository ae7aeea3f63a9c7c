-- CIE XYZ and the coordinates that keep its luminance apart from its
-- chromaticity. Where a denominator is zero the quotient counts as zero.
import ColorPipeline.Image.Pixel
import ColorPipeline.Number.Scalar

open scoped ColorPipeline.Scalar

namespace ColorPipeline

namespace Chromaticity

variable {S : Type} [Scalar S]

def reciprocalOrZero (d : S) : S := if d == 0 then 0 else 1 / d

/-! ## x, y and luminance -/

def xyYOfXyz (p : Rgb S) : Rgb S :=
  let d := reciprocalOrZero (p.red + p.green + p.blue)
  ⟨p.red * d, p.green * d, p.green⟩

def xyzOfXyY (p : Rgb S) : Rgb S :=
  let d := reciprocalOrZero p.green
  ⟨p.blue * p.red * d, p.blue, p.blue * (1 - p.red - p.green) * d⟩

/-! ## u, v and luminance -/

def uvYOfXyz (p : Rgb S) : Rgb S :=
  let d := reciprocalOrZero (p.red + 15 * p.green + 3 * p.blue)
  ⟨4 * p.red * d, 9 * p.green * d, p.green⟩

/-- Twenty thirds. -/
def twentyThirds : S := 6.666667

def xyzOfUvY (p : Rgb S) : Rgb S :=
  let d := reciprocalOrZero p.green
  ⟨2.25 * p.blue * p.red * d, p.blue, 0.75 * p.blue * (4 - p.red - twentyThirds * p.green) * d⟩

/-! ## L*, u* and v*, with L* in units of 100 -/

/-- The chromaticity of the white point D65. -/
def whiteU : S := 0.19783001

def whiteV : S := 0.46831999

/-- Below this luminance, and below this lightness, the lightness is linear. -/
def luminanceBreak : S := 0.008856452

def lightnessBreak : S := 0.08

def kappa : S := 9.032963

def lightnessScale : S := 1.16

def lightnessOffset : S := 0.16

def luvOfXyz (p : Rgb S) : Rgb S :=
  let d := reciprocalOrZero (p.red + 15 * p.green + 3 * p.blue)
  let u := 4 * p.red * d
  let v := 9 * p.green * d
  let l :=
    if p.green ≤ luminanceBreak then kappa * p.green
    else lightnessScale * Scalar.cbrt p.green - lightnessOffset
  ⟨l, 13 * l * (u - whiteU), 13 * l * (v - whiteV)⟩

def xyzOfLuv (p : Rgb S) : Rgb S :=
  let l := p.red
  let d := if l == 0 then 0 else 1 / (13 * l)
  let u := p.green * d + whiteU
  let v := p.blue * d + whiteV
  let y :=
    if l ≤ lightnessBreak then l / kappa
    else
      let t := (l + lightnessOffset) / lightnessScale
      t * t * t
  let e := if v == 0 then 0 else 0.25 / v
  ⟨9 * y * u * e, y, y * (12 - 3 * u - 20 * v) * e⟩

end Chromaticity

end ColorPipeline
