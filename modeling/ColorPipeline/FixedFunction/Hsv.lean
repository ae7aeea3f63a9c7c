-- Hue, saturation and value. A full turn of the hue is 1.
import ColorPipeline.FixedFunction.RedModifier

open scoped ColorPipeline.Scalar

namespace ColorPipeline

namespace Hsv

variable {S : Type} [Scalar S]

def ofRgb (p : Rgb S) : Rgb S :=
  let high := RedModifier.greatest p
  let delta := high - RedModifier.least p
  let saturation := if high == 0 then 0 else delta / high
  if delta == 0 then ⟨0, saturation, high⟩
  else
    let sixths :=
      if high == p.red then (p.green - p.blue) / delta
      else if high == p.green then 2 + (p.blue - p.red) / delta
      else 4 + (p.red - p.green) / delta
    let hue := sixths / 6
    ⟨if hue < 0 then hue + 1 else hue, saturation, high⟩

def toRgb (p : Rgb S) : Rgb S :=
  let h := (p.red - Scalar.floor p.red) * 6
  let hue : Rgb S :=
    ⟨Scalar.clamp (Scalar.abs (h - 3) - 1) 0 1, Scalar.clamp (2 - Scalar.abs (h - 2)) 0 1,
      Scalar.clamp (2 - Scalar.abs (h - 4)) 0 1⟩
  hue.map fun c => ((c - 1) * p.green + 1) * p.blue

end Hsv

end ColorPipeline
