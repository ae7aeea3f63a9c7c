-- The ACES glow: dark saturated colours are brightened.
import ColorPipeline.FixedFunction.RedModifier

open scoped ColorPipeline.Scalar

namespace ColorPipeline

/-- The constants of one version of the glow. -/
structure Glow (S : Type) where
  gain : S
  mid : S
  noiseLimit : S

namespace Glow

variable {S : Type} [Scalar S]

def version03 : Glow S := { gain := 0.075, mid := 0.1, noiseLimit := 1e-2 }

def version10 : Glow S := { gain := 0.05, mid := 0.08, noiseLimit := 1e-2 }

/-- How much the chroma counts in the brightness. -/
def chromaWeight : S := 1.75

/-- The brightness of a colour. -/
def brightness (p : Rgb S) : S :=
  let chroma := Scalar.sqrt (Scalar.maxNum
    (p.blue * (p.blue - p.green) + p.green * (p.green - p.red) + p.red * (p.red - p.blue)) 0)
  (p.blue + p.green + p.red + chromaWeight * chroma) / 3

/-- The side of the middle of a step that a place is on. -/
def side (x : S) : S := if x < 0 then -1 else 1

/-- What a place is short of the end of a step, as a part of a half of it. -/
def rest (x : S) : S := Scalar.maxNum (1 - 0.5 * side x * x) 0

/-- A smooth step from 0 to 1 around a saturation of 0.4. -/
def sigmoid (saturation : S) : S :=
  let x := (saturation - 0.4) * 5
  (1 + side x * (1 - rest x * rest x)) * 0.5

/-- The gain that the saturation of a colour calls for. -/
def saturationGain (k : Glow S) (p : Rgb S) : S :=
  k.gain * sigmoid (RedModifier.saturation p k.noiseLimit)

/-- The colour made brighter by a part of itself. -/
def brighten (p : Rgb S) (part : S) : Rgb S := p.map fun v => v * (1 + part)

/-- What the glow adds to a colour of brightness `y`, as a part of the colour: the full
gain for dark colours, none for bright ones. -/
def forwardPart (k : Glow S) (y gain : S) : S :=
  if k.mid * 2 ≤ y then 0
  else if y ≤ k.mid * 2 / 3 then gain
  else gain * (k.mid / y - 0.5)

/-- What the inverse adds, which is not positive. -/
def inversePart (k : Glow S) (y gain : S) : S :=
  if k.mid * 2 ≤ y then 0
  else if y ≤ (1 + gain) * k.mid * 2 / 3 then -gain / (1 + gain)
  else gain * (k.mid / y - 0.5) / (gain * 0.5 - 1)

def forward (k : Glow S) (p : Rgb S) : Rgb S :=
  brighten p (k.forwardPart (brightness p) (k.saturationGain p))

def inverse (k : Glow S) (p : Rgb S) : Rgb S :=
  brighten p (k.inversePart (brightness p) (k.saturationGain p))

end Glow

end ColorPipeline
