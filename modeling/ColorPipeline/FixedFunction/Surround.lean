-- Surround corrections: a colour is multiplied by a power of its luminance,
-- which is not taken below a floor.
import ColorPipeline.Image.Pixel
import ColorPipeline.Number.Scalar

open scoped ColorPipeline.Scalar

namespace ColorPipeline

namespace Surround

variable {S : Type} [Scalar S]

/-- The luminance of a colour with given weights. -/
def luminance (weights p : Rgb S) : S :=
  weights.red * p.red + weights.green * p.green + weights.blue * p.blue

/-- The colour multiplied by a number. -/
def gain (p : Rgb S) (factor : S) : Rgb S := p.map fun v => v * factor

/-! ## ACES dark to dim -/

/-- The luminance weights of the AP1 primaries. -/
def weightsAP1 : Rgb S := ⟨0.27222872, 0.67408177, 0.05368952⟩

def darkToDimGamma : S := 0.9811

def darkToDimFloor : S := 1e-10

def darkToDim (gamma : S) (p : Rgb S) : Rgb S :=
  gain p (Scalar.pow (Scalar.maxNum (luminance weightsAP1 p) darkToDimFloor) (gamma - 1))

/-! ## Rec.2100 -/

/-- The luminance weights of Rec.2100. -/
def weights2100 : Rgb S := ⟨0.2627, 0.6780, 0.0593⟩

def floor2100 : S := 1e-4

/-- What a colour is multiplied by, from its luminance without sign. -/
def factor2100 (gamma floor y : S) : S := Scalar.pow (Scalar.maxNum y floor) (gamma - 1)

def rec2100 (gamma floor : S) (p : Rgb S) : Rgb S :=
  gain p (factor2100 gamma floor (Scalar.abs (luminance weights2100 p)))

/-- The floor of the luminances that come out of the forward correction. -/
def outputFloor2100 (gamma : S) : S := Scalar.pow floor2100 gamma

end Surround

end ColorPipeline
