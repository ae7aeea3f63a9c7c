-- How values between the samples of a lookup table are found.

namespace ColorPipeline

inductive Interpolation where
  /-- The sample that is nearest. -/
  | nearest
  /-- Linear along each axis. -/
  | linear
  /-- Tetrahedral on a grid, linear on a curve. -/
  | tetrahedral
  /-- The best that the kind of table offers. -/
  | best
deriving DecidableEq

namespace Interpolation

/-- The method that a 1D table uses. -/
def onCurve : Interpolation → Interpolation
  | nearest => nearest
  | _ => linear

/-- The method that a 3D table uses. -/
def onGrid : Interpolation → Interpolation
  | nearest => nearest
  | linear => linear
  | tetrahedral => tetrahedral
  | best => tetrahedral

def name : Interpolation → String
  | nearest => "nearest"
  | linear => "linear"
  | tetrahedral => "tetrahedral"
  | best => "best"

end Interpolation

end ColorPipeline
