-- The ACES red modifier: reds are pulled towards a pivot, by how close their
-- hue is to red and by how saturated they are.
import ColorPipeline.Image.Pixel
import ColorPipeline.Number.Scalar

open scoped ColorPipeline.Scalar

namespace ColorPipeline

/-- The constants of one version of the modifier. -/
structure RedModifier (S : Type) where
  scale : S
  pivot : S
  /-- The steps of the hue weight in one unit of angle. -/
  inverseWidth : S
  noiseLimit : S
  /-- The smaller of green and blue is moved too, so that the hue stays. -/
  keepsHue : Bool

namespace RedModifier

variable {S : Type} [Scalar S]

def version03 : RedModifier S :=
  { scale := 0.85, pivot := 0.03, inverseWidth := 1.9098593, noiseLimit := 1e-2, keepsHue := true }

def version10 : RedModifier S :=
  { scale := 0.82, pivot := 0.03, inverseWidth := 1.6976527, noiseLimit := 1e-2, keepsHue := false }

/-- The coefficients of the hue weight on one step, highest power first. -/
structure Cubic (S : Type) where
  a : S
  b : S
  c : S
  d : S

/-- The hue weight is a B-spline of four steps. -/
def splineStep : Nat → Cubic S
  | 0 => ⟨0.25, 0, 0, 0⟩
  | 1 => ⟨-0.75, 0.75, 0.75, 0.25⟩
  | 2 => ⟨0.75, -1.5, 0, 1⟩
  | _ => ⟨-0.25, 0.75, -0.75, 0.25⟩

/-- The value on one step of the hue weight. -/
def Cubic.value (m : Cubic S) (t : S) : S := m.d + t * (m.c + t * (m.b + t * m.a))

/-- The weight at a place among the steps. -/
def weightAt (knot : S) : S :=
  if 0 ≤ Scalar.floor knot ∧ Scalar.floor knot < 4 then
    (splineStep (Scalar.toNat (Scalar.floor knot))).value (knot - Scalar.floor knot)
  else 0

def squareRoot3 : S := 1.7320508

/-- How close the hue is to red: 1 at red, 0 two steps away from it. -/
def hueWeight (p : Rgb S) (inverseWidth : S) : S :=
  let a := 2 * p.red - (p.green + p.blue)
  let b := squareRoot3 * (p.green - p.blue)
  weightAt (Scalar.atan2 b a * inverseWidth + 2)

def least (p : Rgb S) : S := Scalar.minNum (Scalar.minNum p.red p.green) p.blue

def greatest (p : Rgb S) : S := Scalar.maxNum (Scalar.maxNum p.red p.green) p.blue

/-- How saturated a colour is. Dark colours count as less saturated. -/
def saturation (p : Rgb S) (noiseLimit : S) : S :=
  (Scalar.maxNum (greatest p) 1e-10 - Scalar.maxNum (least p) 1e-10) /
    Scalar.maxNum (greatest p) noiseLimit

/-- The colour with a new red, and with the smaller of green and blue at the
same part of the way between the other two channels as before. -/
def restoreHue (p : Rgb S) (newRed : S) : Rgb S :=
  if p.blue ≤ p.green then
    let part := (p.green - p.blue) / Scalar.maxNum (p.red - p.blue) 1e-10
    ⟨newRed, part * (newRed - p.blue) + p.blue, p.blue⟩
  else
    let part := (p.blue - p.green) / Scalar.maxNum (p.red - p.green) 1e-10
    ⟨newRed, p.green, part * (newRed - p.green) + p.green⟩

/-- The colour with a new red. -/
def withRed (k : RedModifier S) (p : Rgb S) (newRed : S) : Rgb S :=
  if k.keepsHue then restoreHue p newRed else { p with red := newRed }

/-- The colour pulled towards the pivot, with a given weight. -/
def pulled (k : RedModifier S) (hue : S) (p : Rgb S) : Rgb S :=
  k.withRed p (p.red + hue * saturation p k.noiseLimit * (k.pivot - p.red) * (1 - k.scale))

def forward (k : RedModifier S) (p : Rgb S) : Rgb S :=
  let hue := hueWeight p k.inverseWidth
  if hue ≤ 0 then p else k.pulled hue p

/-- The upper root of `a * x * x + b * x + c`, for a negative `a`. -/
def upperRoot (a b c : S) : S :=
  (-b - Scalar.sqrt (Scalar.maxNum (b * b - 4 * a * c) 0)) / (2 * a)

/-- The colour pushed away from the pivot, with a given weight. Its red is the one that
is pulled to where it is now. -/
def pushed (k : RedModifier S) (hue : S) (p : Rgb S) : Rgb S :=
  let low := Scalar.minNum p.green p.blue
  k.withRed p (upperRoot (hue * (1 - k.scale) - 1)
    (p.red - hue * (k.pivot + low) * (1 - k.scale)) (hue * k.pivot * low * (1 - k.scale)))

def inverse (k : RedModifier S) (p : Rgb S) : Rgb S :=
  let hue := hueWeight p k.inverseWidth
  if hue ≤ 0 then p else k.pushed hue p

end RedModifier

end ColorPipeline
