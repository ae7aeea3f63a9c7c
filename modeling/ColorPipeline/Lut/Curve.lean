-- Curves: samples spread evenly over the inputs from 0 to 1. A curve is
-- evaluated at an input, and a curve that never falls is searched for the
-- input of an output.
import ColorPipeline.Number.Scalar

open scoped ColorPipeline.Scalar

namespace ColorPipeline

/-- One channel of a 1D table. -/
structure Curve (S : Type) where
  size : Nat
  sample : Nat → S

namespace Curve

variable {S : Type} [Scalar S]

/-! ## Evaluation -/

/-- The input in steps between samples: 0 at the first, `size - 1` at the last. -/
def position (c : Curve S) (v : S) : S := Scalar.clamp v 0 1 * Scalar.ofNat (c.size - 1)

/-- The sample nearest to the input. -/
def nearest (c : Curve S) (v : S) : S :=
  c.sample (min (Scalar.toNat (Scalar.round (c.position v))) (c.size - 1))

/-- The point at the input on the line between the samples around it. -/
def linear (c : Curve S) (v : S) : S :=
  let t := c.position v
  let i := min (Scalar.toNat (Scalar.floor t)) (c.size - 2)
  let a := c.sample i
  a + (c.sample (i + 1) - a) * (t - Scalar.ofNat i)

/-- The value of the curve. Inputs outside 0 to 1 have the value of the nearer
end. An empty curve leaves values as they are, and a single sample stands for
all values. -/
def eval (c : Curve S) (toNearest : Bool) (v : S) : S :=
  if c.size = 0 then v
  else if c.size = 1 then c.sample 0
  else if toNearest then c.nearest v
  else c.linear v

/-! ## Inversion -/

/-- The first index from `lo` up to `hi` whose sample is not below `y`, and `hi`
if there is none. Samples that fall are searched as if they did not. -/
def firstNotBelow (c : Curve S) (y : S) (lo hi : Nat) : Nat :=
  if lo < hi then
    let middle := (lo + hi) / 2
    if c.sample middle < y then firstNotBelow c y (middle + 1) hi
    else firstNotBelow c y lo middle
  else lo
termination_by hi - lo

/-- The output moved to the nearer end of the samples when it lies outside them. -/
def withinSamples (c : Curve S) (v : S) : S :=
  Scalar.minNum (Scalar.maxNum v (c.sample 0)) (c.sample (c.size - 1))

/-- The least input with the value `v`, on a curve that never falls. Values
outside the samples have the input of the nearer end. -/
def invert (c : Curve S) (v : S) : S :=
  if c.size < 2 then Scalar.clamp v 0 1
  else
    let y := c.withinSamples v
    let i := c.firstNotBelow y 0 c.size
    if i = 0 then 0
    else if c.size ≤ i then 1
    else
      let below := c.sample (i - 1)
      let fraction := (y - below) / (c.sample i - below)
      (Scalar.ofNat (i - 1) + fraction) / Scalar.ofNat (c.size - 1)

end Curve

end ColorPipeline
