-- 1D lookup tables: a curve for each colour channel.
import ColorPipeline.Image.BitDepth
import ColorPipeline.Image.Pixel
import ColorPipeline.Lut.Curve
import ColorPipeline.Lut.Error
import ColorPipeline.Lut.Interpolation

open scoped ColorPipeline.Scalar

namespace ColorPipeline

/-- A 1D lookup table. Its samples are spread evenly over inputs from 0 to 1. -/
structure Lut1D (S : Type) where
  samples : Array (Rgb S)
  interpolation : Interpolation := .linear
  /-- The depth that the values had in the file they come from. -/
  depth : BitDepth := .float

namespace Lut1D

variable {S : Type}

def size (lut : Lut1D S) : Nat := lut.samples.size

/-! ## Making tables -/

def ofSamples (samples : Array (Rgb S)) : Except LutSizeError (Lut1D S) :=
  if samples.size < 2 then .error (.fewEntries samples.size) else .ok { samples }

variable [Scalar S]

/-- The `i`-th of `size` points spread evenly from 0 to 1. -/
def gridPoint (size i : Nat) : S := Scalar.ofNat i * (1 / Scalar.ofNat (size - 1))

/-- The table that leaves values from 0 to 1 as they are, of at least two samples. -/
def identity (size : Nat) : Lut1D S :=
  let size := max size 2
  { samples := Array.ofFn (n := size) fun i => Rgb.gray (gridPoint size i) }

/-- The samples of `f` at evenly spread points. -/
def ofFn (size : Nat) (f : S → Rgb S) : Except LutSizeError (Lut1D S) :=
  if size < 2 then .error (.fewEntries size)
  else ofSamples (Array.ofFn (n := size) fun i => f (gridPoint size i))

/-- The entry at an index, black beyond the end. -/
def entry (lut : Lut1D S) (i : Nat) : Rgb S := lut.samples.getD i (Rgb.gray 0)

/-! ## Questions -/

/-- Every sample is within `tolerance` of its own input. -/
def isIdentity (lut : Lut1D S) (tolerance : S) : Bool :=
  2 ≤ lut.size && (List.range lut.size).all fun i =>
    let expected : S := gridPoint lut.size i
    (lut.entry i).toList.all fun v => Scalar.abs (v - expected) ≤ tolerance

/-- No channel ever falls, so that the table can be inverted. -/
def isNonDecreasing (lut : Lut1D S) : Bool :=
  (List.range (lut.size - 1)).all fun i =>
    let low := lut.entry i
    let high := lut.entry (i + 1)
    low.red ≤ high.red && low.green ≤ high.green && low.blue ≤ high.blue

/-! ## Evaluation -/

/-- The curve of one channel. -/
def curve (lut : Lut1D S) (c : Channel) : Curve S where
  size := lut.size
  sample i := (lut.entry i).get c

/-- The values of the three curves. -/
def apply (lut : Lut1D S) (p : Rgb S) : Rgb S :=
  Rgb.ofFn fun c => (lut.curve c).eval (lut.interpolation.onCurve == .nearest) (p.get c)

/-- The inputs of the three curves that have the values of the pixel. -/
def applyInverse (lut : Lut1D S) (p : Rgb S) : Rgb S :=
  Rgb.ofFn fun c => (lut.curve c).invert (p.get c)

/-! ## New tables -/

/-- One table for `lut` followed by `next`, exact at its own samples only. -/
def compose (lut next : Lut1D S) (size : Nat) : Except LutSizeError (Lut1D S) := do
  let table ← ofFn size fun x => next.apply (lut.apply (Rgb.gray x))
  return { table with interpolation := lut.interpolation, depth := next.depth }

/-- A table of the inverse curves. -/
def bakeInverse (lut : Lut1D S) (size : Nat) : Except LutSizeError (Lut1D S) :=
  ofFn size fun x => lut.applyInverse (Rgb.gray x)

end Lut1D

end ColorPipeline
