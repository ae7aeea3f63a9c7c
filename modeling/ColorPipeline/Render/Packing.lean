-- Samples of packed images as numbers in units of 1.0, and buffers of RGB or
-- RGBA samples as buffers of RGBA samples.
import ColorPipeline.Image.Packed

open scoped ColorPipeline.Scalar

namespace ColorPipeline

variable {S : Type} [Scalar S]

/-! ## Units -/

/-- The code of a value, where `top` is the code of 1.0. Values outside the
codes have the nearer end, and NaN has code 0. -/
def codeOf (top v : S) : Nat := Scalar.toNat (Scalar.clamp (Scalar.round (v * top)) 0 top)

/-- Samples in units of 1.0, where `top` is the code of 1.0. -/
def Samples.units [Stored S] (top : S) : Samples S → List S
  | bytes values => values.map fun v => Scalar.ofNat v.toNat / top
  | words values => values.map fun v => Scalar.ofNat v.toNat / top
  | halves values => values.map Half.widen
  | floats values => values

/-- The samples of a storage for values in units of 1.0. -/
def Samples.ofUnits [Stored S] (storage : Storage) (top : S) (values : List S) : Samples S :=
  match storage with
  | .bytes => bytes (values.map fun v => UInt8.ofNat (codeOf top v))
  | .words => words (values.map fun v => UInt16.ofNat (codeOf top v))
  | .halves => halves (values.map Half.narrow)
  | .floats => floats values

/-! ## Channels -/

/-- The RGB pixels of a buffer with an alpha of 1. Samples that do not fill a
pixel are dropped. -/
def addAlpha : List S → List S
  | r :: g :: b :: rest => r :: g :: b :: 1 :: addAlpha rest
  | _ => []

/-- The RGBA pixels of a buffer without their alpha. -/
def dropAlpha : List S → List S
  | r :: g :: b :: _ :: rest => r :: g :: b :: dropAlpha rest
  | _ => []

/-- The pixels of a buffer with a number of channels, 3 or 4, as RGBA pixels. -/
def toRgba (channels : Nat) (samples : List S) : List S :=
  if channels = 4 then samples else addAlpha samples

/-- RGBA pixels as pixels with a number of channels, 3 or 4. -/
def ofRgba (channels : Nat) (samples : List S) : List S :=
  if channels = 4 then samples else dropAlpha samples

end ColorPipeline
