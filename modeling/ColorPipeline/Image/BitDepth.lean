-- Bit depths: how many bits a channel of a pixel has, and which code value
-- stands for 1.0.
import ColorPipeline.Number.Scalar

namespace ColorPipeline

/-- The bit depth of one channel. 10-bit and 12-bit codes are kept in 16 bits. -/
inductive BitDepth where
  | unknown
  | uint8
  | uint10
  | uint12
  | uint16
  | half
  | float
deriving DecidableEq

namespace BitDepth

/-- Bits of one channel; 0 when unknown. -/
def bits : BitDepth → Nat
  | unknown => 0
  | uint8 => 8
  | uint10 => 10
  | uint12 => 12
  | uint16 => 16
  | half => 16
  | float => 32

def isFloat (d : BitDepth) : Bool := d == half || d == float

/-- The code value that stands for 1.0. Floating-point channels, and channels
of unknown depth, are already in units of 1.0. -/
def topCode : BitDepth → Nat
  | uint8 => 255
  | uint10 => 1023
  | uint12 => 4095
  | uint16 => 65535
  | unknown => 1
  | half => 1
  | float => 1

/-- The code value that stands for 1.0, as a sample. -/
def maxValue {S : Type} [Scalar S] (d : BitDepth) : S := Scalar.ofNat d.topCode

/-- The code of a depth in LUT files and settings. An unknown depth is written
as float. -/
def code : BitDepth → String
  | unknown => "32f"
  | uint8 => "8i"
  | uint10 => "10i"
  | uint12 => "12i"
  | uint16 => "16i"
  | half => "16f"
  | float => "32f"

/-- The depth with a given code. -/
def ofCode? : String → Option BitDepth
  | "8i" => some uint8
  | "10i" => some uint10
  | "12i" => some uint12
  | "16i" => some uint16
  | "16f" => some half
  | "32f" => some float
  | _ => none

/-- The name of a depth in messages. -/
def label : BitDepth → String
  | unknown => "unknown"
  | uint8 => "8-bit"
  | uint10 => "10-bit"
  | uint12 => "12-bit"
  | uint16 => "16-bit"
  | half => "half"
  | float => "float"

/-- The code of a known depth reads back. -/
theorem ofCode?_code {d : BitDepth} (h : d ≠ unknown) : ofCode? d.code = some d := by
  cases d with
  | unknown => exact absurd rfl h
  | _ => rfl

end BitDepth

end ColorPipeline
