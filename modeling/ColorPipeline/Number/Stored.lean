-- Numbers that are kept as bit patterns: double-precision parameters and
-- single-precision samples. From the pattern follow the text of a number, its
-- reading, and its conversion to the other precisions.
import ColorPipeline.Number.Layout
import ColorPipeline.Number.Reading
import ColorPipeline.Number.Scalar

namespace ColorPipeline

/-- Numbers that are kept as patterns of a binary format. -/
class Stored (R : Type) where
  format : BinaryFormat
  bits : R → Nat
  ofBits : Nat → R

namespace Stored

variable {R : Type} [Stored R]

/-- What the pattern of a number stands for. -/
def value (v : R) : BinaryValue := (format R).decode (bits v)

/-- The plain form of a number. -/
def plain (v : R) : String := (value v).plain (format R)

/-- The literal form of a number. -/
def literal (v : R) : String := (value v).literal (format R)

/-- The six-digit form of a number. -/
def sixDigits (v : R) : String := (value v).sixDigits (format R)

/-- The number that a text spells. -/
def read? (text : List Char) : Option R := (Reading.bits (format R) text).map ofBits

/-- The nearest number of another precision. -/
def convert {Q : Type} [Stored Q] (v : R) : Q :=
  ofBits (BinaryFormat.convert (format R) (format Q) (bits v))

end Stored

instance : Stored Float where
  format := .double
  bits v := v.toBits.toNat
  ofBits n := Float.ofBits (UInt64.ofNat n)

instance : Stored Float32 where
  format := .single
  bits v := v.toBits.toNat
  ofBits n := Float32.ofBits (UInt32.ofNat n)

instance : Precision Float Float32 where
  narrow v := Stored.convert v
  widen v := Stored.convert v

instance : Scalar Float where
  ofNat := Float.ofNat
  ofDecimal := Float.ofScientific
  decLt a b := inferInstanceAs (Decidable (a < b))
  decLe a b := inferInstanceAs (Decidable (a ≤ b))
  abs := Float.abs
  floor := Float.floor
  round := Float.round
  sqrt := Float.sqrt
  cbrt := Float.cbrt
  pow := Float.pow
  ln := Float.log
  log2 := Float.log2
  atan2 := Float.atan2
  signum v := if v.isNaN then v else if v.toBits >>> 63 == 1 then -1.0 else 1.0
  isNaN := Float.isNaN
  isFinite := Float.isFinite
  infinity := Float.ofBits 0x7ff0000000000000
  toNat v := v.toUInt64.toNat

/-- The powers, logarithms, angles and cube roots of samples are computed with
double precision and rounded. -/
instance : Scalar Float32 where
  ofNat := Float32.ofNat
  ofDecimal := Float32.ofScientific
  decLt a b := inferInstanceAs (Decidable (a < b))
  decLe a b := inferInstanceAs (Decidable (a ≤ b))
  abs := Float32.abs
  floor := Float32.floor
  round := Float32.round
  sqrt := Float32.sqrt
  cbrt v := (Float.cbrt v.toFloat).toFloat32
  pow a b := (Float.pow a.toFloat b.toFloat).toFloat32
  ln v := (Float.log v.toFloat).toFloat32
  log2 v := (Float.log2 v.toFloat).toFloat32
  atan2 y x := (Float.atan2 y.toFloat x.toFloat).toFloat32
  signum v := if v.isNaN then v else if v.toBits >>> 31 == 1 then -1.0 else 1.0
  isNaN := Float32.isNaN
  isFinite := Float32.isFinite
  infinity := Float32.ofBits 0x7f800000
  toNat v := v.toUInt64.toNat

end ColorPipeline
