-- What cache IDs are made of: single numbers in plain form, and long lists of
-- numbers as a digest. The sign of a zero does not show.
import ColorPipeline.Number.Sha256
import ColorPipeline.Number.Stored

open scoped ColorPipeline.Scalar

namespace ColorPipeline

namespace Fingerprint

variable {P : Type} [Scalar P] [Stored P]

/-- A number in plain form. Adding zero takes the sign from a negative zero. -/
def number (v : P) : String := Stored.plain (v + 0)

/-- The eight bytes of a pattern, lowest first. -/
def pushPattern (bytes : ByteArray) (bits : Nat) : ByteArray :=
  Nat.fold 8 (fun i _ bs => bs.push (UInt8.ofNat (bits >>> (8 * i)))) bytes

/-- The bytes of the patterns of a list of numbers. -/
def message (vs : List P) : ByteArray :=
  vs.foldl (fun bytes v => pushPattern bytes (Stored.bits (v + 0))) ByteArray.empty

/-- The SHA-256 digest of a list of numbers, in hex. -/
def digest (vs : List P) : String := Sha256.hex (message vs)

end Fingerprint

end ColorPipeline
