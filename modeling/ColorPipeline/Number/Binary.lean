-- Binary floating-point formats: the number that a bit pattern stands for,
-- and the pattern that is nearest to an exact number. Conversions between
-- half, single and double precision are one decoding and one encoding.

namespace ColorPipeline

/-- A binary format: one sign bit, the bits of the exponent field and the
stored bits of the significand. -/
structure BinaryFormat where
  exponentBits : Nat
  fractionBits : Nat
deriving DecidableEq

/-- What a bit pattern stands for. A finite number is
`± significand · 2 ^ exponent`. -/
inductive BinaryValue where
  | nan
  | infinite (negative : Bool)
  | finite (negative : Bool) (significand : Nat) (exponent : Int)
deriving DecidableEq

namespace BinaryFormat

/-- Half precision: 16 bits. -/
def half : BinaryFormat := ⟨5, 10⟩

/-- Single precision: 32 bits. -/
def single : BinaryFormat := ⟨8, 23⟩

/-- Double precision: 64 bits. -/
def double : BinaryFormat := ⟨11, 52⟩

/-- The exponent field of the infinities and of NaN. -/
def topField (f : BinaryFormat) : Nat := Nat.pow 2 f.exponentBits - 1

/-- The exponent of the last place of the subnormal numbers. -/
def lowestExponent (f : BinaryFormat) : Int :=
  2 - Nat.pow 2 (f.exponentBits - 1) - f.fractionBits

/-- The weight of the sign bit. -/
def signWeight (f : BinaryFormat) : Nat := Nat.pow 2 (f.exponentBits + f.fractionBits)

/-! ## Patterns to numbers -/

/-- The number that a bit pattern stands for. -/
def decode (f : BinaryFormat) (bits : Nat) : BinaryValue :=
  let negative := bits / f.signWeight % 2 == 1
  let field := bits / Nat.pow 2 f.fractionBits % Nat.pow 2 f.exponentBits
  let fraction := bits % Nat.pow 2 f.fractionBits
  if field = f.topField then
    if fraction = 0 then .infinite negative else .nan
  else if field = 0 then .finite negative fraction f.lowestExponent
  else .finite negative (Nat.pow 2 f.fractionBits + fraction) (f.lowestExponent + (field - 1))

/-! ## Numbers to patterns -/

/-- `n / 2 ^ s` rounded to the nearest natural number, a half to the even
neighbour. -/
def shiftToNearest (n s : Nat) : Nat :=
  let q := n / Nat.pow 2 s
  let doubled := 2 * (n % Nat.pow 2 s)
  if Nat.pow 2 s < doubled then q + 1
  else if doubled = Nat.pow 2 s then q + q % 2
  else q

/-- The magnitude bits nearest to `m · 2 ^ e`. The exponent of the last place
is chosen so that the significand fits, and a significand that rounds up to
the next power of two carries into the exponent field by itself. -/
def roundMagnitude (f : BinaryFormat) (m : Nat) (e : Int) : Nat :=
  let place := max (e + m.log2 - f.fractionBits) f.lowestExponent
  let q :=
    if e ≤ place then shiftToNearest m (place - e).toNat else m * Nat.pow 2 (e - place).toNat
  min ((place - f.lowestExponent).toNat * Nat.pow 2 f.fractionBits + q)
    (f.topField * Nat.pow 2 f.fractionBits)

/-- The bit pattern nearest to a value, ties to the even significand; what is
too large becomes an infinity. -/
def encode (f : BinaryFormat) : BinaryValue → Nat
  | .nan => f.topField * Nat.pow 2 f.fractionBits + Nat.pow 2 (f.fractionBits - 1)
  | .infinite negative =>
    (if negative then f.signWeight else 0) + f.topField * Nat.pow 2 f.fractionBits
  | .finite negative m e =>
    (if negative then f.signWeight else 0) + if m = 0 then 0 else f.roundMagnitude m e

/-- The bits in format `g` nearest to the number with bits `bits` in format `f`. -/
def convert (f g : BinaryFormat) (bits : Nat) : Nat := g.encode (f.decode bits)

/-- The bit pattern nearest to `± n / d`. The quotient keeps more bits than
any format stores, and its last bit records whether a remainder was cut off,
so rounding it once is right. -/
def ofRatio (f : BinaryFormat) (negative : Bool) (n d : Nat) : Nat :=
  let s := d.log2 + f.fractionBits + 4 - n.log2
  let q := n * Nat.pow 2 s / d
  let rest := if n * Nat.pow 2 s % d = 0 then 0 else 1
  f.encode (.finite negative (2 * q + rest) (-1 - (s : Int)))

end BinaryFormat

end ColorPipeline
