-- How numbers are written. Three forms are in use: the plain form of cache
-- IDs and messages, never with an exponent; the literal form of shader code,
-- always with a point or an exponent; and the six-digit form of parameter
-- messages.
import ColorPipeline.Number.Shortest

namespace ColorPipeline

namespace Decimal

/-- The digits of the whole number `n`, most significant first. -/
def wholeDigits (n : Nat) : List Char := Nat.toDigits 10 n

/-- The power of ten of the first digit. -/
def leadingExponent (d : Decimal) : Int := d.exponent + (wholeDigits d.digits).length - 1

/-- All digits written out, with a point only where digits follow it. -/
def positional (d : Decimal) : List Char :=
  let ds := wholeDigits d.digits
  let places := (-d.exponent).toNat
  if places = 0 then ds ++ List.replicate d.exponent.toNat '0'
  else
    let padded := List.replicate (places + 1 - ds.length) '0' ++ ds
    let whole := padded.length - places
    padded.take whole ++ '.' :: padded.drop whole

/-- One digit, a point if more digits follow, and the rest. -/
def mantissa (d : Decimal) : List Char :=
  match wholeDigits d.digits with
  | [] => []
  | [c] => [c]
  | c :: rest => c :: '.' :: rest

/-- A whole exponent with a minus sign where it is negative. -/
def exponentText (x : Int) : List Char :=
  (if x < 0 then ['-'] else []) ++ wholeDigits x.natAbs

/-- The text of a number written with a point, less trailing zeros of its
fraction and less a point that then ends it. -/
def trimFraction (cs : List Char) : List Char :=
  if '.' ∈ cs then
    (((cs.reverse.dropWhile (· == '0')).dropWhile (· == '.'))).reverse
  else cs

end Decimal

namespace BinaryValue

/-- A minus sign where `negative` is set, then `cs`. -/
def signed (negative : Bool) (cs : List Char) : String :=
  String.ofList (if negative then '-' :: cs else cs)

/-- The plain form: the shortest digits that read back, all written out. -/
def plain (f : BinaryFormat) : BinaryValue → String
  | .nan => "NaN"
  | .infinite negative => signed negative ['i', 'n', 'f']
  | .finite negative m e =>
    signed negative (if m = 0 then ['0'] else (Decimal.shortest f m e).positional)

/-- The literal form: the shortest digits that read back, with `.0` after a
whole number, and with an exponent below `10 ^ (-4)` and from `10 ^ 16` on. -/
def literal (f : BinaryFormat) : BinaryValue → String
  | .nan => "NaN"
  | .infinite negative => signed negative ['i', 'n', 'f']
  | .finite negative m e =>
    if m = 0 then signed negative ['0', '.', '0']
    else
      let d := Decimal.shortest f m e
      let x := d.leadingExponent
      if x < -4 ∨ 16 ≤ x then signed negative (d.mantissa ++ 'e' :: Decimal.exponentText x)
      else if 0 ≤ d.exponent then signed negative (d.positional ++ ['.', '0'])
      else signed negative d.positional

/-- `n / d` rounded to the nearest whole number, a half to the even neighbour. -/
def nearestEven (n d : Nat) : Nat :=
  let q := n / d
  let doubled := 2 * (n % d)
  if d < doubled then q + 1 else if doubled = d then q + q % 2 else q

/-- `m · 2 ^ e` in units of `10 ^ k`, rounded to a whole number. -/
def inUnits (m : Nat) (e k : Int) : Nat :=
  nearestEven (m * Nat.pow 2 e.toNat * Nat.pow 10 (-k).toNat)
    (Nat.pow 2 (-e).toNat * Nat.pow 10 k.toNat)

/-- The power of ten of the first digit of `m · 2 ^ e`. The shortest decimal
has the same one, or the next where it was rounded up to a power of ten. -/
def leadingExponent (f : BinaryFormat) (m : Nat) (e : Int) : Int :=
  let x := (Decimal.shortest f m e).leadingExponent
  if m * Nat.pow 2 e.toNat * Nat.pow 10 (-x).toNat < Nat.pow 2 (-e).toNat * Nat.pow 10 x.toNat then
    x - 1
  else x

/-- `m · 2 ^ e` rounded to six significant digits. -/
def sixSignificant (f : BinaryFormat) (m : Nat) (e : Int) : Decimal :=
  let k := leadingExponent f m e - 5
  let q := inUnits m e k
  if q = Nat.pow 10 6 then ⟨Nat.pow 10 5, k + 1⟩ else ⟨q, k⟩

/-- The six-digit form: six significant digits without trailing zeros, with a
signed exponent of at least two digits below `10 ^ (-4)` and from `10 ^ 6` on.
Zero has no sign. -/
def sixDigits (f : BinaryFormat) : BinaryValue → String
  | .nan => "NaN"
  | .infinite negative => signed negative ['i', 'n', 'f']
  | .finite negative m e =>
    if m = 0 then "0"
    else
      let d := sixSignificant f m e
      let x := d.leadingExponent
      if x < -4 ∨ 6 ≤ x then
        let digits := Decimal.wholeDigits x.natAbs
        signed negative (Decimal.trimFraction d.mantissa ++
          'e' :: (if x < 0 then '-' else '+') :: (List.replicate (2 - digits.length) '0' ++ digits))
      else
        let places := (5 - x).toNat
        signed negative (Decimal.trimFraction (Decimal.positional ⟨inUnits m e (-places), -places⟩))

end BinaryValue

end ColorPipeline
