-- The shortest decimal of a binary number: of the decimals that read back as
-- the number, one with the fewest digits, and of those the nearest.
import ColorPipeline.Number.Binary

namespace ColorPipeline

/-- The decimal `digits · 10 ^ exponent`. -/
structure Decimal where
  digits : Nat
  exponent : Int
deriving DecidableEq

/-- The decimals that read back as one number: those between `low / unit` and
`high / unit`, with the ends when `closed`. The number is `value / unit`. -/
structure ReadBack where
  low : Nat
  value : Nat
  high : Nat
  unit : Nat
  closed : Bool

namespace ReadBack

/-- The decimals that read back as `m · 2 ^ e`. The gap below a power of two is
half as wide as the gap above it. The ends are midpoints between neighbours
and go to the even significand. -/
def ofFinite (f : BinaryFormat) (m : Nat) (e : Int) : ReadBack :=
  let narrow := m = Nat.pow 2 f.fractionBits ∧ f.lowestExponent < e
  let up := Nat.pow 2 (e - 2).toNat
  { low := (4 * m - if narrow then 1 else 2) * up
    value := 4 * m * up
    high := (4 * m + 2) * up
    unit := Nat.pow 2 (2 - e).toNat
    closed := m % 2 == 0 }

/-- The same numbers counted in units of `10 ^ k`. -/
def onGrid (w : ReadBack) (k : Int) : ReadBack :=
  let up := Nat.pow 10 (-k).toNat
  { w with
    low := w.low * up, value := w.value * up, high := w.high * up
    unit := w.unit * Nat.pow 10 k.toNat }

/-- The whole number `c` reads back. -/
def holds (w : ReadBack) (c : Nat) : Bool :=
  if w.closed then decide (w.low ≤ c * w.unit) && decide (c * w.unit ≤ w.high)
  else decide (w.low < c * w.unit) && decide (c * w.unit < w.high)

/-- The whole number that reads back and is nearest to the value, the larger
one on a tie. -/
def nearestWhole (w : ReadBack) : Option Nat :=
  let c := w.value / w.unit
  let below := w.holds c
  let above := w.holds (c + 1)
  if below && (!above || decide (2 * (w.value % w.unit) < w.unit)) then some c
  else if above then some (c + 1)
  else none

/-- The first grid at or below `10 ^ k` with a number that reads back, at most
`n` grids further down. -/
def search (w : ReadBack) : Nat → Int → Decimal
  | 0, k => ⟨(w.onGrid k).value / (w.onGrid k).unit, k⟩
  | n + 1, k =>
    match (w.onGrid k).nearestWhole with
    | some c => ⟨c, k⟩
    | none => search w n (k - 1)

end ReadBack

/-- The shortest decimal that reads back as `m · 2 ^ e`, for `m` not zero. The
search starts above the number: 1233 / 4096 is the decimal logarithm of 2 to
five places. -/
def Decimal.shortest (f : BinaryFormat) (m : Nat) (e : Int) : Decimal :=
  let start := (e + m.log2) * 1233 / 4096 + 2
  (ReadBack.ofFinite f m e).search (f.fractionBits / 3 + 6) start

end ColorPipeline
