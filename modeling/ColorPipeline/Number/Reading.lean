-- Reading numbers from text: decimal numbers into a binary format, and whole
-- numbers with a limit. A reader takes the whole text or refuses it.
import ColorPipeline.Number.Binary

namespace ColorPipeline

namespace Reading

/-- The value of a digit in a base of at most 16. -/
def digitValue (c : Char) : Option Nat :=
  if '0' ≤ c ∧ c ≤ '9' then some (c.toNat - '0'.toNat)
  else if 'a' ≤ c ∧ c ≤ 'f' then some (c.toNat - 'a'.toNat + 10)
  else if 'A' ≤ c ∧ c ≤ 'F' then some (c.toNat - 'A'.toNat + 10)
  else none

/-- The value of digits in `base`, on top of the digits read before. -/
def digitsFrom (base : Nat) : Nat → List Char → Option Nat
  | n, [] => some n
  | n, c :: rest =>
    match digitValue c with
    | some v => if v < base then digitsFrom base (n * base + v) rest else none
    | none => none

/-- The value of one or more digits in `base`. -/
def digits (base : Nat) (cs : List Char) : Option Nat :=
  if cs.isEmpty then none else digitsFrom base 0 cs

/-- A natural number below `bound`: digits after an optional plus sign. -/
def natural (base bound : Nat) (cs : List Char) : Option Nat :=
  let unsigned := match cs with
    | '+' :: rest => rest
    | _ => cs
  (digits base unsigned).filter (· < bound)

/-- A decimal whole number that 64 signed bits hold. -/
def integer (cs : List Char) : Option Int :=
  match cs with
  | '-' :: rest => ((digits 10 rest).filter (· ≤ Nat.pow 2 63)).map (- Int.ofNat ·)
  | _ => (natural 10 (Nat.pow 2 63) cs).map Int.ofNat

/-- A decimal number less its sign. -/
inductive Magnitude where
  | nan
  | infinite
  | decimal (digits : Nat) (exponent : Int)

/-- The words that stand for numbers, in any case. -/
def word (cs : List Char) : Option Magnitude :=
  match String.ofList (cs.map Char.toLower) with
  | "nan" => some .nan
  | "inf" => some .infinite
  | "infinity" => some .infinite
  | _ => none

/-- An exponent: nothing, or `e` with an optional sign and digits. -/
def exponent (cs : List Char) : Option Int :=
  match cs with
  | [] => some 0
  | c :: rest =>
    if c == 'e' || c == 'E' then
      match rest with
      | '-' :: ds => (digits 10 ds).map (- Int.ofNat ·)
      | '+' :: ds => (digits 10 ds).map Int.ofNat
      | ds => (digits 10 ds).map Int.ofNat
    else none

/-- A decimal number: digits with at most one point among or beside them, and
an optional exponent. -/
def magnitude (cs : List Char) : Option Magnitude :=
  let whole := cs.takeWhile Char.isDigit
  let afterWhole := cs.dropWhile Char.isDigit
  let (fraction, afterFraction) := match afterWhole with
    | '.' :: rest => (rest.takeWhile Char.isDigit, rest.dropWhile Char.isDigit)
    | _ => ([], afterWhole)
  match digits 10 (whole ++ fraction), exponent afterFraction with
  | some n, some x => some (.decimal n (x - fraction.length))
  | _, _ => word cs

/-- The bits nearest to a decimal number. A number beyond `10 ^ 400` or below
`10 ^ (-400)` lies outside every format. -/
def Magnitude.toBits (f : BinaryFormat) (negative : Bool) : Magnitude → Nat
  | .nan => f.encode .nan
  | .infinite => f.encode (.infinite negative)
  | .decimal n x =>
    let size := x + (Nat.toDigits 10 n).length
    if n = 0 ∨ size < -400 then f.encode (.finite negative 0 0)
    else if 400 < size then f.encode (.infinite negative)
    else f.ofRatio negative (n * Nat.pow 10 x.toNat) (Nat.pow 10 (-x).toNat)

/-- The bits of the number that a text spells, rounded once. -/
def bits (f : BinaryFormat) (cs : List Char) : Option Nat :=
  match cs with
  | '-' :: rest => (magnitude rest).map (Magnitude.toBits f true)
  | '+' :: rest => (magnitude rest).map (Magnitude.toBits f false)
  | _ => (magnitude cs).map (Magnitude.toBits f false)

end Reading

end ColorPipeline
