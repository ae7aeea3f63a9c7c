-- Which simplifications of a pipeline are allowed.
import ColorPipeline.Number.Reading
import ColorPipeline.Text.Blank

namespace ColorPipeline

/-- A set of simplifications. -/
structure OptimizationFlags where
  /-- Ops that change nothing are dropped. -/
  removeIdentities : Bool
  /-- Neighbours that undo each other are dropped. -/
  removeInversePairs : Bool
  /-- Neighbours are fused. -/
  combine : Bool
  /-- Tables may be fused, although the result only comes near to them. -/
  composeTables : Bool
deriving DecidableEq

namespace OptimizationFlags

/-- The set with the given bits, lowest first. Further bits mean nothing. -/
def ofBits (n : Nat) : OptimizationFlags :=
  ⟨n.testBit 0, n.testBit 1, n.testBit 2, n.testBit 3⟩

def bits (f : OptimizationFlags) : Nat :=
  f.removeIdentities.toNat + 2 * f.removeInversePairs.toNat + 4 * f.combine.toNat +
    8 * f.composeTables.toNat

def zipWith (op : Bool → Bool → Bool) (f g : OptimizationFlags) : OptimizationFlags :=
  ⟨op f.removeIdentities g.removeIdentities, op f.removeInversePairs g.removeInversePairs,
    op f.combine g.combine, op f.composeTables g.composeTables⟩

/-- The simplifications of either set. -/
def union (f g : OptimizationFlags) : OptimizationFlags := zipWith or f g

/-- The simplifications of both sets. -/
def inter (f g : OptimizationFlags) : OptimizationFlags := zipWith and f g

/-- The set has all simplifications of `g`. -/
def contains (f g : OptimizationFlags) : Bool := f.inter g == g

def none : OptimizationFlags := ofBits 0

/-- The simplifications that keep what a pipeline does. -/
def lossless : OptimizationFlags := ofBits 7

def all : OptimizationFlags := ofBits 15

def isEmpty (f : OptimizationFlags) : Bool := f == none

/-- The bits in base 16. -/
def text (f : OptimizationFlags) : String := "0x" ++ String.ofList (Nat.toDigits 16 f.bits)

/-- The set that a text spells: a number of 32 bits, in base 16 after `0x`. -/
def parse (text : String) : Option OptimizationFlags :=
  let bits := match Text.trim text.toList with
    | '0' :: 'x' :: digits => Reading.natural 16 (Nat.pow 2 32) digits
    | '0' :: 'X' :: digits => Reading.natural 16 (Nat.pow 2 32) digits
    | digits => Reading.natural 10 (Nat.pow 2 32) digits
  bits.map ofBits

/-- The bits of a set give it back. -/
@[simp] theorem ofBits_bits (f : OptimizationFlags) : ofBits f.bits = f := by
  obtain ⟨a, b, c, d⟩ := f
  cases a <;> cases b <;> cases c <;> cases d <;> decide

end OptimizationFlags

end ColorPipeline
