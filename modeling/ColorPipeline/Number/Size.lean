-- Sizes as the machine counts them, in 64 bits. A product that needs more
-- keeps its low 64 bits, so a check against it can be met by a size that is
-- far too large. Powers are written `Nat.pow` here and elsewhere, which is one
-- function whatever else is imported.

namespace ColorPipeline

/-- The number of sizes that 64 bits tell apart. -/
def sizeLimit : Nat := Nat.pow 2 64

/-- The product of two sizes in 64 bits. -/
def sizeProduct (a b : Nat) : Nat := a * b % sizeLimit

/-- The number of points of a cube with `n` points to an edge, in 64 bits. -/
def sizeCube (n : Nat) : Nat := sizeProduct (sizeProduct n n) n

end ColorPipeline
