-- Affine maps of RGBA colours: a 4 by 4 matrix, then an offset.
import ColorPipeline.Image.Pixel
import ColorPipeline.Op.Error

open scoped ColorPipeline.Scalar

namespace ColorPipeline

/-- A 4 by 4 matrix: for each output channel the weights of the input channels. -/
abbrev Matrix4 (P : Type) := Rgba (Rgba P)

namespace Matrix4

variable {P : Type} [Scalar P]

/-- The matrix with the given diagonal and zeros elsewhere. -/
def diagonal (d : Rgba P) : Matrix4 P :=
  ⟨⟨d.red, 0, 0, 0⟩, ⟨0, d.green, 0, 0⟩, ⟨0, 0, d.blue, 0⟩, ⟨0, 0, 0, d.alpha⟩⟩

def identity : Matrix4 P := diagonal ⟨1, 1, 1, 1⟩

/-- The columns as rows. -/
def transpose (m : Matrix4 P) : Matrix4 P :=
  ⟨m.map Rgba.red, m.map Rgba.green, m.map Rgba.blue, m.map Rgba.alpha⟩

/-- The sum of the products of two rows, from the first channel on. -/
def dot (u v : Rgba P) : P := u.red * v.red + u.green * v.green + u.blue * v.blue + u.alpha * v.alpha

/-- The matrix applied to a colour. -/
def mulVec (m : Matrix4 P) (v : Rgba P) : Rgba P := m.map fun row => dot row v

/-- The product: `n` first, then `m`. -/
def mul (m n : Matrix4 P) : Matrix4 P := m.map fun row => n.transpose.map fun col => dot row col

/-- The determinant, by minors of the last two input channels. -/
def determinant (m : Matrix4 P) : P :=
  let c0 := m.map Rgba.red
  let c1 := m.map Rgba.green
  let c2 := m.map Rgba.blue
  let c3 := m.map Rgba.alpha
  let a2323 := c2.blue * c3.alpha - c2.alpha * c3.blue
  let a1323 := c2.green * c3.alpha - c2.alpha * c3.green
  let a1223 := c2.green * c3.blue - c2.blue * c3.green
  let a0323 := c2.red * c3.alpha - c2.alpha * c3.red
  let a0223 := c2.red * c3.blue - c2.blue * c3.red
  let a0123 := c2.red * c3.green - c2.green * c3.red
  c0.red * (c1.green * a2323 - c1.blue * a1323 + c1.alpha * a1223)
    - c0.green * (c1.red * a2323 - c1.blue * a0323 + c1.alpha * a0223)
    + c0.blue * (c1.red * a1323 - c1.green * a0323 + c1.alpha * a0123)
    - c0.alpha * (c1.red * a1223 - c1.green * a0223 + c1.blue * a0123)

/-- A row of three products with alternating signs. -/
def cofactors (u f v g w h : Rgba P) : Rgba P :=
  ((u.zipWith (· * ·) f).zipWith (· - ·) (v.zipWith (· * ·) g)).zipWith (· + ·)
    (w.zipWith (· * ·) h)

/-- The inverse as the adjugate over the determinant, where the determinant is
taken from the first column of the adjugate. -/
def inverse (m : Matrix4 P) : Matrix4 P :=
  let c0 := m.map Rgba.red
  let c1 := m.map Rgba.green
  let c2 := m.map Rgba.blue
  let c3 := m.map Rgba.alpha
  let minor (u v : Rgba P) (i j : Rgba P → P) : P := i u * j v - i v * j u
  let fac (i j : Rgba P → P) : Rgba P :=
    ⟨minor c2 c3 i j, minor c2 c3 i j, minor c1 c3 i j, minor c1 c2 i j⟩
  let fac0 := fac Rgba.blue Rgba.alpha
  let fac1 := fac Rgba.green Rgba.alpha
  let fac2 := fac Rgba.green Rgba.blue
  let fac3 := fac Rgba.red Rgba.alpha
  let fac4 := fac Rgba.red Rgba.blue
  let fac5 := fac Rgba.red Rgba.green
  let vec (i : Rgba P → P) : Rgba P := ⟨i c1, i c0, i c0, i c0⟩
  let vec0 := vec Rgba.red
  let vec1 := vec Rgba.green
  let vec2 := vec Rgba.blue
  let vec3 := vec Rgba.alpha
  let even (v : Rgba P) : Rgba P := ⟨v.red, -v.green, v.blue, -v.alpha⟩
  let odd (v : Rgba P) : Rgba P := ⟨-v.red, v.green, -v.blue, v.alpha⟩
  let column0 := even (cofactors vec1 fac0 vec2 fac1 vec3 fac2)
  let column1 := odd (cofactors vec0 fac0 vec2 fac3 vec3 fac4)
  let column2 := even (cofactors vec0 fac1 vec1 fac3 vec3 fac5)
  let column3 := odd (cofactors vec0 fac2 vec1 fac4 vec2 fac5)
  let firstRow : Rgba P := ⟨column0.red, column1.red, column2.red, column3.red⟩
  let scale := 1 / dot c0 firstRow
  (transpose ⟨column0, column1, column2, column3⟩).map fun row => row.map (· * scale)

end Matrix4

/-- An affine map of RGBA colours. -/
structure MatrixOp (P : Type) where
  matrix : Matrix4 P
  offset : Rgba P

namespace MatrixOp

variable {P : Type} [Scalar P]

/-- How far from the identity an entry may be and still count as equal to it. -/
def tolerance : P := 1e-9

def zeroOffset : Rgba P := ⟨0, 0, 0, 0⟩

def identity : MatrixOp P := ⟨Matrix4.identity, zeroOffset⟩

/-- Each channel multiplied by a factor. -/
def scale (s : Rgba P) : MatrixOp P := ⟨Matrix4.diagonal s, zeroOffset⟩

/-- A number added to each channel. -/
def translate (o : Rgba P) : MatrixOp P := ⟨Matrix4.identity, o⟩

/-- The map of colours that takes `oldMin` to `newMin` and `oldMax` to `newMax`
and keeps alpha. There is none where the old range is empty. -/
def fit (oldMin oldMax newMin newMax : P) : Except (OpError P) (MatrixOp P) :=
  let span := oldMax - oldMin
  if Scalar.abs span < 1 / Scalar.ofNat (Nat.pow 2 52) then
    .error (.invalid .matrix (.fitOfEmptyRange oldMin oldMax))
  else
    let s := (newMax - newMin) / span
    let o := newMin - s * oldMin
    .ok { scale ⟨s, s, s, 1⟩ with offset := ⟨o, o, o, 0⟩ }

/-- The 16 entries and the offset in order. -/
def numbers (m : MatrixOp P) : List P := m.matrix.toList.flatMap Rgba.toList ++ m.offset.toList

/-- `m` first, then `next`. -/
def followedBy (m next : MatrixOp P) : MatrixOp P where
  matrix := next.matrix.mul m.matrix
  offset := (next.matrix.mulVec m.offset).zipWith (· + ·) next.offset

/-- The matrix is the identity, within the tolerance. -/
def hasIdentityMatrix (m : MatrixOp P) : Bool :=
  let near (u v : Rgba P) : Bool :=
    (u.zipWith (fun a b => decide (Scalar.abs (a - b) ≤ tolerance)) v).toList.all id
  (m.matrix.zipWith near Matrix4.identity).toList.all id

def validate (m : MatrixOp P) : Except (OpError P) Unit :=
  if m.numbers.all Scalar.isFinite then .ok () else .error (.invalid .matrix .matrixNotFinite)

def isIdentity (m : MatrixOp P) : Bool :=
  m.hasIdentityMatrix && m.offset.toList.all fun v => decide (Scalar.abs v ≤ tolerance)

/-- `other` undoes `m`: together they are the identity. -/
def isInverse (m other : MatrixOp P) : Bool := (m.followedBy other).isIdentity

/-- The map that undoes `m`. There is none where the determinant is close to zero. -/
def inverse (m : MatrixOp P) : Except (OpError P) (MatrixOp P) :=
  let det := m.matrix.determinant
  if Scalar.abs det < 1e-10 then .error (.unsupported (.singularMatrix det))
  else
    let inv := m.matrix.inverse
    .ok ⟨inv, (inv.mulVec m.offset).map fun v => -v⟩

def cacheId [Stored P] (m : MatrixOp P) : String := Fingerprint.digest m.numbers

end MatrixOp

end ColorPipeline
