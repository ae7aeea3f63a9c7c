-- Values between the points of a 3D grid. A cell is eight neighbouring grid
-- points. Trilinear interpolation blends along one axis after the other.
-- Tetrahedral interpolation walks from the low corner of the cell to the high
-- corner along its edges, the axis of the largest fraction first.
import ColorPipeline.Image.Pixel
import ColorPipeline.Number.Scalar

open scoped ColorPipeline.Scalar

namespace ColorPipeline

/-- The values at the points of a grid with `size` points to an axis. -/
structure Grid (S : Type) where
  size : Nat
  point : Nat → Nat → Nat → Rgb S

/-- A place in a grid: the low corner of a cell, and the fractions of the way
across it. -/
structure CellPlace (S : Type) where
  base : Rgb Nat
  fraction : Rgb S

namespace Grid

variable {S : Type} [Scalar S]

/-- The steps from the first grid point to the input along each axis. -/
def position (g : Grid S) (p : Rgb S) : Rgb S :=
  p.map fun v => Scalar.clamp v 0 1 * Scalar.ofNat (g.size - 1)

/-- The grid point nearest to the input. -/
def nearestIndex (g : Grid S) (p : Rgb S) : Rgb Nat :=
  (g.position p).map fun t => min (Scalar.toNat (Scalar.round t)) (g.size - 1)

/-- The value at the nearest grid point. -/
def nearest (g : Grid S) (p : Rgb S) : Rgb S :=
  let i := g.nearestIndex p
  g.point i.red i.green i.blue

/-- The cell that holds the input. The last cell holds its high faces too. -/
def place (g : Grid S) (p : Rgb S) : CellPlace S :=
  let t := g.position p
  let base := t.map fun v => min (Scalar.toNat (Scalar.floor v)) (g.size - 2)
  { base, fraction := Rgb.ofFn fun c => t.get c - Scalar.ofNat (base.get c) }

/-- A corner of a cell: one step on from the low corner along some axes. -/
def corner (g : Grid S) (base : Rgb Nat) (red green blue : Bool) : Rgb S :=
  g.point (base.red + red.toNat) (base.green + green.toNat) (base.blue + blue.toNat)

/-! ## Trilinear -/

/-- The blend of two values. -/
def blend (a b t : S) : S := a * (1 - t) + b * t

def trilinear (g : Grid S) (p : Rgb S) : Rgb S :=
  let cell := g.place p
  let f := cell.fraction
  Rgb.ofFn fun c =>
    let at3 (red green blue : Bool) : S := (g.corner cell.base red green blue).get c
    let c00 := blend (at3 false false false) (at3 true false false) f.red
    let c10 := blend (at3 false true false) (at3 true true false) f.red
    let c01 := blend (at3 false false true) (at3 true false true) f.red
    let c11 := blend (at3 false true true) (at3 true true true) f.red
    blend (blend c00 c10 f.green) (blend c01 c11 f.green) f.blue

/-! ## Tetrahedral -/

/-- The axes in the order in which a walk through a cell takes them. -/
structure AxisOrder where
  first : Channel
  second : Channel
  third : Channel
deriving DecidableEq

/-- The axis of the largest fraction first, then the next. -/
def axisOrder (f : Rgb S) : AxisOrder :=
  if f.green < f.red then
    if f.blue < f.green then ⟨.red, .green, .blue⟩
    else if f.blue < f.red then ⟨.red, .blue, .green⟩
    else ⟨.blue, .red, .green⟩
  else if f.blue < f.green then
    if f.blue < f.red then ⟨.green, .red, .blue⟩
    else ⟨.green, .blue, .red⟩
  else ⟨.blue, .green, .red⟩

/-- The corner that is one step on along each of the axes given. -/
def cornerAlong (g : Grid S) (base : Rgb Nat) (axes : List Channel) : Rgb S :=
  g.corner base (axes.contains .red) (axes.contains .green) (axes.contains .blue)

/-- The value after the walk in one order of the axes: each edge counts by the
fraction of its axis. -/
def walk (g : Grid S) (cell : CellPlace S) (o : AxisOrder) : Rgb S :=
  let v1 := g.cornerAlong cell.base []
  let v2 := g.cornerAlong cell.base [o.first]
  let v3 := g.cornerAlong cell.base [o.first, o.second]
  let v4 := g.corner cell.base true true true
  Rgb.ofFn fun c =>
    v1.get c + cell.fraction.get o.first * (v2.get c - v1.get c)
      + cell.fraction.get o.second * (v3.get c - v2.get c)
      + cell.fraction.get o.third * (v4.get c - v3.get c)

def tetrahedral (g : Grid S) (p : Rgb S) : Rgb S :=
  let cell := g.place p
  g.walk cell (axisOrder cell.fraction)

/-! ## Inversion -/

/-- The determinant of the matrix with three given columns. -/
def det3 (x y z : Rgb S) : S :=
  x.red * (y.green * z.blue - z.green * y.blue)
    - y.red * (x.green * z.blue - z.green * x.blue)
    + z.red * (x.green * y.blue - y.green * x.blue)

/-- The solution of a linear system with three given columns, by Cramer's rule.
A system that is nearly singular has the solution zero, so that a search stays
where it is. -/
def solve3 (x y z rhs : Rgb S) : Rgb S :=
  let det := det3 x y z
  if Scalar.abs det < 1e-10 then Rgb.gray 0
  else ⟨det3 rhs y z / det, det3 x rhs z / det, det3 x y rhs / det⟩

/-- The constants of the search for the input of an output: the number of
steps, the distance that is close enough, the part of each step that is taken,
and the distance of a probe. -/
def newtonSteps : Nat := 30

def closeEnough : S := 1e-6

def damping : S := 0.8

def probeDistance : S := 1e-4

/-- The way from a value of a guess to its probe. It goes back from the high face, so
that the probe stays inside. -/
def probeStep (v : S) : S := if 1 < v + probeDistance then -probeDistance else probeDistance

/-- The colour at which the values are probed along an axis. -/
def probe (guess : Rgb S) (c : Channel) : Rgb S :=
  guess.set c (guess.get c + probeStep (guess.get c))

/-- From the guess to its probe the values change by this much for each unit. -/
def slopeTo (guess value probed : Rgb S) (c : Channel) : Rgb S :=
  Rgb.ofFn fun i => (probed.get i - value.get i) / probeStep (guess.get c)

/-- The values of the grid change along an axis by this much for each unit. -/
def slope (g : Grid S) (guess value : Rgb S) (c : Channel) : Rgb S :=
  slopeTo guess value (g.tetrahedral (probe guess c)) c

/-- The error of the value at a guess. -/
def miss (value target : Rgb S) : Rgb S := Rgb.ofFn fun c => value.get c - target.get c

def length3 (v : Rgb S) : S := Scalar.sqrt (v.red * v.red + v.green * v.green + v.blue * v.blue)

/-- A guess moved towards the target by one damped Newton step, within the cube, where
the values have the slopes `x`, `y` and `z`. -/
def moved (guess value target x y z : Rgb S) : Rgb S :=
  let d := solve3 x y z ((miss value target).map fun v => -v)
  Rgb.ofFn fun c => Scalar.clamp (guess.get c + damping * d.get c) 0 1

/-- A guess moved by one step over the values of the grid. -/
def newtonStep (g : Grid S) (guess value target : Rgb S) : Rgb S :=
  moved guess value target (g.slope guess value .red) (g.slope guess value .green)
    (g.slope guess value .blue)

/-- The guess after at most `n` steps towards an input with the value `target`. -/
def newton (g : Grid S) (target : Rgb S) : Nat → Rgb S → Rgb S
  | 0, guess => guess
  | n + 1, guess =>
    let value := g.tetrahedral guess
    if length3 (miss value target) < closeEnough then guess
    else newton g target n (g.newtonStep guess value target)

/-! ### Searches over values that can be missing -/

section Missing

variable (value? : Rgb S → Option (Rgb S))

def slope? (guess value : Rgb S) (c : Channel) : Option (Rgb S) :=
  (value? (probe guess c)).map fun probed => slopeTo guess value probed c

def newtonStep? (guess value target : Rgb S) : Option (Rgb S) := do
  let red ← slope? value? guess value .red
  let green ← slope? value? guess value .green
  let blue ← slope? value? guess value .blue
  return moved guess value target red green blue

/-- The guess after at most `n` steps towards an input with the value `target`, unless
a value on the way is missing. -/
def newton? (target : Rgb S) : Nat → Rgb S → Option (Rgb S)
  | 0, guess => some guess
  | n + 1, guess => do
    let value ← value? guess
    if length3 (miss value target) < closeEnough then return guess
    else
      let next ← newtonStep? value? guess value target
      newton? target n next

end Missing

end Grid

end ColorPipeline
