-- 3D lookup tables: colours at the points of a grid over the unit cube. The
-- entries run through blue first, then green, then red. The size is checked in
-- 64 bits, so a table can pass that lacks most of its entries. Reading an entry
-- that is not there is a panic, so what runs over entries as they are read may
-- have no result. What it gives otherwise is said by functions of the grid.
import ColorPipeline.Image.BitDepth
import ColorPipeline.Lut.Error
import ColorPipeline.Lut.Grid
import ColorPipeline.Lut.Interpolation
import ColorPipeline.Number.Size

open scoped ColorPipeline.Scalar

namespace ColorPipeline

/-- A 3D lookup table of `size` points to an axis. -/
structure Lut3D (S : Type) where
  entries : Array (Rgb S)
  size : Nat
  interpolation : Interpolation := .linear
  /-- The depth that the values had in the file they come from. -/
  depth : BitDepth := .float

namespace Lut3D

variable {S : Type}

/-- The number of grid points, as the machine counts it. -/
def entryCount (lut : Lut3D S) : Nat := sizeCube lut.size

/-- Where the entry of a grid point is. -/
def index (lut : Lut3D S) (r g b : Nat) : Nat := (r * lut.size + g) * lut.size + b

/-! ## Making tables -/

/-- A table has at least two points to an axis and an entry for each grid point. -/
def checkEntries (found size : Nat) : Except LutSizeError Unit :=
  if size < 2 then .error (.fewPoints size)
  else if found ≠ sizeCube size then .error (.entryCount (sizeCube size) size found)
  else .ok ()

/-- A table from entries that run through blue first. -/
def ofEntries (entries : Array (Rgb S)) (size : Nat) : Except LutSizeError (Lut3D S) := do
  checkEntries entries.size size
  return { entries, size }

variable [Scalar S]

/-- A table from a listing that runs through red first. A size whose cube is
too large to be counted can pass the check of the entries; its grid points are
not all listed. -/
def ofRedFastest (listing : Array (Rgb S)) (size : Nat) : Except LutSizeError (Lut3D S) := do
  checkEntries listing.size size
  if listing.size < size * size * size then
    throw (.pointMissing listing.size listing.size)
  ofEntries
    (Array.ofFn (n := listing.size) fun i =>
      let r := i / (size * size)
      let g := i / size % size
      let b := i % size
      listing.getD ((b * size + g) * size + r) (Rgb.gray 0))
    size

/-- The coordinate of grid point `i`. -/
def coordinate (size i : Nat) : S := Scalar.ofNat i * (1 / Scalar.ofNat (size - 1))

/-- The colour of the grid point with number `i`. -/
def gridColor (size i : Nat) : Rgb S :=
  ⟨coordinate size (i / (size * size)), coordinate size (i / size % size),
    coordinate size (i % size)⟩

/-- The colours of the grid points themselves. -/
def gridColors (size : Nat) : Array (Rgb S) :=
  Array.ofFn (n := size * size * size) fun i => gridColor size i

/-- The table that leaves the colours of the unit cube as they are. -/
def identity (size : Nat) : Lut3D S :=
  { entries := gridColors (max size 2), size := max size 2 }

/-- The values of `f` at the grid points. -/
def ofFn (size : Nat) (f : Rgb S → Rgb S) : Except LutSizeError (Lut3D S) :=
  if size < 2 then .error (.fewPoints size) else ofEntries ((gridColors size).map f) size

/-! ## The grid -/

/-- The entry of a grid point, for a table that has one for each, and black beyond. -/
def get (lut : Lut3D S) (r g b : Nat) : Rgb S := lut.entries.getD (lut.index r g b) (Rgb.gray 0)

/-- The grid that the entries stand on. -/
def grid (lut : Lut3D S) : Grid S where
  size := lut.size
  point := lut.get

/-- A colour is that of a grid point, within `tolerance`. -/
def isNear (lut : Lut3D S) (tolerance : S) (r g b : Nat) (color : Rgb S) : Bool :=
  let near (v : S) (i : Nat) : Bool := Scalar.abs (v - coordinate lut.size i) ≤ tolerance
  near color.red r && near color.green g && near color.blue b

/-- Every grid point has its own colour, within `tolerance`. -/
def isIdentity (lut : Lut3D S) (tolerance : S) : Bool :=
  (List.range lut.size).all fun r =>
    (List.range lut.size).all fun g =>
      (List.range lut.size).all fun b => lut.isNear tolerance r g b (lut.get r g b)

/-- The value of the table at a colour. -/
def apply (lut : Lut3D S) (p : Rgb S) : Rgb S :=
  match lut.interpolation.onGrid with
  | .nearest => lut.grid.nearest p
  | .tetrahedral => lut.grid.tetrahedral p
  | _ => lut.grid.trilinear p

/-- The input that has the colour of grid point `i`, searched for from that
colour itself. -/
def inverseAt (lut : Lut3D S) (target : Rgb S) : Rgb S :=
  lut.grid.newton target Grid.newtonSteps target

/-- The table of the inverse, on the same grid. -/
def invert (lut : Lut3D S) : Lut3D S :=
  { lut with entries := (gridColors lut.size).map lut.inverseAt }

/-! ## Reading -/

/-- The entry of a grid point as it is read, at a place counted in 64 bits. -/
def get? (lut : Lut3D S) (r g b : Nat) : Option (Rgb S) :=
  lut.entries[lut.index r g b % sizeLimit]?

/-- What stops work on a table that lacks entries: the first grid point without one. -/
def missing (lut : Lut3D S) : LutSizeError := .pointMissing lut.entries.size lut.entries.size

/-- The grid as it is read. -/
def readGrid (lut : Lut3D S) : Grid S where
  size := lut.size
  point r g b := (lut.get? r g b).getD (Rgb.gray 0)

/-- All corners of a cell have an entry. They are read together, whichever count. -/
def hasCell (lut : Lut3D S) (base : Rgb Nat) : Bool :=
  [false, true].all fun red => [false, true].all fun green => [false, true].all fun blue =>
    (lut.get? (base.red + red.toNat) (base.green + green.toNat) (base.blue + blue.toNat)).isSome

/-- A value between the corners of the cell of a colour, if they have entries. -/
def inCell? (lut : Lut3D S) (value : Grid S → Rgb S → Rgb S) (p : Rgb S) : Option (Rgb S) :=
  if lut.hasCell (lut.readGrid.place p).base then some (value lut.readGrid p) else none

/-- The value of the table at a colour, as it is read. -/
def valueAt? (lut : Lut3D S) (p : Rgb S) : Option (Rgb S) :=
  match lut.interpolation.onGrid with
  | .nearest =>
    let i := lut.readGrid.nearestIndex p
    lut.get? i.red i.green i.blue
  | .tetrahedral => lut.inCell? Grid.tetrahedral p
  | _ => lut.inCell? Grid.trilinear p

/-- Whether every grid point has its own colour. Reading ends at the first that has not. -/
def isIdentity? (lut : Lut3D S) (tolerance : S) : Option Bool :=
  (List.range lut.size).allM fun r =>
    (List.range lut.size).allM fun g =>
      (List.range lut.size).allM fun b => (lut.get? r g b).map (lut.isNear tolerance r g b)

def inverseAt? (lut : Lut3D S) (target : Rgb S) : Option (Rgb S) :=
  Grid.newton? (lut.inCell? Grid.tetrahedral) target Grid.newtonSteps target

/-- The inputs for the colours of `n` grid points from number `i` on, after others. -/
def inputsFrom? (lut : Lut3D S) : Nat → Nat → Array (Rgb S) → Option (Array (Rgb S))
  | 0, _, inputs => some inputs
  | n + 1, i, inputs => do
    let input ← lut.inverseAt? (gridColor lut.size i)
    inputsFrom? lut n (i + 1) (inputs.push input)

/-- The table of the inverse, as it is searched for: one grid point after the other. -/
def invert? (lut : Lut3D S) : Option (Lut3D S) :=
  (lut.inputsFrom? (lut.size * lut.size * lut.size) 0 #[]).map fun entries => { lut with entries }

end Lut3D

end ColorPipeline
