-- Transforms: what a pipeline is described by. A transform is a step or a group
-- of transforms, with a direction. Directions add up: an inverse step inside
-- an inverse group runs forward.
import ColorPipeline.Lut.ItxFile
import ColorPipeline.Lut.Spi1dFile
import ColorPipeline.Pipeline.Basic

open scoped ColorPipeline.Scalar

namespace ColorPipeline

/-- One step of a transform, in its forward direction. -/
inductive TransformStep (P S : Type) where
  | matrix (m : MatrixOp P)
  /-- A range, with or without its limits. -/
  | range (r : RangeOp P) (limits : Bool)
  | exponent (e : ExponentOp P)
  | log (base : P)
  | fixedFunction (f : FixedFunctionOp P)
  | lut1D (lut : Lut1D S)
  | lut3D (lut : Lut3D S)
  /-- The table of a file, with an interpolation in place of the usual one. -/
  | file (path : String) (interpolation : Option Interpolation)

inductive Transform (P S : Type) where
  | step (s : TransformStep P S) (direction : Direction)
  | group (items : List (Transform P S)) (direction : Direction)

/-! ## LUT files -/

/-- What follows the last dot of a file name, in lower case. A dot that a name
begins with does not count. -/
def fileExtension (path : String) : String :=
  let name := path.toList.reverse.takeWhile (· != '/')
  let ending := name.takeWhile (· != '.')
  let stem := name.drop (ending.length + 1)
  if stem.isEmpty then "" else String.ofList (ending.reverse.map Char.toLower)

/-- The format of a LUT file, by the ending of its name. -/
def LutFormat.ofPath? (path : String) : Option LutFormat :=
  match fileExtension path with
  | "spi1d" => some .spi1d
  | "itx" => some .itx
  | _ => none

section Files

variable {P S : Type} [Scalar P] [Scalar S] [Stored S] [Precision P S]

/-- The ops of a LUT file. A 1D table comes after a map of its input range to
the range from 0 to 1. -/
def lutFileOps (path : String) (interpolation : Option Interpolation) (bytes : ByteArray) :
    Except (OpError P) (List (OpData P S)) := do
  match LutFormat.ofPath? path with
  | none => throw (.unsupported (.lutFileFormat path))
  | some .spi1d =>
    let spi : Spi1d S ← (Spi1d.load path (Text.lines bytes)).mapError .lut
    let fit ← MatrixOp.fit (Precision.widen spi.fromMin) (Precision.widen spi.fromMax) 0 1
    let lut := { spi.lut with interpolation := interpolation.getD spi.lut.interpolation }
    return [.matrix fit, .lut1D ⟨lut, .forward⟩]
  | some .itx =>
    let table : Lut3D S ← (ItxFile.parse path (Text.lines bytes)).mapError .lut
    let lut := { table with interpolation := interpolation.getD table.interpolation }
    return [.lut3D ⟨lut, .forward⟩]

end Files

/-- The map of a range without its limits. A range without bounds has none. -/
def RangeOp.withoutLimits {P : Type} [Scalar P] (r : RangeOp P) :
    Except (OpError P) (Option (MatrixOp P)) := do
  r.validate
  let shift (v : P) : MatrixOp P := MatrixOp.translate ⟨v, v, v, 0⟩
  match r.minIn, r.maxIn, r.minOut, r.maxOut with
  | some minIn, some maxIn, some minOut, some maxOut =>
    return some (← MatrixOp.fit minIn maxIn minOut maxOut)
  | some minIn, none, some minOut, none => return some (shift (minOut - minIn))
  | none, some maxIn, none, some maxOut => return some (shift (maxOut - maxIn))
  | _, _, _, _ => return none

/-! ## Steps -/

namespace TransformStep

variable {P S : Type} [Scalar P] [Scalar S] [Stored S] [Precision P S]

/-- The ops of a step in its forward direction. -/
def ops (files : String → Option ByteArray) :
    TransformStep P S → Except (OpError P) (List (OpData P S))
  | matrix m => .ok [.matrix m]
  | range r true => .ok [.range r]
  | range r false => r.withoutLimits.map fun m => m.toList.map .matrix
  | exponent e => .ok [.exponent e]
  | log base => .ok [.log ⟨base, .forward⟩]
  | fixedFunction f => .ok [.fixedFunction f]
  | lut1D lut => .ok [.lut1D ⟨lut, .forward⟩]
  | lut3D lut => .ok [.lut3D ⟨lut, .forward⟩]
  | file path interpolation =>
    match files path with
    | none => .error (.fileNotFound path)
    | some bytes => lutFileOps path interpolation bytes

/-- The ops of a step in a direction, up to the first that has no inverse. -/
def build (files : String → Option ByteArray) (s : TransformStep P S) (d : Direction) :
    Attempt P (List (OpData P S)) :=
  match s.ops files with
  | .error e => ⟨[], some e⟩
  | .ok ops =>
    match d with
    | .forward => ⟨ops, none⟩
    | .inverse => Attempt.traverse OpData.inverse ops.reverse

end TransformStep

/-! ## Transforms -/

namespace Transform

variable {P S : Type}

def direction : Transform P S → Direction
  | step _ d => d
  | group _ d => d

/-- The transform that undoes this one. -/
def inverse : Transform P S → Transform P S
  | step s d => step s d.flip
  | group items d => group items d.flip

variable [Scalar P] [Scalar S] [Stored S] [Precision P S]

mutual

/-- The ops of a transform in the direction `outer`, up to the first error. A
group that runs in the inverse direction runs from its end. -/
def build (files : String → Option ByteArray) :
    Transform P S → Direction → Attempt P (List (OpData P S))
  | step s d, outer => s.build files (d.within outer)
  | group items d, outer =>
    match d.within outer with
    | .forward => Attempt.concat (buildEach files items .forward)
    | .inverse => Attempt.concat (buildEach files items .inverse).reverse

/-- The ops of each transform of a list. -/
def buildEach (files : String → Option ByteArray) :
    List (Transform P S) → Direction → List (Attempt P (List (OpData P S)))
  | [], _ => []
  | t :: rest, d => build files t d :: buildEach files rest d

end

/-- The ops of transforms one after the other. In the inverse direction the last
transform comes first. -/
def buildList (files : String → Option ByteArray) (transforms : List (Transform P S))
    (d : Direction) : Attempt P (List (OpData P S)) :=
  let inOrder := match d with
    | .forward => transforms
    | .inverse => transforms.reverse
  Attempt.concat (inOrder.map fun t => t.build files d)

end Transform

end ColorPipeline
