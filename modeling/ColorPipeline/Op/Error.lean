-- What can go wrong with ops, and how it is reported.
import ColorPipeline.FixedFunction.Style
import ColorPipeline.Image.BitDepth
import ColorPipeline.Number.Stored
import ColorPipeline.Lut.Error
import ColorPipeline.Op.Fingerprint
import ColorPipeline.Op.Kind

namespace ColorPipeline

/-- The two sides of a range. -/
inductive RangeSide where
  | input
  | output
deriving DecidableEq

def RangeSide.name : RangeSide → String
  | .input => "input"
  | .output => "output"

/-- Why the parameters of an op are refused. -/
inductive Invalid (P : Type) where
  | matrixNotFinite
  | fitOfEmptyRange (low high : P)
  | minimumHalfSet
  | maximumHalfSet
  | boundNotFinite
  | boundsReversed (side : RangeSide) (high low : P)
  | exponentNotFinite
  | exponentTooSmall (value lowest : P)
  | exponentTooLarge (value highest : P)
  | baseNotPositive (base : P)
  | baseIsOne
  | lutTooShort (found : Nat)
  | lutNotFinite
  | lutDecreasing
  | gridTooSmall (size : Nat)
  | gridEntryCount (size expected found : Nat)
  | surroundParameterCount (found : Nat)
  | parameterTooSmall (value lowest : P)
  | parameterTooLarge (value highest : P)
  | unexpectedParameters (style : FixedFunctionStyle) (found : Nat)

/-- What an op cannot do. -/
inductive Unsupported (P : Type) where
  | singularMatrix (determinant : P)
  | exponentWithoutInverse (values : List P)
  | rangesDoNotFuse (first second : String)
  | kindsDoNotFuse (first second : OpKind)
  | lutFileFormat (path : String)

/-- What only a finalized op can give. -/
inductive FinalizedUse where
  | renderer
  | shader
deriving DecidableEq

/-- Why an image does not suit a processor. -/
inductive BufferMismatch where
  | depthUnknown
  | inPlaceDepth (image input output : BitDepth)
  | sourceDepth (image expected : BitDepth)
  | destinationDepth (image expected : BitDepth)
  | pixelCount (source destination : Nat)
deriving DecidableEq

/-- What can go wrong while ops are built, combined, rendered or emitted. -/
inductive OpError (P : Type) where
  | invalid (kind : OpKind) (reason : Invalid P)
  | notCombinable (kind : OpKind)
  | notFinalized (kind : OpKind) (use : FinalizedUse)
  | unsupported (reason : Unsupported P)
  | buffer (reason : BufferMismatch)
  | lut (e : LutError)
  | fileNotFound (path : String)

section Messages

variable {P : Type} [Scalar P] [Stored P]

def Invalid.message : Invalid P → String
  | .matrixNotFinite => "matrix and offset values must be finite"
  | .fitOfEmptyRange low high =>
    s!"cannot fit the empty range [{Stored.plain low}, {Stored.plain high}]"
  | .minimumHalfSet => "In and out minimum limits must be both set or both missing."
  | .maximumHalfSet => "In and out maximum limits must be both set or both missing."
  | .boundNotFinite => "Range bounds must be finite."
  | .boundsReversed side high low =>
    s!"Maximum {side.name} value {Fingerprint.number high} must be greater than minimum " ++
      s!"{side.name} value {Fingerprint.number low}."
  | .exponentNotFinite => "Exponent must be finite"
  | .exponentTooSmall value lowest =>
    s!"Exponent {Fingerprint.number value} is less than lower bound {Stored.plain lowest}"
  | .exponentTooLarge value highest =>
    s!"Exponent {Fingerprint.number value} is greater than upper bound {Stored.plain highest}"
  | .baseNotPositive base => s!"Log base {Fingerprint.number base} must be positive"
  | .baseIsOne => "Log base must not be 1"
  | .lutTooShort found => s!"LUT needs at least 2 entries, found {found}"
  | .lutNotFinite => "LUT values must be finite"
  | .lutDecreasing => "inverse evaluation needs non-decreasing LUT samples"
  | .gridTooSmall size => s!"grid size must be at least 2, found {size}"
  | .gridEntryCount size expected found =>
    s!"grid of size {size} needs {expected} entries, found {found}"
  | .surroundParameterCount found =>
    s!"The style 'REC2100_Surround' must have one parameter but {found} found."
  | .parameterTooSmall value lowest =>
    s!"Parameter {Stored.sixDigits value} is less than lower bound {Stored.plain lowest}"
  | .parameterTooLarge value highest =>
    s!"Parameter {Stored.sixDigits value} is greater than upper bound {Stored.plain highest}"
  | .unexpectedParameters style found =>
    s!"The style '{style.name}' must have zero parameters but {found} found."

def Unsupported.message : Unsupported P → String
  | .singularMatrix determinant =>
    s!"{OpKind.matrix.name}: singular matrix cannot be inverted (determinant " ++
      s!"{Stored.plain determinant})"
  | .exponentWithoutInverse values =>
    s!"{OpKind.exponent.name}: exponent [" ++ ", ".intercalate (values.map Stored.literal) ++
      "] has no inverse"
  | .rangesDoNotFuse first second =>
    s!"{OpKind.range.name}: ranges {first} and {second} do not fuse into one op"
  | .kindsDoNotFuse first second => s!"{first.name} cannot combine with {second.name}"
  | .lutFileFormat path => s!"unsupported LUT file format '{path}'"

/-- The name of the call that needed a finalized op. -/
def FinalizedUse.callName : FinalizedUse → String
  | .renderer => "cpu_op"
  | .shader => "extract_gpu_shader_info"

def BufferMismatch.message : BufferMismatch → String
  | .depthUnknown => "CPU processor bit depth must be known"
  | .inPlaceDepth image input output =>
    s!"in-place buffer is {image.label} but the processor converts {input.label} to " ++
      output.label
  | .sourceDepth image expected =>
    s!"source buffer is {image.label} but the processor expects {expected.label}"
  | .destinationDepth image expected =>
    s!"destination buffer is {image.label} but the processor writes {expected.label}"
  | .pixelCount source destination =>
    s!"source has {source} pixels, destination has {destination}"

def OpError.message : OpError P → String
  | .invalid kind reason => s!"{kind.name} validation failed: {reason.message}"
  | .notCombinable kind =>
    s!"contract violation: {kind.name}: can_combine_with must be checked before calling " ++
      "combine_with."
  | .notFinalized kind use =>
    s!"contract violation: {kind.name}: finalize must be called before {use.callName}."
  | .unsupported reason => s!"unsupported operation: {reason.message}"
  | .buffer reason => s!"invalid pixel buffer: {reason.message}"
  | .lut e => s!"LUT error: {e.message}"
  | .fileNotFound path => s!"LUT file not found: {path}"

end Messages

end ColorPipeline
