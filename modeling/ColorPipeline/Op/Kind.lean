-- The kinds of ops.

namespace ColorPipeline

inductive OpKind where
  | matrix
  | range
  | exponent
  | log
  | lut1D
  | lut3D
  | fixedFunction
deriving DecidableEq

/-- The name of a kind in cache IDs and messages. -/
def OpKind.name : OpKind → String
  | .matrix => "MatrixOp"
  | .range => "RangeOp"
  | .exponent => "ExponentOp"
  | .log => "LogOp"
  | .lut1D => "Lut1DOp"
  | .lut3D => "Lut3DOp"
  | .fixedFunction => "FixedFunctionOp"

end ColorPipeline
