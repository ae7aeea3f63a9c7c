-- Ops added to shader programs, and pipelines as whole programs.
import ColorPipeline.Pipeline.Processor
import ColorPipeline.Shader.Arithmetic
import ColorPipeline.Shader.FixedFunction
import ColorPipeline.Shader.Lookup1D
import ColorPipeline.Shader.Lookup3D

namespace ColorPipeline

variable {P S : Type} [Scalar P] [Stored P] [Scalar S] [Stored S] [Precision P S]

/-- The code of an op, and the program with the textures and helpers that the
code uses. `source` is the cache ID of the op. -/
def OpData.emit (d : OpData P S) (program : ShaderProgram S) (source : String) :
    Except (OpError P) (Code × ShaderProgram S) :=
  let l := program.settings.language
  let px := program.settings.pixelName
  match d with
  | matrix m => .ok (m.code l px, program)
  | range r => .ok (r.code l px, program)
  | exponent e => .ok (e.code l px, program)
  | log o => .ok (o.code l px, program)
  | lut1D t => t.emit program source
  | lut3D t => t.emit program source
  | fixedFunction f => .ok (f.code S l px, program)

namespace ShaderProgram

/-- The program with one more op. -/
def addOp (program : ShaderProgram S) (op : Op P S) : Except (OpError P) (ShaderProgram S) := do
  op.requireFinalized .shader
  let (code, withResources) ← op.data.emit program op.cacheId
  return withResources.addBody ((Code.indented code).text program.settings.language)

/-- The program with more ops, in order. -/
def addOps (program : ShaderProgram S) (ops : Pipeline P S) :
    Except (OpError P) (ShaderProgram S) :=
  ops.foldlM addOp program

/-- The program with all ops of a processor, and marked with its cache ID. -/
def addPipeline (program : ShaderProgram S) (p : Processor P S) :
    Except (OpError P) (ShaderProgram S) :=
  { program with pipelineId := p.cacheId }.addOps p.ops

/-- The program with a processor as it is extracted: the entries of inverse grids are read
first. -/
def extract (program : ShaderProgram S) (p : Processor P S) :
    Except (OpError P) (ShaderProgram S) := do
  p.readEvaluated
  program.addPipeline p

end ShaderProgram

end ColorPipeline
