-- Processors: pipelines that are checked, simplified and finalized.
import ColorPipeline.Pipeline.Optimizer
import ColorPipeline.Pipeline.Transform

namespace ColorPipeline

structure Processor (P S : Type) where
  /-- Finalized ops in the order in which they are applied. -/
  ops : Pipeline P S

namespace Processor

variable {P S : Type}

def cacheId (p : Processor P S) : String := p.ops.cacheId

/-- The processor has no op left. -/
def isNoop (p : Processor P S) : Bool := p.ops.isEmpty

/-- Making renderers or code for the ops reads the entries of inverse grids. -/
def readEvaluated [Scalar S] (p : Processor P S) : Except (OpError P) Unit :=
  p.ops.forM fun op => op.data.readEvaluated

variable [Scalar P] [Scalar S] [Stored P] [Precision P S]

/-- The processor of a pipeline. Every op is checked first, so an op that is not
well formed is refused even where a simplification would drop it. -/
def ofOps (ops : Pipeline P S) (flags : OptimizationFlags) :
    Except (OpError P) (Processor P S) := do
  let checked ← ops.finalize.toExcept
  let optimized ← (Pipeline.optimize flags checked).toExcept
  let finished ← (Pipeline.finalize optimized).toExcept
  return ⟨finished⟩

/-- The processor of transforms one after the other. -/
def ofTransforms [Stored S] (files : String → Option ByteArray)
    (transforms : List (Transform P S)) (d : Direction) (flags : OptimizationFlags) :
    Except (OpError P) (Processor P S) := do
  let ops ← (Transform.buildList files transforms d).toExcept
  ofOps (ops.map fun data => { data }) flags

end Processor

end ColorPipeline
