-- Pixel processors: the renderers of a pipeline, run over packed images. Long
-- buffers are cut into chunks of whole pixels, and each chunk goes through all
-- renderers by itself.
import ColorPipeline.Pipeline.Processor
import ColorPipeline.Render.Packing
import ColorPipeline.Render.Renderer

open scoped ColorPipeline.Scalar

namespace ColorPipeline

/-- The pixels of a chunk. -/
def chunkPixels : Nat := 4096

/-- A list cut into chunks of `size` items and a last one with the rest. -/
def chunks {α : Type} (size : Nat) : List α → List (List α)
  | [] => []
  | a :: rest => (a :: rest.take (size - 1)) :: chunks size (rest.drop (size - 1))
termination_by items => items.length

/-- Renderers that run one after the other, from images of one depth to images
of another. -/
structure PixelProcessor (S : Type) where
  renderers : List (Renderer S)
  input : BitDepth
  output : BitDepth

namespace PixelProcessor

variable {P S : Type}

/-- The depths of a processor must be known. -/
def make (renderers : List (Renderer S)) (input output : BitDepth) :
    Except (OpError P) (PixelProcessor S) :=
  if input = .unknown ∨ output = .unknown then .error (.buffer .depthUnknown)
  else .ok { renderers, input, output }

/-- The processor that runs the ops of a pipeline. -/
def ofProcessor [Scalar P] [Scalar S] [Precision P S] (p : Processor P S)
    (input output : BitDepth) : Except (OpError P) (PixelProcessor S) := do
  make (← p.ops.mapM Renderer.ofOp) input output

/-- The processor as it is made: the entries of inverse grids are read first. -/
def create [Scalar P] [Scalar S] [Precision P S] (p : Processor P S) (input output : BitDepth) :
    Except (OpError P) (PixelProcessor S) := do
  p.readEvaluated
  ofProcessor p input output

/-- No renderer is run. -/
def isNoop (p : PixelProcessor S) : Bool := p.renderers.isEmpty

variable [Scalar S]

/-! ## Buffers in units of 1.0 -/

/-- A buffer of RGBA samples after all renderers. -/
def applyUnits (p : PixelProcessor S) (samples : List S) : List S :=
  p.renderers.foldl (fun buffer r => r.applyBuffer buffer) samples

/-- The colours of a buffer of RGBA samples. -/
def colorsOf : List S → List (Rgb S)
  | r :: g :: b :: _ :: rest => ⟨r, g, b⟩ :: colorsOf rest
  | _ => []

/-- The pixels of a buffer of RGBA samples. -/
def pixelsOf : List S → List (Rgba S)
  | r :: g :: b :: a :: rest => ⟨r, g, b, a⟩ :: pixelsOf rest
  | _ => []

/-- RGB pixels after all renderers. -/
def applyRgb (p : PixelProcessor S) (pixels : List (Rgb S)) : List (Rgb S) :=
  (chunks chunkPixels pixels).flatMap fun chunk =>
    colorsOf (p.applyUnits (chunk.flatMap fun c => (Rgba.ofRgb c 1).toList))

/-- RGBA pixels after all renderers. -/
def applyRgba (p : PixelProcessor S) (pixels : List (Rgba S)) : List (Rgba S) :=
  (chunks chunkPixels pixels).flatMap fun chunk =>
    pixelsOf (p.applyUnits (chunk.flatMap Rgba.toList))

/-- A buffer with a number of channels after all renderers, with another number
of channels. -/
def run (p : PixelProcessor S) (channelsIn channelsOut : Nat) (samples : List S) : List S :=
  (chunks (chunkPixels * channelsIn) samples).flatMap fun chunk =>
    ofRgba channelsOut (p.applyUnits (toRgba channelsIn chunk))

/-- Running pixels through the renderers reads the entries of grids. -/
def readPixels (p : PixelProcessor S) (pixels : List (Rgba S)) : Except (OpError P) Unit :=
  pixels.forM fun px =>
    match p.renderers.foldlM (fun px r => r.read px) px with
    | .ok _ => .ok ()
    | .error e => .error (.lut (.size e))

/-! ## Images -/

variable [Stored S]

/-- Samples for the output depth after the pixels of an image went through all renderers
into them. Samples that do not fill a pixel stay as they are. -/
def render (p : PixelProcessor S) (image : Image S) (samples : Samples S) (channels : Nat) :
    Samples S :=
  samples.overwrite (Samples.ofUnits samples.storage p.output.maxValue
    (p.run image.channels channels (image.samples.units p.input.maxValue)))

/-- What a call that changes an image makes of it, if the call does not fail. -/
def changed (call : ExceptT (OpError P) (StateM (Image S)) Unit) (image : Image S) :
    Except (OpError P) (Image S) :=
  match call.run.run image with
  | (.ok (), done) => .ok done
  | (.error e, _) => .error e

/-- Changes an image in place. Its depth must be the input and the output depth. -/
def applyInPlace (p : PixelProcessor S) : ExceptT (OpError P) (StateM (Image S)) Unit := do
  let image ← get
  if image.depth ≠ p.input ∨ image.depth ≠ p.output then
    throw (.buffer (.inPlaceDepth image.depth p.input p.output))
  set { image with samples := p.render image image.samples image.channels }

/-- The image after all renderers. -/
def apply (p : PixelProcessor S) (image : Image S) : Except (OpError P) (Image S) :=
  changed p.applyInPlace image

/-- Writes the pixels of the source after all renderers into the destination. The
images must have the depths of the processor and as many pixels as each other. -/
def applyInto (p : PixelProcessor S) (source : Image S) :
    ExceptT (OpError P) (StateM (Image S)) Unit := do
  let destination ← get
  if source.depth ≠ p.input then
    throw (.buffer (.sourceDepth source.depth p.input))
  if destination.depth ≠ p.output then
    throw (.buffer (.destinationDepth destination.depth p.output))
  if source.pixels ≠ destination.pixels then
    throw (.buffer (.pixelCount source.pixels destination.pixels))
  set { destination with
    samples := p.render source destination.samples destination.channels }

/-- The destination with the pixels of the source after all renderers. -/
def applyTo (p : PixelProcessor S) (source destination : Image S) :
    Except (OpError P) (Image S) :=
  changed (p.applyInto source) destination

end PixelProcessor

end ColorPipeline
