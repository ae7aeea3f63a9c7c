-- Packed images: interleaved RGB or RGBA samples of one storage type, with
-- their bit depth. An image is made only from samples that fill its pixels.
import ColorPipeline.Image.BitDepth
import ColorPipeline.Number.Size
import ColorPipeline.Number.Stored

namespace ColorPipeline

/-- A half-precision sample. -/
structure Half where
  bits : UInt16
deriving DecidableEq

namespace Half

/-- The sample as a number of higher precision. -/
def widen {S : Type} [Stored S] (h : Half) : S :=
  Stored.ofBits (BinaryFormat.convert .half (Stored.format S) h.bits.toNat)

/-- The nearest half-precision sample. -/
def narrow {S : Type} [Stored S] (v : S) : Half :=
  ⟨UInt16.ofNat (BinaryFormat.convert (Stored.format S) .half (Stored.bits v))⟩

end Half

/-- Samples of one storage type. -/
inductive Samples (S : Type) where
  | bytes (values : List UInt8)
  | words (values : List UInt16)
  | halves (values : List Half)
  | floats (values : List S)

/-- How samples are stored. -/
inductive Storage where
  | bytes
  | words
  | halves
  | floats
deriving DecidableEq

namespace Storage

def name : Storage → String
  | bytes => "u8"
  | words => "u16"
  | halves => "f16"
  | floats => "f32"

/-- The storage can hold samples of the depth. -/
def holds : Storage → BitDepth → Bool
  | bytes, .uint8 => true
  | words, .uint10 => true
  | words, .uint12 => true
  | words, .uint16 => true
  | halves, .half => true
  | floats, .float => true
  | _, _ => false

end Storage

namespace Samples

variable {S : Type}

/-- The number of samples. -/
def size : Samples S → Nat
  | bytes values => values.length
  | words values => values.length
  | halves values => values.length
  | floats values => values.length

def storage : Samples S → Storage
  | bytes _ => .bytes
  | words _ => .words
  | halves _ => .halves
  | floats _ => .floats

/-- The samples with others of the same storage in place of the first of them. -/
def overwrite : Samples S → Samples S → Samples S
  | bytes old, bytes new => bytes (new ++ old.drop new.length)
  | words old, words new => words (new ++ old.drop new.length)
  | halves old, halves new => halves (new ++ old.drop new.length)
  | floats old, floats new => floats (new ++ old.drop new.length)
  | old, _ => old

end Samples

/-- Why samples do not make an image. -/
inductive ImageError where
  | bufferSize (expected actual : Nat)
  | unsupportedChannels (channels : Nat)
  | storageMismatch (storage : Storage) (depth : BitDepth)
deriving DecidableEq

def ImageError.message : ImageError → String
  | .bufferSize expected actual =>
    s!"buffer holds {actual} samples but {expected} were expected"
  | .unsupportedChannels channels => s!"unsupported channel count {channels}: expected 3 or 4"
  | .storageMismatch storage depth =>
    s!"{storage.name} storage cannot hold {depth.label} samples"

/-- Interleaved samples of `pixels` pixels with `channels` samples each. -/
structure Image (S : Type) where
  samples : Samples S
  depth : BitDepth
  channels : Nat
  pixels : Nat

namespace Image

variable {S : Type}

/-- Only RGB and RGBA images are made. -/
def checkChannels (channels : Nat) : Except ImageError Unit :=
  if channels = 3 ∨ channels = 4 then .ok () else .error (.unsupportedChannels channels)

/-- An image of a stated number of pixels. -/
def make (samples : Samples S) (depth : BitDepth) (channels pixels : Nat) :
    Except ImageError (Image S) := do
  checkChannels channels
  if !samples.storage.holds depth then
    throw (.storageMismatch samples.storage depth)
  let expected := sizeProduct pixels channels
  if samples.size ≠ expected then
    throw (.bufferSize expected samples.size)
  return { samples, depth, channels, pixels }

/-- An image of as many pixels as the samples fill. -/
def ofSamples (samples : Samples S) (depth : BitDepth) (channels : Nat) :
    Except ImageError (Image S) := do
  checkChannels channels
  if samples.size % channels ≠ 0 then
    throw (.bufferSize ((samples.size / channels + 1) * channels) samples.size)
  make samples depth channels (samples.size / channels)

/-- An 8-bit image. -/
def ofBytes (values : List UInt8) (channels : Nat) : Except ImageError (Image S) :=
  ofSamples (.bytes values) .uint8 channels

/-- A 10-, 12- or 16-bit image. -/
def ofWords (values : List UInt16) (depth : BitDepth) (channels : Nat) :
    Except ImageError (Image S) :=
  ofSamples (.words values) depth channels

/-- A half-precision image. -/
def ofHalves (values : List Half) (channels : Nat) : Except ImageError (Image S) :=
  ofSamples (.halves values) .half channels

/-- A single-precision image. -/
def ofFloats (values : List S) (channels : Nat) : Except ImageError (Image S) :=
  ofSamples (.floats values) .float channels

end Image

end ColorPipeline
