import ColorPipeline.FixedFunction.Apply
import ColorPipeline.FixedFunction.Chromaticity
import ColorPipeline.FixedFunction.Glow
import ColorPipeline.FixedFunction.Hsv
import ColorPipeline.FixedFunction.RedModifier
import ColorPipeline.FixedFunction.Style
import ColorPipeline.FixedFunction.Surround
import ColorPipeline.Image.BitDepth
import ColorPipeline.Image.Packed
import ColorPipeline.Image.Pixel
import ColorPipeline.Lut.Curve
import ColorPipeline.Lut.Error
import ColorPipeline.Lut.Grid
import ColorPipeline.Lut.Interpolation
import ColorPipeline.Lut.ItxFile
import ColorPipeline.Lut.Lut1D
import ColorPipeline.Lut.Lut3D
import ColorPipeline.Lut.Spi1dFile
import ColorPipeline.Number.Binary
import ColorPipeline.Number.Layout
import ColorPipeline.Number.Reading
import ColorPipeline.Number.Scalar
import ColorPipeline.Number.Sha256
import ColorPipeline.Number.Shortest
import ColorPipeline.Number.Size
import ColorPipeline.Number.Stored
import ColorPipeline.Op.Basic
import ColorPipeline.Op.Data
import ColorPipeline.Op.Direction
import ColorPipeline.Op.Error
import ColorPipeline.Op.Exponent
import ColorPipeline.Op.Fingerprint
import ColorPipeline.Op.FixedFunction
import ColorPipeline.Op.Kind
import ColorPipeline.Op.Log
import ColorPipeline.Op.Matrix
import ColorPipeline.Op.Range
import ColorPipeline.Op.Tables
import ColorPipeline.Pipeline.Basic
import ColorPipeline.Pipeline.Flags
import ColorPipeline.Pipeline.Optimizer
import ColorPipeline.Pipeline.Processor
import ColorPipeline.Pipeline.Transform
import ColorPipeline.Proofs.BakedCurves
import ColorPipeline.Proofs.Brackets
import ColorPipeline.Proofs.Channels
import ColorPipeline.Proofs.Checks
import ColorPipeline.Proofs.CodeLayout
import ColorPipeline.Proofs.ComposedTables
import ColorPipeline.Proofs.CornerMeans
import ColorPipeline.Proofs.CountedReads
import ColorPipeline.Proofs.CountedSizes
import ColorPipeline.Proofs.CurveTextures
import ColorPipeline.Proofs.Curves
import ColorPipeline.Proofs.Directions
import ColorPipeline.Proofs.Edits
import ColorPipeline.Proofs.Emission
import ColorPipeline.Proofs.Equality
import ColorPipeline.Proofs.Exact
import ColorPipeline.Proofs.Fingerprints
import ColorPipeline.Proofs.FittedRanges
import ColorPipeline.Proofs.GlowPairs
import ColorPipeline.Proofs.GridListings
import ColorPipeline.Proofs.GridPairs
import ColorPipeline.Proofs.GridSearches
import ColorPipeline.Proofs.GridSlopes
import ColorPipeline.Proofs.GridTextures
import ColorPipeline.Proofs.HsvPairs
import ColorPipeline.Proofs.IdentityTables
import ColorPipeline.Proofs.ItxFiles
import ColorPipeline.Proofs.KeptAlpha
import ColorPipeline.Proofs.LeastInputs
import ColorPipeline.Proofs.LogPairs
import ColorPipeline.Proofs.MachineNumbers
import ColorPipeline.Proofs.MachineValues
import ColorPipeline.Proofs.MachineZeros
import ColorPipeline.Proofs.MatrixPairs
import ColorPipeline.Proofs.Meaning
import ColorPipeline.Proofs.NearGrids
import ColorPipeline.Proofs.NearestNumbers
import ColorPipeline.Proofs.NormalForm
import ColorPipeline.Proofs.PixelRuns
import ColorPipeline.Proofs.PowerPairs
import ColorPipeline.Proofs.Processors
import ColorPipeline.Proofs.ProgramLayout
import ColorPipeline.Proofs.Provenance
import ColorPipeline.Proofs.RangeFusion
import ColorPipeline.Proofs.RedModifierPairs
import ColorPipeline.Proofs.Rendering
import ColorPipeline.Proofs.Results
import ColorPipeline.Proofs.SampleParameters
import ColorPipeline.Proofs.ShaderFingerprints
import ColorPipeline.Proofs.ShaderVariables
import ColorPipeline.Proofs.SharedTextures
import ColorPipeline.Proofs.SignlessCode
import ColorPipeline.Proofs.SignlessTables
import ColorPipeline.Proofs.Spelling
import ColorPipeline.Proofs.Spi1dFiles
import ColorPipeline.Proofs.StylePairs
import ColorPipeline.Proofs.SurroundPairs
import ColorPipeline.Proofs.TablePairs
import ColorPipeline.Proofs.TextLines
import ColorPipeline.Proofs.TidyCode
import ColorPipeline.Proofs.TidyTables
import ColorPipeline.Proofs.Unwinding
import ColorPipeline.Proofs.ValidRuns
import ColorPipeline.Proofs.Validity
import ColorPipeline.Proofs.Walks
import ColorPipeline.Proofs.WrittenCode
import ColorPipeline.Proofs.ZeroSigns
import ColorPipeline.Render.Packing
import ColorPipeline.Render.PixelProcessor
import ColorPipeline.Render.Renderer
import ColorPipeline.Settings.Basic
import ColorPipeline.Shader.Arithmetic
import ColorPipeline.Shader.Code
import ColorPipeline.Shader.Emission
import ColorPipeline.Shader.Evaluation
import ColorPipeline.Shader.FixedFunction
import ColorPipeline.Shader.Formula
import ColorPipeline.Shader.Language
import ColorPipeline.Shader.Lookup1D
import ColorPipeline.Shader.Lookup3D
import ColorPipeline.Shader.Program
import ColorPipeline.Text.Blank
import ColorPipeline.Text.Lines
import ColorPipeline.Yaml.Anchors
import ColorPipeline.Yaml.Block
import ColorPipeline.Yaml.Cursor
import ColorPipeline.Yaml.Event
import ColorPipeline.Yaml.Mapping
import ColorPipeline.Yaml.Parts
import ColorPipeline.Yaml.Plain
import ColorPipeline.Yaml.Quoted
import ColorPipeline.Yaml.Tag
import ColorPipeline.Yaml.Token
import ColorPipeline.Yaml.Writing
