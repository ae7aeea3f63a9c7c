-- Why a lookup table could not be made or read.
import ColorPipeline.Text.Lines

namespace ColorPipeline

/-- Why samples do not make a lookup table. -/
inductive LutSizeError where
  /-- A 1D table of fewer than two entries. -/
  | fewEntries (found : Nat)
  /-- A 3D table of fewer than two points to an axis. -/
  | fewPoints (size : Nat)
  /-- A 3D table whose entries are not as many as its grid points. -/
  | entryCount (expected size found : Nat)
  /-- A listing that ends before the grid point with number `index`. -/
  | pointMissing (index found : Nat)
deriving DecidableEq

def LutSizeError.reason : LutSizeError → String
  | .fewEntries found => s!"1D LUT needs at least 2 entries, got {found}"
  | .fewPoints size => s!"3D LUT needs at least 2 points per axis, got {size}"
  | .entryCount expected size found =>
    s!"expected {expected} entries for size {size}, got {found}"
  | .pointMissing index found => s!"grid point {index} is not among the {found} entries"

def LutSizeError.message (e : LutSizeError) : String := s!"invalid LUT size: {e.reason}"

/-- Why a file could not be read as text. -/
inductive ReadFault where
  | notFound
  | notText
deriving DecidableEq

def ReadFault.message : ReadFault → String
  | .notFound => "I/O error: No such file or directory (os error 2)"
  | .notText => "I/O error: stream did not contain valid UTF-8"

/-- The formats of LUT files. -/
inductive LutFormat where
  | spi1d
  | itx
deriving DecidableEq

/-- What is wrong with the text of a LUT file. -/
inductive LutTextFault where
  | versionTag
  | versionNumber
  | fromTag
  | componentsTag
  | lengthTag
  | noVersion
  | noLength
  | noComponents
  | componentsRange
  | malformedLine
  | missingEntries
  | sizeTag
  | malformedTriple
  | noSize
  | tripleCount (found expected : Nat)
  | size (e : LutSizeError)
deriving DecidableEq

def LutTextFault.message : LutTextFault → String
  | .versionTag => "Invalid 'Version' Tag."
  | .versionNumber => "Only format version 1 supported."
  | .fromTag => "Invalid 'From' Tag."
  | .componentsTag => "Invalid 'Components' Tag."
  | .lengthTag => "Invalid 'Length' Tag."
  | .noVersion => "Could not find 'Version' Tag."
  | .noLength => "Could not find 'Length' Tag."
  | .noComponents => "Could not find 'Components' Tag."
  | .componentsRange => "Components must be [1,2,3]."
  | .malformedLine => "Malformed LUT line."
  | .missingEntries => "Not enough entries found."
  | .sizeTag => "Malformed LUT_3D_SIZE tag."
  | .malformedTriple => "Malformed color triples specified."
  | .noSize => "No 3D LUT found."
  | .tripleCount found expected =>
    s!"Incorrect number of 3D LUT entries. Found {found}, expected {expected}."
  | .size e => e.message

/-- Why a lookup table could not be made or read. -/
inductive LutError where
  | size (e : LutSizeError)
  | read (fault : ReadFault)
  | text (format : LutFormat) (file : String) (line : Option FileLine) (fault : LutTextFault)
deriving DecidableEq

/-- How messages begin about the text of a file. -/
def LutFormat.errorOpening : LutFormat → String
  | .spi1d => "Error parsing .spi1d file"
  | .itx => "Error parsing Iridas .itx file"

def LutError.message : LutError → String
  | .size e => e.message
  | .read fault => fault.message
  | .text format file line fault =>
    let place := match line with
      | none => ""
      | some l => s!"At line ({l.number}): '{l.text}'.  "
    s!"{format.errorOpening} ({file}).  {place}{fault.message}"

end ColorPipeline
