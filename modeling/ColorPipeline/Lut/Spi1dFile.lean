-- The .spi1d format of 1D tables. A header gives the version, the input range
-- of the samples, their number and how many values each has; the samples
-- follow in braces, one to a line.
import ColorPipeline.Lut.Lut1D
import ColorPipeline.Number.Size
import ColorPipeline.Number.Stored
import ColorPipeline.Text.Blank

open scoped ColorPipeline.Scalar

namespace ColorPipeline

/-- What a .spi1d file holds: a table whose samples are spread evenly over the
inputs from `fromMin` to `fromMax`. -/
structure Spi1d (S : Type) where
  lut : Lut1D S
  fromMin : S
  fromMax : S

namespace Spi1d

variable {S : Type} [Scalar S] [Stored S]

/-- What the header has said so far. -/
structure Header (S : Type) where
  version : Option Int
  length : Option Nat
  components : Option Nat
  fromMin : S
  fromMax : S

/-- Samples span the inputs from 0 to 1 unless the header says otherwise. -/
def Header.empty : Header S := ⟨none, none, none, 0, 1⟩

/-- A fault in a line. -/
def faultAt {α : Type} (file : String) (line : FileLine) (fault : LutTextFault) :
    Except LutError α :=
  .error (.text .spi1d file (some line) fault)

/-- A fault that no line shows. -/
def faultIn {α : Type} (file : String) (fault : LutTextFault) : Except LutError α :=
  .error (.text .spi1d file none fault)

/-- A natural number alone, with blanks around it. -/
def count? (cs : List Char) : Option Nat := Reading.natural 10 sizeLimit (Text.trim cs)

/-- The header with one more line. A line with none of the tags says nothing,
and the last line with a tag counts. -/
def Header.read (file : String) (h : Header S) (line : FileLine) : Except LutError (Header S) :=
  let cs := line.text.toList
  match Text.afterTag? "Version" cs with
  | some rest =>
    match Reading.integer (Text.trim rest) with
    | some 1 => .ok { h with version := some 1 }
    | some _ => faultAt file line .versionNumber
    | none => faultAt file line .versionTag
  | none =>
    match Text.afterTag? "From" cs with
    | some rest =>
      match (Text.words rest).filterMap Stored.read? with
      | [low, high] => .ok { h with fromMin := low, fromMax := high }
      | _ => faultAt file line .fromTag
    | none =>
      match Text.afterTag? "Components" cs with
      | some rest =>
        match count? rest with
        | some n => .ok { h with components := some n }
        | none => faultAt file line .componentsTag
      | none =>
        match Text.afterTag? "Length" cs with
        | some rest =>
          match count? rest with
          | some n => .ok { h with length := some n }
          | none => faultAt file line .lengthTag
        | none => .ok h

/-- A line opens the samples. -/
def opensSamples (text : String) : Bool := text.toList.head? == some '{'

/-- The header, and the lines after it with the number of the first. The header
ends at the first line that begins with a brace. -/
def readHeader (file : String) : Header S → Nat → List (Option String) →
    Except LutError (Header S × Nat × List (Option String))
  | h, n, [] => .ok (h, n, [])
  | _, _, none :: _ => .error (.read .notText)
  | h, n, some text :: rest =>
    if opensSamples text then .ok (h, n + 1, rest)
    else
      match h.read file ⟨n, text⟩ with
      | .ok h' => readHeader file h' (n + 1) rest
      | .error e => .error e

/-- The sample with the values of a line: one value goes to all channels, and
two leave blue at zero. -/
def sample? (components : Nat) (values : List S) : Option (Rgb S) :=
  match components, values with
  | 1, [v] => some (Rgb.gray v)
  | 2, [r, g] => some ⟨r, g, 0⟩
  | 3, [r, g, b] => some ⟨r, g, b⟩
  | _, _ => none

/-- The samples up to a closing brace or the end. Blank lines do not count. -/
def readSamples (file : String) (components : Nat) :
    Nat → List (Option String) → Except LutError (List (Rgb S))
  | _, [] => .ok []
  | _, none :: _ => .error (.read .notText)
  | n, some text :: rest =>
    let trimmed := Text.trim text.toList
    if trimmed = ['}'] then .ok []
    else if trimmed.isEmpty then readSamples file components (n + 1) rest
    else
      match ((Text.words trimmed).mapM Stored.read?).bind (sample? components) with
      | some p => (readSamples file components (n + 1) rest).map (p :: ·)
      | none => faultAt file ⟨n, String.ofList trimmed⟩ .malformedLine

/-- The table in the lines of a file. The name of the file is only for messages. -/
def parse (file : String) (lines : List (Option String)) : Except LutError (Spi1d S) := do
  let (header, next, body) ← readHeader file Header.empty 1 lines
  if header.version.isNone then
    faultIn file .noVersion
  let some length := header.length | faultIn file .noLength
  let some components := header.components | faultIn file .noComponents
  if components < 1 ∨ 3 < components then
    faultIn file .componentsRange
  let samples ← readSamples file components next body
  if samples.length ≠ length then
    faultIn file .missingEntries
  match Lut1D.ofSamples samples.toArray with
  | .ok lut => return { lut, fromMin := header.fromMin, fromMax := header.fromMax }
  | .error e => faultIn file (.size e)

/-! ## Loading -/

/-- The samples that a table has room for: 12 bytes each, in one block of memory. -/
def room : Nat := (Nat.pow 2 63 - 1) / 12

/-- The number of samples that a header announces, where nothing is missing from it. -/
def Header.announced? (h : Header S) : Option Nat :=
  match h.version, h.length, h.components with
  | some _, some length, some components =>
    if components < 1 ∨ 3 < components then none else some length
  | _, _, _ => none

/-- Room is made for all samples that a header announces. -/
def Header.makeRoom (h : Header S) : Except LutError Unit :=
  match h.announced? with
  | none => .ok ()
  | some length => if room < length then .error (.size (.pointMissing room room)) else .ok ()

/-- The table in the lines of a file. There must be room for its samples before the first of them
is read. -/
def load (file : String) (lines : List (Option String)) : Except LutError (Spi1d S) := do
  let (header, _) ← readHeader file (Header.empty : Header S) 1 lines
  header.makeRoom
  parse file lines

end Spi1d

end ColorPipeline
