-- The .itx format of 3D tables: a line with the number of points to an axis,
-- and then a colour for each grid point, red changing fastest. A line that
-- begins with a number sign is a comment.
import ColorPipeline.Lut.Lut3D
import ColorPipeline.Number.Stored
import ColorPipeline.Text.Blank

namespace ColorPipeline

namespace ItxFile

variable {S : Type} [Scalar S] [Stored S]

/-- What has been read so far: the size, and the colours, last one first. -/
structure Listing (S : Type) where
  size : Option Nat
  colors : List (Rgb S)

def Listing.empty : Listing S := ⟨none, []⟩

/-- The words of a line in lower case. -/
def lineWords (text : String) : List (List Char) :=
  Text.words (text.toList.map Char.toLower)

/-- A line is a comment. -/
def isComment (text : String) : Bool := text.toList.head? == some '#'

/-- The tag of the line with the size, in lower case. -/
def sizeTag : List Char := "lut_3d_size".toList

/-- The colours that a listing has room for: 12 bytes each, in one block of
memory. -/
def room : Nat := (Nat.pow 2 63 - 1) / 12

/-- The listing with one more line. Lines before the size say nothing. A later
size replaces an earlier one and keeps the colours read so far. A size makes
room for all its colours at once, even if a later one replaces it. -/
def Listing.read (file : String) (l : Listing S) (line : FileLine) :
    Except LutError (Listing S) :=
  if isComment line.text then .ok l
  else
    match lineWords line.text with
    | [] => .ok l
    | first :: rest =>
      if first = sizeTag then
        match rest.map (Reading.natural 10 sizeLimit) with
        | [some n] =>
          if l.colors.length + sizeCube n ≤ room then .ok { l with size := some n }
          else .error (.size (.pointMissing room room))
        | _ => .error (.text .itx file (some line) .sizeTag)
      else if l.size.isNone then .ok l
      else
        match (first :: rest).mapM Stored.read? with
        | some [r, g, b] => .ok { l with colors := ⟨r, g, b⟩ :: l.colors }
        | _ => .error (.text .itx file (some line) .malformedTriple)

/-- The listing after all lines, the first of which has number `n`. -/
def readLines (file : String) : Listing S → Nat → List (Option String) →
    Except LutError (Listing S)
  | l, _, [] => .ok l
  | _, _, none :: _ => .error (.read .notText)
  | l, n, some text :: rest =>
    match l.read file ⟨n, text⟩ with
    | .ok l' => readLines file l' (n + 1) rest
    | .error e => .error e

/-- A fault that no line shows. -/
def faultIn {α : Type} (file : String) (fault : LutTextFault) : Except LutError α :=
  .error (.text .itx file none fault)

/-- The table in the lines of a file. The name of the file is only for messages. -/
def parse (file : String) (lines : List (Option String)) : Except LutError (Lut3D S) := do
  let listing ← readLines file Listing.empty 1 lines
  let some size := listing.size | faultIn file .noSize
  if listing.colors.length ≠ sizeCube size then
    faultIn file (.tripleCount listing.colors.length (sizeCube size))
  match Lut3D.ofRedFastest listing.colors.reverse.toArray size with
  | .ok lut => return lut
  | .error e@(.pointMissing _ _) => .error (.size e)
  | .error e => faultIn file (.size e)

end ItxFile

end ColorPipeline
