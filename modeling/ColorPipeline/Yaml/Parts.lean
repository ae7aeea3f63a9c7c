-- The parts in which a document is read. A part with a character that a document may
-- not hold is not read at all, and nothing after it.
import ColorPipeline.Yaml.Cursor

namespace ColorPipeline

namespace Yaml

/-- The most octets of a part. A character is never divided. -/
def partSize : Nat := 16384

/-- The text of the parts in front of the first one that cannot be read, and whether
there is no such part. `part` is the part so far, its last character first, and
`room` is how many octets can follow in it. -/
def readableFrom (part : List Char) (room : Nat) : List Char → List Char × Bool
  | [] => (part.reverse, true)
  | c :: rest =>
    let fits : Bool := c.utf8Size ≤ room
    if !isAllowed c then (if fits then [] else part.reverse, false)
    else if fits then readableFrom (c :: part) (room - c.utf8Size) rest
    else (readableFrom [c] (partSize - c.utf8Size) rest).map (part.reverse ++ ·) id

/-- The text of the parts that can be read, and whether that is all of a document. -/
def readable (cs : List Char) : List Char × Bool := readableFrom [] partSize cs

end Yaml

end ColorPipeline
