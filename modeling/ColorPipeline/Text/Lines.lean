-- The lines of a file. A line ends at a line feed, and a carriage return
-- before the line feed belongs to the end. A line that is not UTF-8 has no
-- text.

namespace ColorPipeline

/-- A line of a file: its number, from 1 on, and its text. -/
structure FileLine where
  number : Nat
  text : String
deriving DecidableEq

namespace Text

/-- The bytes of a line whose last byte comes first, less a carriage return at
its end. -/
def withoutReturn : List UInt8 → List UInt8
  | 13 :: rest => rest.reverse
  | bytes => bytes.reverse

/-- The lines of bytes, where `current` holds the line that has begun, last byte
first. Bytes after the last line feed are a line too. -/
def splitLines (current : List UInt8) : List UInt8 → List (List UInt8)
  | [] => if current.isEmpty then [] else [current.reverse]
  | 10 :: rest => withoutReturn current :: splitLines [] rest
  | b :: rest => splitLines (b :: current) rest

/-- The text of bytes, if they are UTF-8. -/
def ofBytes? (bytes : List UInt8) : Option String := String.fromUTF8? ⟨bytes.toArray⟩

/-- The lines of a file, each with its text if it has one. -/
def lines (bytes : ByteArray) : List (Option String) :=
  (splitLines [] bytes.toList).map ofBytes?

end Text

end ColorPipeline
