-- What stands in front of a node or a document: anchors, tags and directives.
-- Anchors name a node, so that it can be referred to. Tags say what kind of node
-- it is; they are texts of octets, which a zero octet ends.
import ColorPipeline.Number.Reading
import ColorPipeline.Yaml.Cursor

namespace ColorPipeline

namespace Yaml

/-- A letter, a digit, a dash or an underscore. -/
def isWordChar (c : Char) : Bool := c.isAlphanum || c == '-' || c == '_'

/-- The name of an anchor, of one character at least. -/
def readAnchor (cs : List Char) : Option (List Char) :=
  let name := cs.takeWhile isWordChar
  let after := cs.drop name.length
  if name.isEmpty || !(spacingNext after || after.head?.any "?:,]\x7d%@`".toList.contains) then none
  else some name

/-! ## Octets -/

/-- An octet written as a percent sign and two digits in base 16. -/
def readOctet : List Char → Option (UInt8 × List Char)
  | '%' :: a :: b :: rest => (Reading.digits 16 [a, b]).map fun n => (n.toUInt8, rest)
  | _ => none

/-- How many octets a character has that begins with `octet`. -/
def octetCount (octet : UInt8) : Option Nat :=
  if octet < 0x80 then some 1
  else if octet &&& 0xe0 == 0xc0 then some 2
  else if octet &&& 0xf0 == 0xe0 then some 3
  else if octet &&& 0xf8 == 0xf0 then some 4
  else none

/-- So many octets, none of which begins a character. -/
def readTrailing : Nat → List Char → Option (List UInt8 × List Char)
  | 0, cs => some ([], cs)
  | n + 1, cs => do
    let (octet, rest) ← readOctet cs
    if octet &&& 0xc0 != 0x80 then none
    let (more, last) ← readTrailing n rest
    return (octet :: more, last)

/-- A character that a tag may hold; commas and brackets only where it is `verbatim`. -/
def isTagChar (verbatim : Bool) (c : Char) : Bool :=
  isWordChar c || ";/?:@&=+$.!~*'()".toList.contains c || (verbatim && ",[]".toList.contains c)

/-- The octets of a tag, in at most `limit` steps, and what follows them. -/
def readOctets (verbatim : Bool) : Nat → List Char → Option (List UInt8 × List Char)
  | 0, _ => none
  | _, [] => some ([], [])
  | limit + 1, c :: rest =>
    if c == '%' then do
      let (octet, after) ← readOctet (c :: rest)
      let (trailing, after) ← readTrailing ((← octetCount octet) - 1) after
      let (more, last) ← readOctets verbatim limit after
      return (octet :: trailing ++ more, last)
    else if isTagChar verbatim c then
      (readOctets verbatim limit rest).map fun (more, last) => (c.toNat.toUInt8 :: more, last)
    else some ([], c :: rest)

/-- The octets of a tag that has some. -/
def readSomeOctets (verbatim : Bool) (cs : List Char) : Option (List UInt8 × List Char) :=
  (readOctets verbatim (cs.length + 1) cs).filter fun (_, rest) => rest.length < cs.length

/-- The text that octets are: a zero among them ends it. -/
def textOf (octets : List UInt8) : List UInt8 := octets.takeWhile (· != 0)

def octetsOf (cs : List Char) : List UInt8 := cs.map fun c => c.toNat.toUInt8

/-! ## Tags -/

/-- A tag as it is written: a handle, for which directives may set a text, and the rest. -/
structure Tag where
  handle : List Char
  ending : List UInt8

/-- A handle, or what may be one: an exclamation mark, a word and perhaps another mark. -/
def readHandle : List Char → Option (List Char × List Char)
  | '!' :: rest =>
    let word := rest.takeWhile isWordChar
    match rest.drop word.length with
    | '!' :: after => some ('!' :: word ++ ['!'], after)
    | after => some ('!' :: word, after)
  | _ => none

/-- A tag between angles, after an exclamation mark. -/
def readVerbatim (cs : List Char) : Option (Tag × List Char) := do
  match ← readSomeOctets true cs with
  | (octets, '>' :: rest) => return (⟨[], textOf octets⟩, rest)
  | _ => none

/-- A tag after its handle. What only looked like a handle belongs to the tag,
and the handle is one mark then. -/
def readShorthand (cs : List Char) : Option (Tag × List Char) := do
  let (handle, after) ← readHandle cs
  if 2 ≤ handle.length && handle.getLast? == some '!' then
    let (octets, rest) ← readSomeOctets false after
    return (⟨handle, textOf octets⟩, rest)
  else
    let (octets, rest) ← readOctets false (after.length + 1) after
    match textOf (octetsOf (handle.drop 1) ++ octets) with
    | [] => return (⟨[], octetsOf ['!']⟩, rest)
    | ending => return (⟨['!'], ending⟩, rest)

/-- A tag, with spacing behind it or, inside brackets, a comma. -/
def readTag (inFlow : Bool) (cs : List Char) : Option (Tag × List Char) := do
  let (tag, rest) ← match cs with
    | '!' :: '<' :: inner => readVerbatim inner
    | _ => readShorthand cs
  if spacingNext rest || (inFlow && rest.head? == some ',') then return (tag, rest) else none

/-! ## Directives -/

/-- A line in front of a document: the version that it is written for, or the text
that a handle stands for. -/
inductive Directive where
  | version (major minor : Nat)
  | handle (handle : List Char) (text : List UInt8)

/-- A number of a version, of nine digits at most. -/
def versionNumber (cs : List Char) : Option (Nat × List Char) :=
  let ds := cs.takeWhile Char.isDigit
  if 9 < ds.length then none else (Reading.digits 10 ds).map fun n => (n, cs.drop ds.length)

/-- The value of a directive of the given name, and what follows it. -/
def readDirectiveValue (name : String) (cs : List Char) : Option (Directive × List Char) :=
  match name with
  | "YAML" => do
    let (major, rest) ← versionNumber cs
    match rest with
    | '.' :: rest =>
      let (minor, rest) ← versionNumber rest
      return (.version major minor, rest)
    | _ => none
  | "TAG" => do
    let (handle, rest) ← readHandle cs
    if handle != ['!'] && (handle.length < 2 || handle.getLast? != some '!') then none
    if !rest.head?.any isBlank then none
    let (octets, rest) ← readSomeOctets true (rest.dropWhile isBlank)
    if spacingNext rest then return (.handle handle (textOf octets), rest) else none
  | _ => none

/-- A directive after its percent sign, and what follows it on the line. -/
def readDirective (cs : List Char) : Option (Directive × List Char) :=
  let name := cs.takeWhile isWordChar
  let after := cs.drop name.length
  if name.isEmpty || !spacingNext after then none
  else readDirectiveValue (String.ofList name) (after.dropWhile isBlank)

end Yaml

end ColorPipeline
