-- Places in a YAML document, and the kinds of characters there. Line ends are
-- unified before a document is read, so that a line ends in one character.

namespace ColorPipeline

namespace Yaml

/-! ## Characters -/

/-- A character that a document may hold. -/
def isAllowed (c : Char) : Bool :=
  let n := c.toNat
  n == 0x09 || n == 0x0a || n == 0x0d || (0x20 ≤ n && n ≤ 0x7e) || n == 0x85 ||
    (0xa0 ≤ n && n ≤ 0xfffd) || 0x10000 ≤ n

/-- A space or a tab. -/
def isBlank (c : Char) : Bool := c == ' ' || c == '\t'

/-- The end of a line: a line feed, or a separator of lines or paragraphs. -/
def isBreak (c : Char) : Bool := c == '\n' || c == '\u2028' || c == '\u2029'

def isSpacing (c : Char) : Bool := isBlank c || isBreak c

/-- A text goes on with spacing, or ends. -/
def spacingNext (cs : List Char) : Bool := cs.head?.all isSpacing

/-- A text begins with three times `mark` as a word of its own. -/
def isMarker (mark : Char) : List Char → Bool
  | a :: b :: c :: rest => a == mark && b == mark && c == mark && spacingNext rest
  | _ => false

/-- A text that is cut stops within the next `n` characters, so that they are not known. -/
def stopsWithin (isCut : Bool) (n : Nat) (cs : List Char) : Bool :=
  isCut && (cs.drop (n - 1)).isEmpty

/-- Line ends as line feeds. Separators stay. -/
def unifyLineEnds : List Char → List Char
  | '\r' :: '\n' :: rest => '\n' :: unifyLineEnds rest
  | '\r' :: rest => '\n' :: unifyLineEnds rest
  | '\u0085' :: rest => '\n' :: unifyLineEnds rest
  | c :: rest => c :: unifyLineEnds rest
  | [] => []

/-- What a gap of spacing inside a text stands for: itself on one line, and
otherwise its line ends. A line feed in front is dropped, or is a space where it
is alone. -/
def foldGap (gap : List Char) : List Char :=
  match gap.filter isBreak with
  | [] => gap
  | ['\n'] => [' ']
  | '\n' :: more => more
  | breaks => breaks

/-! ## Places -/

/-- A place in a document: its line and its column, counted in characters. -/
structure Place where
  line : Nat := 0
  column : Nat := 0
  /-- The octets in front of it on its line. -/
  octets : Nat := 0

/-- The place after a character. -/
def Place.after (p : Place) (c : Char) : Place :=
  if isBreak c then { line := p.line + 1 }
  else { p with column := p.column + 1, octets := p.octets + c.utf8Size }

/-- A place in a document with what follows it. -/
structure Cursor extends Place where
  rest : List Char

namespace Cursor

/-- The beginning of a document. -/
def start (cs : List Char) : Cursor := ⟨{}, cs⟩

/-- The place after `n` characters. -/
def past (c : Cursor) (n : Nat) : Cursor :=
  ⟨(c.rest.take n).foldl Place.after c.toPlace, c.rest.drop n⟩

/-- The first place from which on `p` does not hold. -/
def passFrom (p : Char → Bool) (place : Place) : List Char → Cursor
  | [] => ⟨place, []⟩
  | c :: rest => if p c then passFrom p (place.after c) rest else ⟨place, c :: rest⟩

def passWhile (c : Cursor) (p : Char → Bool) : Cursor := passFrom p c.toPlace c.rest

/-- A line begins here with three times `mark`. -/
def atMarker (c : Cursor) (mark : Char) : Bool := c.column == 0 && isMarker mark c.rest

/-- A line begins here that begins or ends a document. -/
def atDocumentMark (c : Cursor) : Bool := c.atMarker '-' || c.atMarker '.'

/-- The beginning of the next line, if only blanks and a comment are left on this one. -/
def nextLine? (c : Cursor) : Option Cursor :=
  let c := c.passWhile isBlank
  let c := if c.rest.head? == some '#' then c.passWhile (!isBreak ·) else c
  match c.rest with
  | [] => some c
  | b :: _ => if isBreak b then some (c.past 1) else none

end Cursor

end Yaml

end ColorPipeline
