-- Blocks of lines: texts whose lines stand below a bar, or below an angle where
-- the lines are folded. The indent of the lines is stated or is that of the first one.
import ColorPipeline.Yaml.Cursor

namespace ColorPipeline

namespace Yaml

/-- The marks of a block: what happens to the line ends at its end, and by how much
its lines are indented, if that is stated. -/
structure BlockMarks where
  ending : Option Char
  indent : Option Nat

/-- A mark for the line ends at the end: `+` keeps all, `-` drops all. -/
def endingMark : List Char → Option Char × List Char
  | '+' :: rest => (some '+', rest)
  | '-' :: rest => (some '-', rest)
  | cs => (none, cs)

/-- A mark for the indent. It is not 0. -/
def indentMark : List Char → Option (Option Nat × List Char)
  | c :: rest =>
    if c == '0' then none
    else if c.isDigit then some (some (c.toNat - '0'.toNat), rest)
    else some (none, c :: rest)
  | [] => some (none, [])

/-- The marks of a block, in either order, and how many there are. -/
def readMarks (cs : List Char) : Option (BlockMarks × Nat) := do
  let (before, cs) := endingMark cs
  let (indent, cs) ← indentMark cs
  let ending := if before.isNone && indent.isSome then (endingMark cs).1 else before
  return (⟨ending, indent⟩, ending.toList.length + indent.toList.length)

/-- The line ends in front of the next line that is not empty, the largest column
met, and the place where that line goes on. Spaces are passed up to column
`indent`, or all of them where it is 0. A tab among them is a fault. -/
def blockBreaks (indent : Nat) (place : Place) (widest : Nat) :
    List Char → Option (List Char × Nat × Cursor)
  | [] => some ([], max widest place.column, ⟨place, []⟩)
  | c :: rest =>
    let inMargin := indent == 0 || place.column < indent
    if inMargin && c == ' ' then blockBreaks indent (place.after c) widest rest
    else if inMargin && c == '\t' then none
    else if isBreak c then
      (blockBreaks indent (place.after c) (max widest place.column) rest).map
        fun (breaks, found) => (c :: breaks, found)
    else some ([], max widest place.column, ⟨place, c :: rest⟩)

/-- The lines of a block at column `indent`, joined: the text, the last line end
and the empty lines after it. `ended` is the line end before, `breaks` has the
empty lines after that, and `afterBlank` says that the line before began with a blank. -/
def blockLines (isFolded : Bool) (indent : Nat) (ended breaks : List Char) (afterBlank : Bool) :
    Nat → Cursor → Option (List Char × List Char × List Char × Cursor)
  | 0, _ => none
  | limit + 1, c =>
    if c.column != indent || c.rest.isEmpty then some ([], ended, breaks, c)
    else do
      let isBlankLine := c.rest.head?.any isBlank
      let joint :=
        if isFolded && ended == ['\n'] && !afterBlank && !isBlankLine then
          if breaks.isEmpty then [' '] else []
        else ended
      let line := c.rest.takeWhile (!isBreak ·)
      let after := c.rest.drop line.length
      let next := c.past (line.length + 1)
      let (more, _, next) ←
        if after.isEmpty then some ([], 0, next) else blockBreaks indent next.toPlace 0 next.rest
      let (text, rest) ← blockLines isFolded indent (after.take 1) more isBlankLine limit next
      return (joint ++ breaks ++ line ++ text, rest)

/-- A block after the character that begins it, inside collections whose innermost
one stands at column `outer`: its text, and the place after it. -/
def readBlock (isFolded : Bool) (outer : Option Nat) (c : Cursor) : Option (List Char × Cursor) := do
  let (marks, count) ← readMarks c.rest
  let c ← (c.past count).nextLine?
  let stated := (marks.indent.map (outer.getD 0 + ·)).getD 0
  let (breaks, widest, c) ← blockBreaks stated c.toPlace 0 c.rest
  let least := max 1 ((outer.map (· + 1)).getD 0)
  let indent := if stated == 0 then max widest least else stated
  let (text, ended, breaks, c) ← blockLines isFolded indent [] breaks false (c.rest.length + 1) c
  match marks.ending with
  | some '+' => return (text ++ ended ++ breaks, c)
  | some _ => return (text, c)
  | none => return (text ++ ended, c)

end Yaml

end ColorPipeline
