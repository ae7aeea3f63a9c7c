-- Plain texts: texts without quotes. They end at a comment, at a colon before
-- spacing, inside brackets at a bracket or a comma, and elsewhere at a line that
-- does not stand far enough to the right.
import ColorPipeline.Yaml.Cursor

namespace ColorPipeline

namespace Yaml

/-- A bracket or a comma. -/
def isBracket (c : Char) : Bool := ",[]\x7b\x7d".toList.contains c

/-- A plain text can begin with `c` before `rest`. -/
def startsPlain (inFlow : Bool) (c : Char) (rest : List Char) : Bool :=
  if c == '-' then !spacingNext rest
  else if c == '?' || c == ':' then !inFlow && !spacingNext rest
  else !isSpacing c && !isBracket c && !"#&*!|>'\"%@`".toList.contains c

/-- The part of a plain text up to the next spacing or to its end. Inside
brackets, a colon before a bracket or a question mark is a fault. -/
def plainRun (inFlow : Bool) : List Char → Option (List Char)
  | [] => some []
  | c :: rest =>
    if isSpacing c || (c == ':' && spacingNext rest) || (inFlow && isBracket c) then some []
    else if inFlow && c == ':' && rest.head?.any (fun d => isBracket d || d == '?') then none
    else (plainRun inFlow rest).map (c :: ·)

/-- After a line end in the gap, a tab stands to the left of column `least`.
`column` is the column in the gap, once a line end has been passed. -/
def tabBefore (least : Nat) (column : Option Nat) : List Char → Bool
  | [] => false
  | c :: rest =>
    if isBreak c then tabBefore least (some 0) rest
    else (c == '\t' && column.any (· < least)) || tabBefore least (column.map (· + 1)) rest

structure PlainText where
  text : List Char
  /-- The place after the text and the spacing behind it. -/
  cursor : Cursor
  /-- The spacing behind the text has a line end. -/
  endsLine : Bool

/-- A plain text in at most `limit` parts, where `gap` is the spacing in front of
the next part. Lines go on with the text from column `least` on. Whether a part
begins shows in four characters, and where it ends in two. -/
def readPlain (isCut inFlow : Bool) (least : Nat) (gap : List Char) : Nat → Cursor → Option PlainText
  | 0, _ => none
  | limit + 1, c => do
    if stopsWithin isCut 4 c.rest then none
    let stop : PlainText := ⟨[], c, gap.any isBreak⟩
    if c.atDocumentMark || c.rest.head? == some '#' then return stop
    let run ← plainRun inFlow c.rest
    if run.isEmpty then return stop
    let text := foldGap gap ++ run
    let c := c.past run.length
    if stopsWithin isCut 2 c.rest then none
    let next := c.passWhile isSpacing
    let gap := c.rest.takeWhile isSpacing
    if tabBefore least none gap then none
    if gap.isEmpty || (!inFlow && next.column < least) then return ⟨text, next, gap.any isBreak⟩
    let more ← readPlain isCut inFlow least gap limit next
    return { more with text := text ++ more.text }

end Yaml

end ColorPipeline
