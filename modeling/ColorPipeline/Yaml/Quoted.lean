-- Texts in quotes. Between single quotes a quote is written twice; between double
-- quotes a backslash begins an escape.
import ColorPipeline.Number.Reading
import ColorPipeline.Yaml.Cursor

namespace ColorPipeline

namespace Yaml

/-- The letters of the escapes that have one. -/
def escapeLetters : List (Nat × Char) :=
  [(0x00, '0'), (0x07, 'a'), (0x08, 'b'), (0x09, 't'), (0x0a, 'n'), (0x0b, 'v'), (0x0c, 'f'),
    (0x0d, 'r'), (0x1b, 'e'), (0x22, '"'), (0x5c, '\\'), (0x85, 'N'), (0xa0, '_'),
    (0x2028, 'L'), (0x2029, 'P')]

/-- The character of an escape of one letter. -/
def escapedLetter (letter : Char) : Option Char :=
  match letter with
  | ' ' => some ' '
  | '\t' => some '\t'
  | '/' => some '/'
  | _ => (escapeLetters.find? fun (_, l) => l == letter).map fun (n, _) => Char.ofNat n

/-- The character whose number the next `width` digits give. -/
def escapedCode (width : Nat) (cs : List Char) : Option Char :=
  let ds := cs.take width
  if ds.length < width then none
  else
    (Reading.digits 16 ds).bind fun n => if n.isValidChar then some (Char.ofNat n) else none

/-- An escape after its backslash: the character, and how long the escape is. -/
def readEscape : List Char → Option (Char × Nat)
  | 'x' :: rest => (escapedCode 2 rest).map fun c => (c, 3)
  | 'u' :: rest => (escapedCode 4 rest).map fun c => (c, 5)
  | 'U' :: rest => (escapedCode 8 rest).map fun c => (c, 9)
  | c :: _ => (escapedLetter c).map fun e => (e, 1)
  | [] => none

/-- After spacing a text in quotes can go on: no line there looks like the beginning or
the end of a document, as four characters show. -/
def quotedGoesOn (isCut : Bool) (c : Cursor) : Bool :=
  !stopsWithin isCut 4 c.rest && !c.atDocumentMark

/-- A text up to its closing quote, in at most `limit` steps, and the place after
it. What comes next shows in two characters. -/
def readQuoted (isCut : Bool) (quote : Char) : Nat → Cursor → Option (List Char × Cursor)
  | 0, _ => none
  | limit + 1, c =>
    match c.rest with
    | [] => none
    | x :: rest =>
      if stopsWithin isCut 2 c.rest then none
      else if isSpacing x then
        let next := c.passWhile isSpacing
        if !quotedGoesOn isCut next then none
        else
          (readQuoted isCut quote limit next).map fun (text, last) =>
            (foldGap (c.rest.takeWhile isSpacing) ++ text, last)
      else if x == quote then
        if quote == '\'' && rest.head? == some quote then
          (readQuoted isCut quote limit (c.past 2)).map fun (text, last) => (quote :: text, last)
        else some ([], c.past 1)
      else if quote == '"' && x == '\\' then
        if rest.head?.any isBreak then
          let next := (c.past 1).passWhile isSpacing
          if !quotedGoesOn isCut next then none
          else
            (readQuoted isCut quote limit next).map fun (text, last) =>
              (((rest.takeWhile isSpacing).drop 1).filter isBreak ++ text, last)
        else
          (readEscape rest).bind fun (e, width) =>
            (readQuoted isCut quote limit (c.past (1 + width))).map fun (text, last) =>
              (e :: text, last)
      else
        (readQuoted isCut quote limit (c.past 1)).map fun (text, last) => (x :: text, last)

end Yaml

end ColorPipeline
