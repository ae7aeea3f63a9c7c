-- YAML scalars as they are written. A text is written plain where it then reads
-- back as the same text, and in quotes or as a block otherwise.
import ColorPipeline.Number.Stored
import ColorPipeline.Yaml.Quoted

namespace ColorPipeline

namespace Yaml

/-- A character that is written as it is. -/
def isPrintable (c : Char) : Bool :=
  let n := c.toNat
  n == 0x0a || (0x20 ≤ n && n ≤ 0x7e) || (0xa0 ≤ n && n ≤ 0xfffd && n != 0xfeff) || 0x10000 ≤ n

/-! ## Plain texts that mean something else -/

/-- A natural number with the mark of a base other than ten. -/
def basedNumber : List Char → Option Nat
  | '0' :: 'x' :: ds => Reading.digits 16 ds
  | '0' :: 'o' :: ds => Reading.digits 8 ds
  | '0' :: 'b' :: ds => Reading.digits 2 ds
  | _ => none

/-- A text spells a whole number of 128 bits in a marked base. -/
def isBasedNumber (cs : List Char) : Bool :=
  match cs with
  | '-' :: rest => (basedNumber rest).any (· ≤ Nat.pow 2 127)
  | '+' :: rest => (basedNumber rest).any (· < Nat.pow 2 128)
  | _ => (basedNumber cs).any (· < Nat.pow 2 128)

/-- A text spells a finite decimal number. -/
def isDecimalNumber (cs : List Char) : Bool :=
  let finite (cs : List Char) : Bool := (Stored.read? (R := Float) cs).any Float.isFinite
  match cs with
  | '+' :: '+' :: _ => false
  | '+' :: '-' :: _ => false
  | _ => finite cs

/-- The words for nothing, truth values and numbers that are not finite. -/
def reservedWords : List String :=
  ["", "null", "Null", "NULL", "~", "true", "True", "TRUE", "false", "False", "FALSE",
    ".inf", ".Inf", ".INF", "+.inf", "+.Inf", "+.INF", "-.inf", "-.Inf", "-.INF",
    ".nan", ".NaN", ".NAN"]

/-- A text is digits after a zero, with a sign or without. -/
def isZeroLed (cs : List Char) : Bool :=
  match cs with
  | '-' :: rest => zeroFirst rest
  | '+' :: rest => zeroFirst rest
  | _ => zeroFirst cs
where
  zeroFirst : List Char → Bool
    | '0' :: c :: rest => (c :: rest).all Char.isDigit
    | _ => false

/-- A plain text would read back as something other than a text, or look as if it did. -/
def readsAsOther (s : String) : Bool :=
  reservedWords.contains s || isBasedNumber s.toList || isDecimalNumber s.toList ||
    isZeroLed s.toList

/-! ## Styles -/

/-- A text begins with something that is not the beginning of a plain text. -/
def startsWithIndicator : List Char → Bool
  | [] => false
  | '-' :: '-' :: '-' :: _ => true
  | '.' :: '.' :: '.' :: _ => true
  | c :: rest =>
    "#,[]\x7b\x7d&*!|>'\"%@`".toList.contains c || ("?:-".toList.contains c && spacingNext rest)

/-- A text holds a colon before spacing or a number sign after spacing. -/
def holdsIndicator (previous : Char) : List Char → Bool
  | [] => false
  | c :: rest =>
    (c == ':' && spacingNext rest) || (c == '#' && isSpacing previous) || holdsIndicator c rest

/-- A text can be written plain. -/
def plainAllowed (s : String) : Bool :=
  let cs := s.toList
  !readsAsOther s && cs.head? != some ' ' && cs.getLast? != some ' ' && cs.all isPrintable &&
    !cs.any isBreak && !startsWithIndicator cs && !holdsIndicator 'x' cs

/-- Somewhere in a text, `p` holds and right after it `q`. -/
def holdsPair (p q : Char → Bool) (cs : List Char) : Bool :=
  (cs.zip cs.tail).any fun (a, b) => p a && q b

/-- A text can be written as a block: no line of it ends in a space. -/
def blockAllowed (cs : List Char) : Bool :=
  cs.all isPrintable && cs.getLast? != some ' ' && !holdsPair (· == ' ') isBreak cs

/-- A text can be written in single quotes: no space is next to a line end. -/
def singleQuotedAllowed (cs : List Char) : Bool :=
  cs.all isPrintable && !holdsPair (· == ' ') isBreak cs && !holdsPair isBreak (· == ' ') cs

/-! ## Written forms -/

/-- The text with every line indented that is not empty, where `atStart` says that a
line begins. -/
def indentLines (atStart : Bool) : List Char → List Char
  | [] => []
  | c :: rest =>
    if isBreak c then c :: indentLines true rest
    else (if atStart then [' ', ' '] else []) ++ c :: indentLines false rest

/-- The text in single quotes, with a quote written twice. -/
def singleQuoted (cs : List Char) : List Char :=
  let body := indentLines false (cs.flatMap fun c => if c == '\'' then ['\'', '\''] else [c])
  let margin := if cs.getLast?.any isBreak then [' ', ' '] else []
  '\'' :: body ++ margin ++ ['\'']

/-- The digits of a character in base 16, in upper case. -/
def hexDigits (width n : Nat) : List Char :=
  let ds := (Nat.toDigits 16 n).map Char.toUpper
  List.replicate (width - ds.length) '0' ++ ds

/-- The escape of a character. -/
def escape (c : Char) : List Char :=
  let n := c.toNat
  '\\' :: match escapeLetters.lookup n with
    | some letter => [letter]
    | none =>
      if n ≤ 0xff then 'x' :: hexDigits 2 n
      else if n ≤ 0xffff then 'u' :: hexDigits 4 n
      else 'U' :: hexDigits 8 n

/-- The text in double quotes, with escapes where they are needed. -/
def doubleQuoted (cs : List Char) : List Char :=
  '"' :: cs.flatMap (fun c =>
    if !isPrintable c || isBreak c || c == '"' || c == '\\' then escape c else [c]) ++ ['"']

/-- The mark for the line ends at the end of a block: `-` for none, nothing for
one, and `+` for more. -/
def endMark (cs : List Char) : List Char :=
  match cs.reverse.takeWhile isBreak with
  | [] => ['-']
  | [_] => if cs.length == 1 then ['+'] else []
  | _ => ['+']

/-- The text as a block of lines. The indent is stated where the text begins
with spacing. -/
def literalBlock (cs : List Char) : List Char :=
  let indentMark := if cs.head?.any (fun c => c == ' ' || isBreak c) then ['2'] else []
  '|' :: indentMark ++ endMark cs ++ '\n' :: indentLines true cs

/-- A text as the value of a key. -/
def valueChars (s : String) : List Char :=
  let cs := s.toList
  if cs.contains '\n' then if blockAllowed cs then literalBlock cs else doubleQuoted cs
  else if plainAllowed s then cs
  else if singleQuotedAllowed cs then singleQuoted cs
  else doubleQuoted cs

/-- An entry of a mapping, up to the end of its last line. -/
def entryText (key value : String) : String :=
  let cs := valueChars value
  let ending := if cs.getLast?.any isBreak then [] else ['\n']
  s!"{key}: " ++ String.ofList (cs ++ ending)

end Yaml

end ColorPipeline
