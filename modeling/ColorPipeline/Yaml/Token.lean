-- The tokens of a document, in the order in which they mean something: that a
-- text is a key shows only at the colon behind it, and then the key and the
-- mapping that it opens are marked in front of it.
import ColorPipeline.Yaml.Block
import ColorPipeline.Yaml.Plain
import ColorPipeline.Yaml.Quoted
import ColorPipeline.Yaml.Tag

namespace ColorPipeline

namespace Yaml

inductive Token where
  | directive (d : Directive)
  | documentStart
  | documentEnd
  | streamEnd
  | blockSequence
  | blockMapping
  | blockEnd
  | flowSequence
  | flowSequenceEnd
  | flowMapping
  | flowMappingEnd
  /-- The dash of an item. -/
  | item
  /-- The comma between entries in brackets. -/
  | comma
  | key
  | value
  | reference (name : List Char)
  | anchor (name : List Char)
  | tag (t : Tag)
  | scalar (text : List Char) (isPlain : Bool)

/-- A place where a key may have begun: how many tokens are in front of it, and how
many brackets are open there. A key is required where the column is that of a collection. -/
structure KeyPlace extends Place where
  position : Nat
  depth : Nat
  isRequired : Bool

/-- A document up to a place in it. -/
structure Scan where
  cursor : Cursor
  /-- The text stops before the document ends. -/
  isCut : Bool
  /-- The tokens so far, the last one first, and how many there are. -/
  tokens : List Token := []
  count : Nat := 0
  /-- The columns of the open collections outside brackets, innermost first. -/
  columns : List Nat := []
  /-- How many brackets are open. -/
  depth : Nat := 0
  /-- Where keys may have begun that can still go on, the last one first: one at most
  at each depth. -/
  keys : List KeyPlace := []
  /-- A key may begin here. -/
  keyAllowed : Bool := true
  isDone : Bool := false

namespace Scan

def inFlow (s : Scan) : Bool := s.depth != 0

/-- The first column to the right of the innermost collection. -/
def leastColumn (s : Scan) : Nat := (s.columns.head?.map (· + 1)).getD 0

/-- The scan with a token that has `position` tokens in front of it. -/
def insert (s : Scan) (position : Nat) (t : Token) : Scan :=
  let (after, before) := s.tokens.splitAt (s.count - position)
  { s with tokens := after ++ t :: before, count := s.count + 1 }

def push (s : Scan) (t : Token) : Scan := { s with tokens := t :: s.tokens, count := s.count + 1 }

/-- The scan with a token of so many characters added. -/
def pushChars (s : Scan) (width : Nat) (t : Token) : Scan :=
  { s.push t with cursor := s.cursor.past width }

/-! ## Collections -/

/-- Collections from a column on end. Brackets have to be closed first. -/
def closeFrom (s : Scan) (least : Nat) : Scan :=
  if s.inFlow then s
  else
    let closed := s.columns.takeWhile (least ≤ ·)
    closed.foldl (fun s _ => s.push .blockEnd) { s with columns := s.columns.drop closed.length }

/-- A collection at a column begins in front of the token at `position`, unless
one has begun there already. -/
def openBlock (s : Scan) (column position : Nat) (t : Token) : Scan :=
  if s.inFlow || s.columns.head?.any (column ≤ ·) then s
  else { s.insert position t with columns := column :: s.columns }

/-! ## Keys -/

/-- The longest key, in octets. -/
def longestKey : Nat := 1024

/-- A key that began at `k` cannot go on up to here: keys stand on one line. -/
def isPast (s : Scan) (k : KeyPlace) : Bool :=
  k.line < s.cursor.line || k.octets + longestKey < s.cursor.octets

/-- The places of keys that can still go on. A required key that cannot is a fault. -/
def dropPast (s : Scan) : Option Scan :=
  let (past, keys) := s.keys.partition s.isPast
  if past.any KeyPlace.isRequired then none else some { s with keys }

/-- Where a key may have begun inside the innermost brackets, or outside all. -/
def key? (s : Scan) : Option KeyPlace := s.keys.head?.filter fun k => k.depth == s.depth

/-- No key began inside the innermost brackets. -/
def noKey (s : Scan) : Option Scan :=
  match s.key? with
  | none => some s
  | some k => if k.isRequired then none else some { s with keys := s.keys.drop 1 }

/-- A key may begin at the next token. -/
def mayBeKey (s : Scan) : Option Scan :=
  if !s.keyAllowed then some s
  else
    s.noKey.map fun s =>
      let k : KeyPlace :=
        { s.cursor.toPlace with
          position := s.count
          depth := s.depth
          isRequired := !s.inFlow && s.columns.head? == some s.cursor.column }
      { s with keys := k :: s.keys }

/-! ## Steps -/

/-- Spacing and comments, the end of which is the next token. On a new line outside
brackets a key may begin, and then only spaces may be in front of it. -/
def passFrom (inFlow : Bool) (keyAllowed inComment : Bool) (place : Place) :
    List Char → Bool × Cursor
  | [] => (keyAllowed, ⟨place, []⟩)
  | c :: rest =>
    if isBreak c then passFrom inFlow (keyAllowed || !inFlow) false (place.after c) rest
    else if inComment || c == ' ' || (c == '\t' && (inFlow || !keyAllowed)) ||
        (c == '\uFEFF' && place.column == 0) then
      passFrom inFlow keyAllowed inComment (place.after c) rest
    else if c == '#' then passFrom inFlow keyAllowed true (place.after c) rest
    else (keyAllowed, ⟨place, c :: rest⟩)

/-- The scan at its next token. -/
def passSpacing (s : Scan) : Scan :=
  let (keyAllowed, cursor) := passFrom s.inFlow s.keyAllowed false s.cursor.toPlace s.cursor.rest
  { s with keyAllowed, cursor }

/-- The end of all collections outside brackets, where no key can go on. -/
def closeAll (s : Scan) : Option Scan :=
  (s.closeFrom 0).noKey.map fun s => { s with keyAllowed := false }

def finish (s : Scan) : Option Scan :=
  s.closeAll.map fun s => { s.push .streamEnd with isDone := true }

def documentMark (s : Scan) (t : Token) : Option Scan := s.closeAll.map (·.pushChars 3 t)

def directive (s : Scan) : Option Scan := do
  let s ← s.closeAll
  let (d, rest) ← readDirective (s.cursor.rest.drop 1)
  let cursor ← (s.cursor.past (s.cursor.rest.length - rest.length)).nextLine?
  return { s.push (.directive d) with cursor }

def openBracket (s : Scan) (t : Token) : Option Scan :=
  s.mayBeKey.map fun s => { s.pushChars 1 t with depth := s.depth + 1, keyAllowed := true }

def closeBracket (s : Scan) (t : Token) : Option Scan :=
  s.noKey.map fun s => { s.pushChars 1 t with depth := s.depth - 1, keyAllowed := false }

def comma (s : Scan) : Option Scan :=
  s.noKey.map fun s => { s.pushChars 1 .comma with keyAllowed := true }

def item (s : Scan) : Option Scan :=
  if !s.inFlow && !s.keyAllowed then none
  else
    (s.openBlock s.cursor.column s.count .blockSequence).noKey.map fun s =>
      { s.pushChars 1 .item with keyAllowed := true }

/-- A key after its question mark. -/
def markedKey (s : Scan) : Option Scan :=
  if !s.inFlow && !s.keyAllowed then none
  else
    (s.openBlock s.cursor.column s.count .blockMapping).noKey.map fun s =>
      { s.pushChars 1 .key with keyAllowed := !s.inFlow }

/-- A colon. What began where a key may begin is a key then. -/
def value (s : Scan) : Option Scan :=
  match s.key? with
  | some k =>
    let s := { s.insert k.position .key with keys := s.keys.drop 1 }
    some { (s.openBlock k.column k.position .blockMapping).pushChars 1 .value with
      keyAllowed := false }
  | none =>
    if !s.inFlow && !s.keyAllowed then none
    else
      let s := s.openBlock s.cursor.column s.count .blockMapping
      some { s.pushChars 1 .value with keyAllowed := !s.inFlow }

/-- The name of an anchor, or of a reference to one. -/
def named (s : Scan) (t : List Char → Token) : Option Scan := do
  let s ← s.mayBeKey
  let name ← readAnchor (s.cursor.rest.drop 1)
  return { s.pushChars (1 + name.length) (t name) with keyAllowed := false }

def tag (s : Scan) : Option Scan := do
  let s ← s.mayBeKey
  let (t, rest) ← readTag s.inFlow s.cursor.rest
  return { s.pushChars (s.cursor.rest.length - rest.length) (.tag t) with keyAllowed := false }

def block (s : Scan) (isFolded : Bool) : Option Scan := do
  let s ← s.noKey
  let (text, cursor) ← readBlock isFolded s.columns.head? (s.cursor.past 1)
  return { s.push (.scalar text false) with cursor, keyAllowed := true }

def quoted (s : Scan) (quote : Char) : Option Scan := do
  let s ← s.mayBeKey
  let c := s.cursor.past 1
  if stopsWithin s.isCut 4 c.rest then none
  let (text, cursor) ← readQuoted s.isCut quote (c.rest.length + 1) c
  return { s.push (.scalar text false) with cursor, keyAllowed := false }

def plain (s : Scan) : Option Scan := do
  let s ← s.mayBeKey
  let found ← readPlain s.isCut s.inFlow s.leastColumn [] (s.cursor.rest.length + 1) s.cursor
  return { s.push (.scalar found.text true) with cursor := found.cursor, keyAllowed := found.endsLine }

/-- The scan after its next token that begins with `c`. -/
def token (s : Scan) (c : Char) (rest : List Char) : Option Scan :=
  let alone := s.inFlow || spacingNext rest
  match c with
  | '[' => s.openBracket .flowSequence
  | '\x7b' => s.openBracket .flowMapping
  | ']' => s.closeBracket .flowSequenceEnd
  | '\x7d' => s.closeBracket .flowMappingEnd
  | ',' => s.comma
  | '*' => s.named .reference
  | '&' => s.named .anchor
  | '!' => s.tag
  | '\'' => s.quoted c
  | '"' => s.quoted c
  | _ =>
    if c == '-' && spacingNext rest then s.item
    else if c == '?' && alone then s.markedKey
    else if c == ':' && alone then s.value
    else if c == '|' && !s.inFlow then s.block false
    else if c == '>' && !s.inFlow then s.block true
    else if startsPlain s.inFlow c rest then s.plain
    else none

/-- The scan with its next token, and the collections that end before it. What
token it is shows in four characters, and where it ends in the one after it. -/
def next (s : Scan) : Option Scan := do
  let s ← s.passSpacing.dropPast
  if stopsWithin s.isCut 4 s.cursor.rest then none
  let s := s.closeFrom (s.cursor.column + 1)
  let s ← match s.cursor.rest with
    | [] => s.finish
    | c :: rest =>
      if s.cursor.column == 0 && c == '%' then s.directive
      else if s.cursor.atMarker '-' then s.documentMark .documentStart
      else if s.cursor.atMarker '.' then s.documentMark .documentEnd
      else s.token c rest
  if stopsWithin s.isCut 1 s.cursor.rest then none
  s.dropPast

/-- The tokens in front of which no key can appear any more. -/
def settled (s : Scan) : List Token :=
  s.tokens.reverse.take ((s.keys.map KeyPlace.position).foldl min s.count)

/-- The tokens that at most `limit` further steps find. Those before a fault are
the ones that are settled there. -/
def tokensFrom : Nat → Scan → List Token
  | 0, s => s.settled
  | limit + 1, s =>
    if s.isDone then s.tokens.reverse
    else
      match s.next with
      | none => s.settled
      | some next => tokensFrom limit next

end Scan

/-- The tokens of a document up to its end or to a fault in it. Where `isCut`, the
text is only the beginning of the document. -/
def tokens (isCut : Bool) (cs : List Char) : List Token :=
  Scan.tokensFrom (cs.length + 2) { cursor := .start cs, isCut }

end Yaml

end ColorPipeline
