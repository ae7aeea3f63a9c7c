-- The nodes of a document as events: a scalar or a reference is one event, and a
-- collection begins and stops. The events come in the order of the document, so
-- that those before a fault are known.
import ColorPipeline.Yaml.Token

namespace ColorPipeline

namespace Yaml

/-- A text with what the document says about it. -/
structure Scalar where
  text : String
  isPlain : Bool
  tag : Option (List UInt8)
deriving DecidableEq

/-- The name of a node. -/
abbrev Name := List Char

/-- An event, where `Ref` is what a reference gives of the node that it is to. -/
inductive Event (Ref : Type) where
  | reference (ref : Ref)
  | scalar (anchor : Option Name) (s : Scalar)
  | start (anchor : Option Name) (isMapping : Bool)
  | stop

/-- What stands for a node that is left out. -/
def Event.empty {Ref : Type} : Event Ref := .scalar none ⟨"", true, none⟩

/-! ## Properties -/

/-- The texts that handles stand for. -/
abbrev Handles := List (List Char × List UInt8)

/-- The handles that need no directive. -/
def commonHandles : Handles :=
  [(['!'], octetsOf ['!']), (['!', '!'], octetsOf "tag:yaml.org,2002:".toList)]

/-- A tag with the text of its handle in front. The empty handle stands for nothing. -/
def Tag.resolve (t : Tag) (handles : Handles) : Option (List UInt8) :=
  if t.handle.isEmpty then some t.ending else (handles.lookup t.handle).map (· ++ t.ending)

/-- What stands in front of a node. -/
structure Properties where
  anchor : Option Name := none
  tag : Option (List UInt8) := none

/-- An anchor and a tag, in either order, and the tokens after them. -/
def readProperties (handles : Handles) : List Token → Option (Properties × List Token)
  | .anchor a :: .tag t :: rest =>
    (t.resolve handles).map fun tag => ({ anchor := some a, tag := some tag }, rest)
  | .tag t :: .anchor a :: rest =>
    (t.resolve handles).map fun tag => ({ anchor := some a, tag := some tag }, rest)
  | .anchor a :: rest => some ({ anchor := some a }, rest)
  | .tag t :: rest => (t.resolve handles).map fun tag => ({ tag := some tag }, rest)
  | rest => some ({}, rest)

/-! ## Steps -/

/-- What comes next inside the collections that are open. -/
inductive Expect where
  /-- A node. Outside brackets it may be a collection of lines, and where it `mayBeFlat`,
  a sequence whose items stand below its key. -/
  | node (inBlock mayBeFlat : Bool)
  | blockItem
  | flatItem
  | blockKey
  | blockValue
  | flowItem (isFirst : Bool)
  | flowKey (isFirst : Bool)
  | flowValue
  /-- The value of an entry without a colon. -/
  | flowNoValue
  /-- The one entry of a mapping that is an item in brackets: its key, its value, its end. -/
  | pairKey
  | pairValue
  | pairEnd

/-- An event, what comes after it, and the tokens left. -/
abbrev Step := Event Name × List Expect × List Token

namespace Token

/-- Tokens at which an item left out ends, outside brackets. -/
def endsItem : Token → Bool
  | item | blockEnd => true
  | _ => false

/-- Tokens at which a key or a value left out ends, outside brackets. -/
def endsEntry : Token → Bool
  | key | value | blockEnd => true
  | _ => false

/-- Tokens at which a value left out ends, in brackets. -/
def endsFlowValue : Token → Bool
  | comma | flowSequenceEnd | flowMappingEnd => true
  | _ => false

def isValue : Token → Bool
  | value => true
  | _ => false

def isDocumentEnd : Token → Bool
  | documentEnd => true
  | _ => false

/-- Tokens at which a document without content ends. -/
def endsDocument : Token → Bool
  | directive _ | documentStart | documentEnd | streamEnd => true
  | _ => false

end Token

/-- The events of a node, of which this gives the first. -/
def nodeStep (handles : Handles) (inBlock mayBeFlat : Bool) (after : List Expect) :
    List Token → Option Step
  | .reference name :: rest => some (.reference name, after, rest)
  | tokens => do
    let (p, tokens) ← readProperties handles tokens
    let begins (isMapping : Bool) (e : Expect) (rest : List Token) : Option Step :=
      some (.start p.anchor isMapping, e :: after, rest)
    match tokens with
    | [] => none
    | .item :: _ => if mayBeFlat then begins false .flatItem tokens else left p tokens
    | .scalar text isPlain :: rest =>
      return (.scalar p.anchor ⟨String.ofList text, isPlain, p.tag⟩, after, rest)
    | .flowSequence :: rest => begins false (.flowItem true) rest
    | .flowMapping :: rest => begins true (.flowKey true) rest
    | .blockSequence :: rest => if inBlock then begins false .blockItem rest else left p tokens
    | .blockMapping :: rest => if inBlock then begins true .blockKey rest else left p tokens
    | _ => left p tokens
where
  /-- A node left out, which is possible after properties. -/
  left (p : Properties) (tokens : List Token) : Option Step :=
    if p.anchor.isSome || p.tag.isSome then some (.scalar p.anchor ⟨"", true, p.tag⟩, after, tokens)
    else none

/-- A node, unless it is left out: then a token at which it `ends` is next. -/
def nodeOrEmpty (handles : Handles) (inBlock mayBeFlat : Bool) (after : List Expect)
    (ends : Token → Bool) (tokens : List Token) : Option Step :=
  if tokens.head?.any ends then some (.empty, after, tokens)
  else nodeStep handles inBlock mayBeFlat after tokens

/-- The tokens from the next entry in brackets on, after its comma if it is not the first. -/
def atEntry (isFirst : Bool) (closes : Token → Bool) (tokens : List Token) : Option (List Token) :=
  if isFirst || tokens.head?.any closes then some tokens
  else
    match tokens with
    | .comma :: rest => some rest
    | _ => none

/-- The next event where `e` comes next, and then `es`. -/
def step (handles : Handles) (e : Expect) (es : List Expect) (tokens : List Token) : Option Step :=
  let node (inBlock mayBeFlat : Bool) (e : Expect) := nodeOrEmpty handles inBlock mayBeFlat (e :: es)
  match e, tokens with
  | .node inBlock mayBeFlat, _ => nodeStep handles inBlock mayBeFlat es tokens
  | .pairEnd, _ => some (.stop, es, tokens)
  | _, [] => none
  | .blockItem, .item :: rest => node true false .blockItem Token.endsItem rest
  | .blockItem, .blockEnd :: rest => some (.stop, es, rest)
  | .blockItem, _ => none
  | .flatItem, .item :: rest =>
    node true false .flatItem (fun t => t.endsItem || t.endsEntry) rest
  | .flatItem, _ => some (.stop, es, tokens)
  | .blockKey, .key :: rest => node true true .blockValue Token.endsEntry rest
  | .blockKey, .blockEnd :: rest => some (.stop, es, rest)
  | .blockKey, _ => none
  | .blockValue, .value :: rest => node true true .blockKey Token.endsEntry rest
  | .blockValue, _ => some (.empty, .blockKey :: es, tokens)
  | .flowItem isFirst, _ =>
    (atEntry isFirst (fun t => t matches .flowSequenceEnd) tokens).bind fun
      | .flowSequenceEnd :: rest => some (.stop, es, rest)
      | .key :: rest => some (.start none true, .pairKey :: .flowItem false :: es, rest)
      | entry => nodeStep handles false false (.flowItem false :: es) entry
  | .pairKey, t :: rest =>
    if t matches .value | .comma | .flowSequenceEnd then some (.empty, .pairValue :: es, rest)
    else nodeStep handles false false (.pairValue :: es) tokens
  | .pairValue, .value :: rest =>
    node false false .pairEnd (fun t => t matches .comma | .flowSequenceEnd) rest
  | .pairValue, _ => some (.empty, .pairEnd :: es, tokens)
  | .flowKey isFirst, _ =>
    (atEntry isFirst (fun t => t matches .flowMappingEnd) tokens).bind fun
      | .flowMappingEnd :: rest => some (.stop, es, rest)
      | .key :: rest =>
        node false false .flowValue (fun t => t matches .value | .comma | .flowMappingEnd) rest
      | entry => nodeStep handles false false (.flowNoValue :: es) entry
  | .flowValue, .value :: rest =>
    node false false (.flowKey false) (fun t => t matches .comma | .flowMappingEnd) rest
  | .flowValue, _ => some (.empty, .flowKey false :: es, tokens)
  | .flowNoValue, _ => some (.empty, .flowKey false :: es, tokens)

/-- At most `limit` events of what comes next, and the tokens after all of it unless
there is a fault. -/
def eventsFrom (handles : Handles) :
    Nat → List Expect → List Token → List (Event Name) × Option (List Token)
  | _, [], tokens => ([], some tokens)
  | 0, _, _ => ([], none)
  | limit + 1, e :: es, tokens =>
    match step handles e es tokens with
    | none => ([], none)
    | some (event, next, rest) =>
      let (events, left) := eventsFrom handles limit next rest
      (event :: events, left)

/-! ## Documents -/

/-- The handles that directives set, and the tokens after the directives. A version
and a handle are set once; versions 1.1 and 1.2 are known. -/
def readDirectives (hasVersion : Bool) (handles : Handles) :
    List Token → Option (Handles × List Token)
  | .directive (.version major minor) :: rest =>
    if hasVersion || major != 1 || (minor != 1 && minor != 2) then none
    else readDirectives true handles rest
  | .directive (.handle handle text) :: rest =>
    if (handles.lookup handle).isSome then none
    else readDirectives hasVersion ((handle, text) :: handles) rest
  | rest => some (handles ++ commonHandles, rest)

/-- The content of a document: its events, and the tokens after it. -/
def documentEvents (handles : Handles) (tokens : List Token) :
    List (Event Name) × Option (List Token) :=
  eventsFrom handles (4 * tokens.length + 4) [.node true false] tokens

/-- The events of the only document, and that nothing but its end follows. There are
none without a document. -/
def events (tokens : List Token) : List (Event Name) × Bool :=
  match tokens with
  | [.streamEnd] => ([], true)
  | t :: _ =>
    let (found, left) :=
      if t matches .directive _ | .documentStart then
        match readDirectives false [] tokens with
        | some (handles, .documentStart :: rest) =>
          if rest.head?.any Token.endsDocument then ([Event.empty], some rest)
          else documentEvents handles rest
        | _ => ([], none)
      else documentEvents commonHandles tokens
    (found, left.any fun rest => rest.dropWhile Token.isDocumentEnd matches [.streamEnd])
  | [] => ([], false)

end Yaml

end ColorPipeline
