-- YAML documents that are a mapping. Collections inside it are passed over. Entries
-- are read in order, so that a fault in the text is only met after the entries before it.
import ColorPipeline.Yaml.Anchors
import ColorPipeline.Yaml.Parts

namespace ColorPipeline

namespace Yaml

structure Entry where
  key : Value
  value : Value
deriving DecidableEq

/-- The entries up to the end or to a fault in the text. -/
structure Mapping where
  entries : List Entry
  isComplete : Bool

namespace Mapping

def fault : Mapping := ⟨[], false⟩

/-- The mapping with an entry before the others. -/
def cons (e : Entry) (m : Mapping) : Mapping := { m with entries := e :: m.entries }

end Mapping

/-- The events after the end of `depth` collections. -/
def skipNested (depth : Nat) : List (Event Nat) → Option (List (Event Nat))
  | [] => none
  | .reference _ :: rest => skipNested depth rest
  | .scalar _ _ :: rest => skipNested depth rest
  | .start _ _ :: rest => skipNested (depth + 1) rest
  | .stop :: rest => if depth ≤ 1 then some rest else skipNested (depth - 1) rest

/-- A node that is an entry's key or value, and the events after it. -/
def readNode (nodes : Nodes) : List (Event Nat) → Option (Value × List (Event Nat))
  | .reference number :: rest => (nodes.lookup number).map fun v => (v, rest)
  | .scalar _ s :: rest => some (.scalar s, rest)
  | .start _ _ :: rest => (skipNested 1 rest).map fun rest => (.collection, rest)
  | _ => none

/-- At most `limit` entries of a mapping that has begun. -/
def readEntries (nodes : Nodes) : Nat → List (Event Nat) → Mapping
  | 0, _ => .fault
  | _, [.stop] => ⟨[], true⟩
  | limit + 1, events =>
    match readNode nodes events with
    | none => .fault
    | some (key, events) =>
      match readNode nodes events with
      | none => .fault
      | some (value, events) => (readEntries nodes limit events).cons ⟨key, value⟩

/-- The mapping that a document's events are. Nothing at all is a mapping without entries. -/
def mappingOf (nodes : Nodes) : List (Event Nat) → Mapping
  | [] => ⟨[], true⟩
  | [.scalar _ s] => ⟨[], s.isPlain && s.text.isEmpty⟩
  | .start _ true :: rest => readEntries nodes (rest.length + 1) rest
  | _ => .fault

/-- The mapping in a document. A document without content is a mapping without entries. -/
def readMapping (text : String) : Mapping :=
  let (text, isReadable) := readable text.toList
  let (events, isWhole) := events (tokens (!isReadable) (unifyLineEnds text))
  let (events, nodes, isLinked) := Anchors.numbered {} events
  let m := mappingOf nodes events
  { m with isComplete := m.isComplete && isWhole && isLinked }

end Yaml

end ColorPipeline
