-- The nodes that references are to. Nodes with names are kept under numbers, and a
-- reference is to the node that is kept under its number in the end.
import ColorPipeline.Yaml.Event

namespace ColorPipeline

namespace Yaml

/-- A node: a key or a value. -/
inductive Value where
  | scalar (s : Scalar)
  | collection
deriving DecidableEq

/-- The nodes under their numbers, the last ones first. -/
abbrev Nodes := List (Nat × Value)

/-- The names that are known, each with the number of its last node, and the nodes. -/
structure Anchors where
  numbers : List (Name × Nat) := []
  nodes : Nodes := []

namespace Anchors

/-- The anchors with one more node. Its number is how many names are known, so that
nodes share a number where a name is given again: the last of them is kept. -/
def add (anchors : Anchors) (anchor : Option Name) (v : Value) : Anchors :=
  match anchor with
  | none => anchors
  | some name =>
    let number := anchors.numbers.length
    { numbers := (name, number) :: anchors.numbers.filter fun (other, _) => other != name
      nodes := (number, v) :: anchors.nodes }

/-- Events with the numbers of the nodes that references are to, and all nodes. The
events end at a reference to a name that is not known there, and the last part says
whether there is none. -/
def numbered (anchors : Anchors) : List (Event Name) → List (Event Nat) × Nodes × Bool
  | [] => ([], anchors.nodes, true)
  | .reference name :: rest =>
    match anchors.numbers.lookup name with
    | none => ([], anchors.nodes, false)
    | some number => (numbered anchors rest).map (.reference number :: ·) id
  | .scalar anchor s :: rest =>
    (numbered (anchors.add anchor (.scalar s)) rest).map (.scalar anchor s :: ·) id
  | .start anchor isMapping :: rest =>
    (numbered (anchors.add anchor .collection) rest).map (.start anchor isMapping :: ·) id
  | .stop :: rest => (numbered anchors rest).map (.stop :: ·) id

end Anchors

end Yaml

end ColorPipeline
