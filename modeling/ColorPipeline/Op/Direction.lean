-- The direction in which a step runs.

namespace ColorPipeline

inductive Direction where
  | forward
  | inverse
deriving DecidableEq, Inhabited

namespace Direction

/-- The opposite direction. -/
def flip : Direction → Direction
  | forward => inverse
  | inverse => forward

/-- The direction in which a step marked `step` runs inside a pass in direction
`outer`: forward when they agree. -/
def within (step outer : Direction) : Direction := if step = outer then forward else inverse

def name : Direction → String
  | forward => "forward"
  | inverse => "inverse"

@[simp] theorem flip_flip (d : Direction) : d.flip.flip = d := by cases d <;> rfl

@[simp] theorem forward_within (d : Direction) : forward.within d = d := by cases d <;> rfl

@[simp] theorem within_forward (d : Direction) : d.within forward = d := by cases d <;> rfl

theorem within_comm (d e : Direction) : d.within e = e.within d := by
  cases d <;> cases e <;> rfl

theorem within_assoc (c d e : Direction) : (c.within d).within e = c.within (d.within e) := by
  cases c <;> cases d <;> cases e <;> rfl

theorem within_flip (d e : Direction) : d.within e.flip = (d.within e).flip := by
  cases d <;> cases e <;> rfl

theorem flip_within (d e : Direction) : d.flip.within e = (d.within e).flip := by
  cases d <;> cases e <;> rfl

end Direction

end ColorPipeline
