-- Shader code as a tree of lines and blocks, and its text. A text grows line by
-- line at some depth. The depth changes only for the time that the body of an
-- indented part or a block is written, also where writing the body breaks off.
import ColorPipeline.Shader.Language

namespace ColorPipeline

/-! ## Text -/

/-- Shader text so far, and the depth at which it goes on. -/
structure ShaderText where
  language : ShaderLanguage
  depth : Nat := 0
  text : String := ""

namespace ShaderText

/-- What stands in front of a line for each level of depth. -/
def indent : String := "  "

/-- The text with one more line. An empty line has no indent. -/
def line (t : ShaderText) (content : String) : ShaderText :=
  let opening := if content.isEmpty then "" else String.join (List.replicate t.depth indent)
  { t with text := t.text ++ opening ++ content ++ "\n" }

/-- The text with a body one level deeper, and what the body returns. -/
def indented {α : Type} (t : ShaderText) (body : ShaderText → α × ShaderText) : α × ShaderText :=
  let (a, inner) := body { t with depth := t.depth + 1 }
  (a, { inner with depth := inner.depth - 1 })

/-- The text with a body in braces one level deeper, and what the body returns. -/
def braced {α : Type} (t : ShaderText) (body : ShaderText → α × ShaderText) : α × ShaderText :=
  let (a, inner) := (t.line "\x7b").indented body
  (a, inner.line "\x7d")

/-- The text with the declaration of a texture. -/
def declare (t : ShaderText) (dim : TextureDim) (name : String) : ShaderText :=
  (t.language.declaration dim name).foldl line t

end ShaderText

/-! ## Code -/

/-- Shader code. -/
inductive Code where
  | nothing
  | line (content : String)
  | both (first second : Code)
  /-- Code one level deeper. -/
  | indented (body : Code)
  /-- Code in braces, one level deeper. -/
  | block (body : Code)

namespace Code

instance : Append Code := ⟨both⟩

instance : Coe String Code := ⟨line⟩

/-- Code one part after the other. -/
def ofList : List Code → Code
  | [] => nothing
  | part :: rest => part ++ ofList rest

/-- A comment between empty lines. -/
def title (comment : String) : Code := ofList [line "", line s!"// {comment}", line ""]

/-- The text with code written at its end. -/
def write : Code → ShaderText → ShaderText
  | nothing, t => t
  | line content, t => t.line content
  | both first second, t => second.write (first.write t)
  | indented body, t => (t.indented fun inner => ((), body.write inner)).2
  | block body, t => (t.braced fun inner => ((), body.write inner)).2

/-- The text of code at the left margin. -/
def text (c : Code) (language : ShaderLanguage) : String :=
  (c.write { language }).text

/-- Code leaves the depth of the text as it was. -/
@[simp] theorem depth_write (c : Code) (t : ShaderText) : (c.write t).depth = t.depth := by
  induction c generalizing t with
  | nothing => rfl
  | line content => rfl
  | both first second ih₁ ih₂ => simp [write, ih₁, ih₂]
  | indented body ih => simp [write, ShaderText.indented, ih]
  | block body ih => simp [write, ShaderText.braced, ShaderText.indented, ShaderText.line, ih]

end Code

end ColorPipeline
