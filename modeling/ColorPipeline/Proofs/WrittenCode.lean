-- Shader code written out: the declaration of a texture, the helper function of a curve and the
-- lookups of tables, down to the statements that are evaluated.
import ColorPipeline.Shader.Emission
import Mathlib

namespace ColorPipeline

/-! ## Declarations -/

namespace ShaderText

/-- A line at the left margin. -/
theorem text_line {t : ShaderText} (h : t.depth = 0) (content : String) :
    (t.line content).text = t.text ++ content ++ "\n" := by
  unfold line
  rw [h]
  simp [String.join_nil]

/-- A texture is declared with its type, and with a sampler where the language has those. -/
theorem text_declare (l : ShaderLanguage) (dim : TextureDim) (name : String) :
    (({ language := l } : ShaderText).declare dim name).text =
      s!"{l.textureType dim} {name};" ++ "\n" ++
        if l.isGlsl then "" else s!"SamplerState {name}Sampler;" ++ "\n" := by
  unfold declare ShaderLanguage.declaration
  dsimp only
  split
  · simp only [List.foldl_cons, List.foldl_nil]
    rw [text_line rfl, String.append_empty, String.empty_append]
  · simp only [List.foldl_cons, List.foldl_nil]
    rw [text_line rfl, text_line rfl, String.empty_append, String.append_assoc]

end ShaderText

/-! ## Statements -/

variable {P : Type} [Scalar P] [Stored P]

theorem Statement.isEmpty_text (l : ShaderLanguage) (st : Statement P) :
    (st.text l).isEmpty = false := by
  cases st <;> simp [text, toString]

/-- Statements in a block are written one to a line. -/
theorem Statement.text_write_code (l : ShaderLanguage) (statements : List (Statement P))
    {t : ShaderText} (h : t.depth = 1) :
    ((code l statements).write t).text =
      t.text ++ String.join (statements.map fun st => "  " ++ st.text l ++ "\n") := by
  induction statements generalizing t with
  | nil => simp [code, Code.ofList, Code.write]
  | cons st statements ih =>
    have hline : (t.line (st.text l)).text = t.text ++ ("  " ++ st.text l ++ "\n") := by
      unfold ShaderText.line
      rw [h]
      simp [isEmpty_text, ShaderText.indent, String.append_assoc]
    have hwrite : (code l (st :: statements)).write t =
        (code l statements).write (t.line (st.text l)) := rfl
    have hrest := @ih (t.line (st.text l)) h
    rw [hwrite, hrest, hline, List.map_cons, String.join_cons, String.append_assoc]

/-! ## Curves -/

namespace CurveTexture

theorem lookup_eq (l : ShaderLanguage) (texture pixel : String) :
    lookup P l texture pixel = Code.title s!"Add LUT 1D processing for {texture}" ++
      Code.ofList [Statement.code l (lookupStatements (P := P) texture pixel)] := rfl

/-- The helper function of a texture, with its name written out. -/
theorem helper_eq (t : CurveTexture) (l : ShaderLanguage) (texture : String) :
    t.helper (P := P) l texture = Code.ofList ["",
      .line s!"{l.typeName .float2} {texture}_computePos(float f)",
      .block (Statement.code l (t.positionStatements (P := P)))] := by
  have hname : Formula.curvePositionName texture ++ "(float f)" =
      texture ++ "_computePos(float f)" := by
    unfold Formula.curvePositionName
    simp only [toString, String.append_assoc]
    rfl
  unfold helper
  simp only [toString, String.append_assoc, hname]

/-- The text of the helper function of a texture: its signature, and in braces the statements of
the coordinates. -/
def helperText (P : Type) [Scalar P] [Stored P] (t : CurveTexture) (l : ShaderLanguage)
    (texture : String) : String :=
  "\n" ++ s!"{l.typeName .float2} {texture}_computePos(float f)" ++ "\n" ++ "\x7b" ++ "\n" ++
    String.join ((t.positionStatements (P := P)).map fun st => "  " ++ st.text l ++ "\n") ++
    "\x7d" ++ "\n"

theorem text_helper (t : CurveTexture) (l : ShaderLanguage) (texture : String) :
    (t.helper (P := P) l texture).text l = t.helperText P l texture := by
  rw [helper_eq]
  unfold helperText
  generalize s!"{l.typeName .float2} {texture}_computePos(float f)" = signature
  let opened : ShaderText :=
    ((({ language := l } : ShaderText).line "").line signature).line "\x7b"
  have hopened : opened.text = "\n" ++ signature ++ "\n" ++ "\x7b" ++ "\n" := by
    rw [ShaderText.text_line rfl, ShaderText.text_line rfl, ShaderText.text_line rfl,
      String.empty_append, String.empty_append]
  let inner := (Statement.code l (t.positionStatements (P := P))).write { opened with depth := 1 }
  have hinner : inner.text = opened.text ++
      String.join ((t.positionStatements (P := P)).map fun st => "  " ++ st.text l ++ "\n") :=
    Statement.text_write_code l _ rfl
  change (ShaderText.line { inner with depth := inner.depth - 1 } "\x7d").text = _
  rw [ShaderText.text_line (by simp [inner]), hinner, hopened]

end CurveTexture

/-! ## Grids -/

theorem GridTexture.lookup_eq (l : ShaderLanguage) (method : Interpolation) (size : Nat)
    (texture pixel : String) :
    lookup P l method size texture pixel =
      Code.title s!"Add LUT 3D processing for {texture}" ++ .block (Code.ofList
        ((tableLookup (P := P) method size texture pixel).steps.map (LookupStep.code l))) := rfl

end ColorPipeline
