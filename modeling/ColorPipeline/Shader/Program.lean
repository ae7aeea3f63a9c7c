-- Shader programs: one function, with the textures and helper functions that
-- its body uses. The parts of a program are collected op by op.
import ColorPipeline.Shader.Code

namespace ColorPipeline

/-! ## Textures -/

/-- How the host reads a texture between its texels. -/
inductive TextureFilter where
  | nearest
  | linear
deriving DecidableEq

/-- What a texture shows: RGB texels, along the width first. -/
structure TextureImage (S : Type) where
  dim : TextureDim
  width : Nat
  height : Nat
  depth : Nat
  texels : List S
  filter : TextureFilter

/-- A texture that the host must bind. -/
structure Texture (S : Type) where
  /-- What the code calls it. -/
  name : String
  /-- The cache ID of the op that it belongs to. -/
  source : String
  image : TextureImage S

/-! ## Settings -/

/-- The language, the names and the limits of a program. -/
structure ShaderSettings where
  language : ShaderLanguage := .glsl330
  functionName : String := "OCIOMain"
  /-- The variable that the ops read and write. -/
  pixelName : String := "outColor"
  /-- What the names of textures begin with. -/
  resourceName : String := "ocio"
  /-- How wide the texture of a curve may be. -/
  maxWidth : Nat := 4096
  two_le_maxWidth : 2 ≤ maxWidth := by decide

/-- The settings with another maximum width, of at least two texels. -/
def ShaderSettings.withMaxWidth (s : ShaderSettings) (width : Nat) : ShaderSettings :=
  { s with maxWidth := max width 2, two_le_maxWidth := Nat.le_max_right width 2 }

/-! ## Programs -/

/-- The parts of a program so far. -/
structure ShaderProgram (S : Type) where
  settings : ShaderSettings
  /-- The cache ID of the pipeline in the program. -/
  pipelineId : String := ""
  declarations : String := ""
  helpers : String := ""
  body : String := ""
  textures : List (Texture S) := []

namespace ShaderProgram

variable {S : Type}

/-- The texture of the op with the cache ID `source`. -/
def findTexture? (p : ShaderProgram S) (source : String) : Option (Texture S) :=
  p.textures.find? fun t => t.source == source

/-- The name of the next texture. -/
def nextName (p : ShaderProgram S) (stem : String) : String :=
  s!"{p.settings.resourceName}_{stem}_{p.textures.length}"

/-- The program with the texture of an op, declared once, and its name. -/
def addTexture (p : ShaderProgram S) (stem source : String) (image : TextureImage S) :
    String × ShaderProgram S :=
  match p.findTexture? source with
  | some t => (t.name, p)
  | none =>
    let name := p.nextName stem
    let declared := ({ language := p.settings.language : ShaderText }).declare image.dim name
    (name, { p with
      declarations := p.declarations ++ declared.text
      textures := p.textures ++ [{ name, source, image }] })

def addHelper (p : ShaderProgram S) (code : String) : ShaderProgram S :=
  { p with helpers := p.helpers ++ code }

def addBody (p : ShaderProgram S) (code : String) : ShaderProgram S :=
  { p with body := p.body ++ code }

/-- A fingerprint of the program. -/
def cacheId (p : ShaderProgram S) : String :=
  " ".intercalate [p.settings.language.name, p.settings.functionName, p.settings.pixelName,
    p.settings.resourceName, p.pipelineId]

/-- The first line of the function. -/
def signature (p : ShaderProgram S) : String :=
  let float4 := p.settings.language.typeName .float4
  let qualifier := if p.settings.language.isGlsl then "" else "in "
  s!"{float4} {p.settings.functionName}({qualifier}{float4} inPixel)"

/-- What stands in front of the body of the function. -/
def opening (p : ShaderProgram S) : Code :=
  Code.title s!"Declaration of the shader function {p.settings.functionName}" ++
    Code.ofList [p.signature, "\x7b", .indented
      (.line s!"{p.settings.language.typeName .float4} {p.settings.pixelName} = inPixel;")]

/-- What stands after the body of the function. -/
def closing (p : ShaderProgram S) : Code :=
  Code.ofList ["", .indented (.line s!"return {p.settings.pixelName};"), "\x7d"]

/-- The whole program. -/
def text (p : ShaderProgram S) : String :=
  let write (c : Code) : String := c.text p.settings.language
  write (Code.title "Declaration of all variables") ++ p.declarations ++
    write (Code.title "Declaration of all helper methods") ++ p.helpers ++
    write p.opening ++ p.body ++ write p.closing

end ShaderProgram

end ColorPipeline
