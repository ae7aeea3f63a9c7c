-- Shading languages: the words in which they differ.
import ColorPipeline.Image.Pixel
import ColorPipeline.Number.Stored

open scoped ColorPipeline.Scalar

namespace ColorPipeline

/-- A target language of shader code. -/
inductive ShaderLanguage where
  | glsl120
  | glsl330
  | glsl400
  | glslEs300
  | hlsl50
deriving DecidableEq, Inhabited

/-- The types of shader variables. -/
inductive ShaderType where
  | float
  | float2
  | float3
  | float4
deriving DecidableEq

/-- The dimensions of a texture: an image or a volume. -/
inductive TextureDim where
  | two
  | three
deriving DecidableEq

namespace ShaderLanguage

/-- Every language. -/
def all : List ShaderLanguage := [glsl120, glsl330, glsl400, glslEs300, hlsl50]

/-- The name of a language in settings and fingerprints. -/
def name : ShaderLanguage → String
  | glsl120 => "glsl_120"
  | glsl330 => "glsl_330"
  | glsl400 => "glsl_400"
  | glslEs300 => "glsl_es_300"
  | hlsl50 => "hlsl_50"

/-- The language with a given name. -/
def ofName? (name : String) : Option ShaderLanguage := all.find? fun l => l.name == name

def isGlsl (l : ShaderLanguage) : Bool := l != hlsl50

/-- What a file of the language begins with. Programs do not contain it: the
host puts it in front where the function is the whole file. -/
def versionDirective : ShaderLanguage → String
  | glsl120 => "#version 120"
  | glsl330 => "#version 330 core"
  | glsl400 => "#version 400 core"
  | glslEs300 => "#version 300 es\nprecision highp float;"
  | hlsl50 => ""

def typeName (l : ShaderLanguage) : ShaderType → String
  | .float => "float"
  | .float2 => if l.isGlsl then "vec2" else "float2"
  | .float3 => if l.isGlsl then "vec3" else "float3"
  | .float4 => if l.isGlsl then "vec4" else "float4"

/-! ## Numbers -/

/-- A number, in a form that every language reads as floating point. -/
def number {R : Type} [Scalar R] [Stored R] (v : R) : String := Stored.literal (v + 0)

section Vectors

variable {R : Type} [Scalar R] [Stored R] (l : ShaderLanguage)

/-- A constant of three numbers. -/
def vector3 (v : Rgb R) : String :=
  l.typeName .float3 ++ "(" ++ ", ".intercalate (v.toList.map number) ++ ")"

/-- A constant of four numbers. -/
def vector4 (v : Rgba R) : String :=
  l.typeName .float4 ++ "(" ++ ", ".intercalate (v.toList.map number) ++ ")"

end Vectors

/-! ## Calls -/

/-- The blend of `a` and `b` with the part `t` of `b`. -/
def blend (l : ShaderLanguage) (a b t : String) : String :=
  if l.isGlsl then s!"mix({a}, {b}, {t})" else s!"lerp({a}, {b}, {t})"

/-- The angle of a point. -/
def angle (l : ShaderLanguage) (y x : String) : String :=
  if l.isGlsl then s!"atan({y}, {x})" else s!"atan2({y}, {x})"

/-- The value of a texture at coordinates from 0 to 1. -/
def sample : ShaderLanguage → TextureDim → String → String → String
  | glsl120, .two, name, coords => s!"texture2D({name}, {coords})"
  | glsl120, .three, name, coords => s!"texture3D({name}, {coords})"
  | hlsl50, _, name, coords => s!"{name}.Sample({name}Sampler, {coords})"
  | _, _, name, coords => s!"texture({name}, {coords})"

/-- The type of a texture. -/
def textureType : ShaderLanguage → TextureDim → String
  | hlsl50, .two => "Texture2D<float4>"
  | hlsl50, .three => "Texture3D<float4>"
  | glslEs300, .two => "uniform highp sampler2D"
  | glslEs300, .three => "uniform highp sampler3D"
  | _, .two => "uniform sampler2D"
  | _, .three => "uniform sampler3D"

/-- The lines that declare a texture, and its sampler where the language has one. -/
def declaration (l : ShaderLanguage) (dim : TextureDim) (name : String) : List String :=
  s!"{l.textureType dim} {name};" :: if l.isGlsl then [] else [s!"SamplerState {name}Sampler;"]

/-- The name of a language reads back. -/
theorem ofName?_name (l : ShaderLanguage) : ofName? l.name = some l := by
  cases l <;> decide

end ShaderLanguage

end ColorPipeline
