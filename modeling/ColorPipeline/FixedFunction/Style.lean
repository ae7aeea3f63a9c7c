-- The named fixed functions. Each family of functions comes in two directions.
import ColorPipeline.Op.Direction

namespace ColorPipeline

/-- A fixed function together with the one that undoes it. -/
inductive FixedFunctionFamily where
  | redModifier03
  | redModifier10
  | glow03
  | glow10
  | darkToDim10
  | surround2100
  | hsv
  | xyY
  | uvY
  | luv
deriving DecidableEq, Inhabited

/-- A fixed function: a family and a direction. -/
structure FixedFunctionStyle where
  family : FixedFunctionFamily
  direction : Direction
deriving DecidableEq, Inhabited

namespace FixedFunctionStyle

/-- The style that undoes this one. -/
def inverse (s : FixedFunctionStyle) : FixedFunctionStyle :=
  { s with direction := s.direction.flip }

/-- The name of a style in cache IDs, messages and shader comments. -/
def name : FixedFunctionStyle → String
  | ⟨.redModifier03, .forward⟩ => "ACES_RedMod03 (Forward)"
  | ⟨.redModifier03, .inverse⟩ => "ACES_RedMod03 (Inverse)"
  | ⟨.redModifier10, .forward⟩ => "ACES_RedMod10 (Forward)"
  | ⟨.redModifier10, .inverse⟩ => "ACES_RedMod10 (Inverse)"
  | ⟨.glow03, .forward⟩ => "ACES_Glow03 (Forward)"
  | ⟨.glow03, .inverse⟩ => "ACES_Glow03 (Inverse)"
  | ⟨.glow10, .forward⟩ => "ACES_Glow10 (Forward)"
  | ⟨.glow10, .inverse⟩ => "ACES_Glow10 (Inverse)"
  | ⟨.darkToDim10, .forward⟩ => "ACES_DarkToDim10 (Forward)"
  | ⟨.darkToDim10, .inverse⟩ => "ACES_DarkToDim10 (Inverse)"
  | ⟨.surround2100, .forward⟩ => "REC2100_Surround (Forward)"
  | ⟨.surround2100, .inverse⟩ => "REC2100_Surround (Inverse)"
  | ⟨.hsv, .forward⟩ => "RGB_TO_HSV"
  | ⟨.hsv, .inverse⟩ => "HSV_TO_RGB"
  | ⟨.xyY, .forward⟩ => "XYZ_TO_xyY"
  | ⟨.xyY, .inverse⟩ => "xyY_TO_XYZ"
  | ⟨.uvY, .forward⟩ => "XYZ_TO_uvY"
  | ⟨.uvY, .inverse⟩ => "uvY_TO_XYZ"
  | ⟨.luv, .forward⟩ => "XYZ_TO_LUV"
  | ⟨.luv, .inverse⟩ => "LUV_TO_XYZ"

/-- Every family. -/
def families : List FixedFunctionFamily :=
  [.redModifier03, .redModifier10, .glow03, .glow10, .darkToDim10, .surround2100, .hsv, .xyY,
    .uvY, .luv]

/-- Every style, forward before inverse. -/
def all : List FixedFunctionStyle :=
  families.flatMap fun f => [⟨f, .forward⟩, ⟨f, .inverse⟩]

/-- The style with a given name. -/
def ofName? (name : String) : Option FixedFunctionStyle := all.find? fun s => s.name == name

@[simp] theorem inverse_inverse (s : FixedFunctionStyle) : s.inverse.inverse = s := by
  simp [inverse]

theorem mem_all (s : FixedFunctionStyle) : s ∈ all := by
  obtain ⟨f, d⟩ := s
  cases f <;> cases d <;> decide

end FixedFunctionStyle

end ColorPipeline
