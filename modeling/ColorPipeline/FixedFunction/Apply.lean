-- What each fixed function does to a colour.
import ColorPipeline.FixedFunction.Chromaticity
import ColorPipeline.FixedFunction.Glow
import ColorPipeline.FixedFunction.Hsv
import ColorPipeline.FixedFunction.Style
import ColorPipeline.FixedFunction.Surround

open scoped ColorPipeline.Scalar

namespace ColorPipeline

/-- The colour after a fixed function. Only the Rec.2100 surround uses `gamma`;
its inverse has the floor that comes out of the forward function. -/
def FixedFunctionStyle.apply {S : Type} [Scalar S] (style : FixedFunctionStyle) (gamma : S) :
    Rgb S → Rgb S :=
  match style with
  | ⟨.redModifier03, .forward⟩ => RedModifier.version03.forward
  | ⟨.redModifier03, .inverse⟩ => RedModifier.version03.inverse
  | ⟨.redModifier10, .forward⟩ => RedModifier.version10.forward
  | ⟨.redModifier10, .inverse⟩ => RedModifier.version10.inverse
  | ⟨.glow03, .forward⟩ => Glow.version03.forward
  | ⟨.glow03, .inverse⟩ => Glow.version03.inverse
  | ⟨.glow10, .forward⟩ => Glow.version10.forward
  | ⟨.glow10, .inverse⟩ => Glow.version10.inverse
  | ⟨.darkToDim10, .forward⟩ => Surround.darkToDim Surround.darkToDimGamma
  | ⟨.darkToDim10, .inverse⟩ => Surround.darkToDim (1 / Surround.darkToDimGamma)
  | ⟨.surround2100, .forward⟩ => Surround.rec2100 gamma Surround.floor2100
  | ⟨.surround2100, .inverse⟩ =>
    Surround.rec2100 (1 / gamma) (Surround.outputFloor2100 gamma)
  | ⟨.hsv, .forward⟩ => Hsv.ofRgb
  | ⟨.hsv, .inverse⟩ => Hsv.toRgb
  | ⟨.xyY, .forward⟩ => Chromaticity.xyYOfXyz
  | ⟨.xyY, .inverse⟩ => Chromaticity.xyzOfXyY
  | ⟨.uvY, .forward⟩ => Chromaticity.uvYOfXyz
  | ⟨.uvY, .inverse⟩ => Chromaticity.xyzOfUvY
  | ⟨.luv, .forward⟩ => Chromaticity.luvOfXyz
  | ⟨.luv, .inverse⟩ => Chromaticity.xyzOfLuv

end ColorPipeline
