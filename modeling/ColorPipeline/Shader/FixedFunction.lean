-- Fixed functions in shader code. The constants are those of the renderers,
-- rounded to samples.
import ColorPipeline.FixedFunction.Apply
import ColorPipeline.Op.FixedFunction
import ColorPipeline.Shader.Code

open scoped ColorPipeline.Scalar

namespace ColorPipeline

open ShaderLanguage (number)

/-- The lines that name the channels of the pixel. -/
def channelLines (px : String) : Code :=
  Code.ofList [s!"float red = {px}.r;", s!"float grn = {px}.g;", s!"float blu = {px}.b;"]

/-- The line for the saturation of the pixel. -/
def saturationLine {S : Type} [Scalar S] [Stored S] (variableName : String) (noiseLimit : S) :
    Code :=
  .line (s!"float {variableName} = (max(maxChan, 1e-10) - max(minChan, 1e-10)) / " ++
    s!"max(maxChan, {number noiseLimit});")

/-- The lines for the least and the greatest channel. -/
def extremeLines : Code :=
  Code.ofList ["float minChan = min(red, min(grn, blu));", "float maxChan = max(red, max(grn, blu));"]

namespace RedModifier

variable {S : Type} [Scalar S] [Stored S]

/-- The coefficients of one step of the hue weight. -/
def Cubic.constant (m : Cubic S) (l : ShaderLanguage) : String := l.vector4 ⟨m.a, m.b, m.c, m.d⟩

/-- The lines that move the smaller of green and blue. -/
def restoreCode (px : String) : Code :=
  Code.ofList ["if (grn >= blu)",
    .block (Code.ofList ["float hueFac = (grn - blu) / max(red - blu, 1e-10);",
      s!"{px}.g = hueFac * (newRed - blu) + blu;"]),
    "else",
    .block (Code.ofList ["float hueFac = (blu - grn) / max(red - grn, 1e-10);",
      s!"{px}.b = hueFac * (newRed - grn) + grn;"])]

/-- The lines for the new red. -/
def newRedCode (k : RedModifier S) (d : Direction) : Code :=
  let part := number (1 - k.scale)
  let pivot := number k.pivot
  match d with
  | .forward => Code.ofList [extremeLines, saturationLine "f_S" k.noiseLimit,
      s!"float newRed = red + f_H * f_S * ({pivot} - red) * {part};"]
  | .inverse => Code.ofList ["float minChan = min(grn, blu);",
      s!"float qa = f_H * {part} - 1.0;",
      s!"float qb = red - f_H * ({pivot} + minChan) * {part};",
      s!"float qc = f_H * {pivot} * minChan * {part};",
      "float newRed = (-qb - sqrt(max(qb * qb - 4.0 * qa * qc, 0.0))) / (2.0 * qa);"]

def code (k : RedModifier S) (d : Direction) (l : ShaderLanguage) (px : String) : Code :=
  let float4 := l.typeName .float4
  let step (i : Nat) : String := (splineStep i : Cubic S).constant l
  .block (Code.ofList [channelLines px,
    "float ya = 2.0 * red - (grn + blu);",
    s!"float yb = {number (squareRoot3 : S)} * (grn - blu);",
    .line ("float knot = " ++ l.angle "yb" "ya" ++ s!" * {number k.inverseWidth} + 2.0;"),
    "float f_H = 0.0;",
    "if (knot >= 0.0 && knot < 4.0)",
    .block (Code.ofList ["float j = floor(knot);",
      "float t = knot - j;",
      s!"{float4} coefs = {step 3};",
      s!"if (j < 1.0) coefs = {step 0};",
      s!"else if (j < 2.0) coefs = {step 1};",
      s!"else if (j < 3.0) coefs = {step 2};",
      "f_H = coefs.w + t * (coefs.z + t * (coefs.y + t * coefs.x));"]),
    "if (f_H > 0.0)",
    .block (Code.ofList [k.newRedCode d, if k.keepsHue then restoreCode px else .nothing,
      s!"{px}.r = newRed;"])])

end RedModifier

namespace Glow

variable {S : Type} [Scalar S] [Stored S]

/-- The chain of branches that finds the gain. -/
def gainCode (k : Glow S) (d : Direction) : Code :=
  let mid := number k.mid
  let bright := number (k.mid * 2)
  let dark := number (k.mid * 2 / 3)
  let first : Code := .line s!"if (YC >= {bright}) GlowGainOut = 0.0;"
  match d with
  | .forward => Code.ofList [first, s!"else if (YC <= {dark}) GlowGainOut = GlowGain;",
      s!"else GlowGainOut = GlowGain * ({mid} / YC - 0.5);"]
  | .inverse => Code.ofList [first,
      s!"else if (YC <= (1.0 + GlowGain) * {dark}) GlowGainOut = -GlowGain / (1.0 + GlowGain);",
      s!"else GlowGainOut = GlowGain * ({mid} / YC - 0.5) / (GlowGain * 0.5 - 1.0);"]

def code (k : Glow S) (d : Direction) (px : String) : Code :=
  .block (Code.ofList [channelLines px,
    "float chroma = sqrt(max(blu * (blu - grn) + grn * (grn - red) + red * (red - blu), 0.0));",
    s!"float YC = (blu + grn + red + {number (chromaWeight : S)} * chroma) / 3.0;",
    extremeLines,
    saturationLine "sat" k.noiseLimit,
    "float x = (sat - 0.4) * 5.0;",
    "float sgn = (x < 0.0) ? -1.0 : 1.0;",
    "float t = max(1.0 - 0.5 * sgn * x, 0.0);",
    s!"float GlowGain = {number k.gain} * (1.0 + sgn * (1.0 - t * t)) * 0.5;",
    "float GlowGainOut = 0.0;",
    k.gainCode d,
    s!"{px}.rgb *= 1.0 + GlowGainOut;"])

end Glow

/-- A colour times a power of its luminance, which is `weights` of its channels,
and not below `floor`. -/
def Surround.code {S : Type} [Scalar S] [Stored S] (weights : Rgb S) (absolute : Bool)
    (floor exponent : String) (l : ShaderLanguage) (px : String) : Code :=
  let product := s!"dot({px}.rgb, {l.vector3 weights})"
  let luminance := if absolute then s!"abs({product})" else product
  .block (Code.ofList [s!"float Y = max({luminance}, {floor});", s!"{px}.rgb *= pow(Y, {exponent});"])

namespace Hsv

def ofRgbCode (l : ShaderLanguage) (px : String) : Code :=
  .block (Code.ofList [s!"float maxV = max({px}.r, max({px}.g, {px}.b));",
    s!"float minV = min({px}.r, min({px}.g, {px}.b));",
    "float delta = maxV - minV;",
    "float sat = (maxV != 0.0) ? delta / maxV : 0.0;",
    "float hue = 0.0;",
    "if (delta != 0.0)",
    .block (Code.ofList [s!"if (maxV == {px}.r) hue = ({px}.g - {px}.b) / delta;",
      s!"else if (maxV == {px}.g) hue = 2.0 + ({px}.b - {px}.r) / delta;",
      s!"else hue = 4.0 + ({px}.r - {px}.g) / delta;",
      "hue = hue / 6.0;",
      "if (hue < 0.0) hue += 1.0;"]),
    s!"{px}.rgb = {l.typeName .float3}(hue, sat, maxV);"])

def toRgbCode (l : ShaderLanguage) (px : String) : Code :=
  let float3 := l.typeName .float3
  let hats := s!"{float3}(abs(h6 - 3.0) - 1.0, 2.0 - abs(h6 - 2.0), 2.0 - abs(h6 - 4.0))"
  .block (Code.ofList [s!"float h6 = ({px}.r - floor({px}.r)) * 6.0;",
    s!"{float3} hue = clamp({hats}, 0.0, 1.0);",
    s!"{px}.rgb = ((hue - 1.0) * {px}.g + 1.0) * {px}.b;"])

end Hsv

namespace Chromaticity

/-- The line that divides one by `d`, or leaves zero. -/
def reciprocalLine : Code := .line "d = (d == 0.0) ? 0.0 : 1.0 / d;"

/-- The line for one over the second coordinate. -/
def secondReciprocalLine (px : String) : Code :=
  .line s!"float d = ({px}.g == 0.0) ? 0.0 : 1.0 / {px}.g;"

/-- The line for the denominator of u and v. -/
def denominatorLine (px : String) : Code :=
  .line s!"float d = {px}.r + 15.0 * {px}.g + 3.0 * {px}.b;"

def xyYOfXyzCode (l : ShaderLanguage) (px : String) : Code :=
  .block (Code.ofList [s!"float d = {px}.r + {px}.g + {px}.b;", reciprocalLine,
    s!"{px}.rgb = {l.typeName .float3}({px}.r * d, {px}.g * d, {px}.g);"])

def xyzOfXyYCode (l : ShaderLanguage) (px : String) : Code :=
  .block (Code.ofList [secondReciprocalLine px, s!"float Y = {px}.b;",
    s!"{px}.rgb = {l.typeName .float3}(Y * {px}.r * d, Y, Y * (1.0 - {px}.r - {px}.g) * d);"])

def uvYOfXyzCode (l : ShaderLanguage) (px : String) : Code :=
  .block (Code.ofList [denominatorLine px, reciprocalLine,
    s!"{px}.rgb = {l.typeName .float3}(4.0 * {px}.r * d, 9.0 * {px}.g * d, {px}.g);"])

section Constants

variable (S : Type) [Scalar S] [Stored S]

/-- The shader divides twenty by three, where the renderer has the quotient
with seven digits. -/
def xyzOfUvYCode (l : ShaderLanguage) (px : String) : Code :=
  let thirds := number (20 / 3 : S)
  .block (Code.ofList [secondReciprocalLine px, s!"float Y = {px}.b;",
    .line (s!"{px}.rgb = {l.typeName .float3}(2.25 * Y * {px}.r * d, Y, " ++
      s!"0.75 * Y * (4.0 - {px}.r - {thirds} * {px}.g) * d);")])

def luvOfXyzCode (l : ShaderLanguage) (px : String) : Code :=
  let dark := s!"{number (kappa : S)} * {px}.g"
  let root := s!"pow(max({px}.g, 0.0), 1.0 / 3.0)"
  let light := s!"{number (lightnessScale : S)} * {root} - {number (lightnessOffset : S)}"
  .block (Code.ofList [denominatorLine px, reciprocalLine,
    s!"float u = 4.0 * {px}.r * d;",
    s!"float v = 9.0 * {px}.g * d;",
    s!"float Lstar = ({px}.g <= {number (luminanceBreak : S)}) ? {dark} : {light};",
    .line (s!"{px}.rgb = {l.typeName .float3}(Lstar, " ++
      s!"13.0 * Lstar * (u - {number (whiteU : S)}), 13.0 * Lstar * (v - {number (whiteV : S)}));")])

def xyzOfLuvCode (l : ShaderLanguage) (px : String) : Code :=
  let dark := s!"Lstar / {number (kappa : S)}"
  .block (Code.ofList [s!"float Lstar = {px}.r;",
    "float d = (Lstar == 0.0) ? 0.0 : 1.0 / (13.0 * Lstar);",
    s!"float u = {px}.g * d + {number (whiteU : S)};",
    s!"float v = {px}.b * d + {number (whiteV : S)};",
    s!"float tmp = (Lstar + {number (lightnessOffset : S)}) / {number (lightnessScale : S)};",
    s!"float Y = (Lstar <= {number (lightnessBreak : S)}) ? {dark} : tmp * tmp * tmp;",
    "float dd = (v == 0.0) ? 0.0 : 0.25 / v;",
    s!"{px}.rgb = {l.typeName .float3}(9.0 * Y * u * dd, Y, Y * (12.0 - 3.0 * u - 20.0 * v) * dd);"])

end Constants

end Chromaticity

section Emission

variable {P : Type} (S : Type) [Scalar P] [Stored P] [Scalar S] [Stored S] [Precision P S]

/-- The code of a style. Only the Rec.2100 surround uses `gamma`. -/
def FixedFunctionStyle.code (style : FixedFunctionStyle) (gamma : P) (l : ShaderLanguage)
    (px : String) : Code :=
  let darkToDim (exponent : S) : Code :=
    Surround.code (Surround.weightsAP1 : Rgb S) false (number (Surround.darkToDimFloor : S))
      (number exponent) l px
  let rec2100 (floor : String) (exponent : P) : Code :=
    Surround.code (Surround.weights2100 : Rgb S) true floor (number exponent) l px
  let dimGamma : S := Surround.darkToDimGamma
  let floor2100 : S := Surround.floor2100
  match style with
  | ⟨.redModifier03, d⟩ => (RedModifier.version03 : RedModifier S).code d l px
  | ⟨.redModifier10, d⟩ => (RedModifier.version10 : RedModifier S).code d l px
  | ⟨.glow03, d⟩ => (Glow.version03 : Glow S).code d px
  | ⟨.glow10, d⟩ => (Glow.version10 : Glow S).code d px
  | ⟨.darkToDim10, .forward⟩ => darkToDim (dimGamma - 1)
  | ⟨.darkToDim10, .inverse⟩ => darkToDim (1 / dimGamma - 1)
  | ⟨.surround2100, .forward⟩ => rec2100 (number floor2100) (gamma - 1)
  | ⟨.surround2100, .inverse⟩ =>
    rec2100 (number (Scalar.pow (Precision.widen floor2100) gamma)) (1 / gamma - 1)
  | ⟨.hsv, .forward⟩ => Hsv.ofRgbCode l px
  | ⟨.hsv, .inverse⟩ => Hsv.toRgbCode l px
  | ⟨.xyY, .forward⟩ => Chromaticity.xyYOfXyzCode l px
  | ⟨.xyY, .inverse⟩ => Chromaticity.xyzOfXyYCode l px
  | ⟨.uvY, .forward⟩ => Chromaticity.uvYOfXyzCode l px
  | ⟨.uvY, .inverse⟩ => Chromaticity.xyzOfUvYCode S l px
  | ⟨.luv, .forward⟩ => Chromaticity.luvOfXyzCode S l px
  | ⟨.luv, .inverse⟩ => Chromaticity.xyzOfLuvCode S l px

def FixedFunctionOp.code (f : FixedFunctionOp P) (l : ShaderLanguage) (px : String) : Code :=
  Code.title s!"Add FixedFunction {f.style.name} processing" ++ f.style.code S f.gamma l px

end Emission

end ColorPipeline
