-- The code that ops without a table write is tidy. Each line is made of constant texts, the name
-- of the pixel and numbers, and only the constant texts have brackets: what is open after a line
-- is computed from them alone.
import ColorPipeline.Proofs.CodeLayout
import ColorPipeline.Proofs.Spelling
import ColorPipeline.Shader.Arithmetic
import ColorPipeline.Shader.FixedFunction

namespace ColorPipeline

/-! ## Numbers -/

/-- The characters of numbers. -/
def isNumeral (c : Char) : Bool := c.isAlphanum || c == '.' || c == '-'

theorem isNumeral_of_isDigit {c : Char} (h : c.isDigit) : isNumeral c := by
  simp [isNumeral, Char.isAlphanum, h]

theorem Decimal.isNumeral_wholeDigits {n : Nat} : ∀ c ∈ wholeDigits n, isNumeral c :=
  fun _ hc => isNumeral_of_isDigit (isDigit_wholeDigits hc)

/-- Written-out decimals hold nothing but digits, a point and a sign. -/
theorem Decimal.isNumeral_positional (d : Decimal) : ∀ c ∈ d.positional, isNumeral c := by
  intro c hc
  rcases mem_positional hc with hdigit | rfl
  · exact isNumeral_of_isDigit hdigit
  · decide

theorem Decimal.isNumeral_mantissa (d : Decimal) : ∀ c ∈ d.mantissa, isNumeral c := by
  have hdigits := isNumeral_wholeDigits (n := d.digits)
  unfold mantissa
  split
  · exact List.forall_mem_nil _
  · rename_i hds
    rwa [hds] at hdigits
  · rename_i hds
    rw [hds, List.forall_mem_cons] at hdigits
    simp only [List.forall_mem_cons]
    exact ⟨hdigits.1, by decide, hdigits.2⟩

theorem Decimal.isNumeral_exponentText (x : Int) : ∀ c ∈ exponentText x, isNumeral c := by
  refine List.forall_mem_append.mpr ⟨?_, isNumeral_wholeDigits⟩
  split
  · simp [isNumeral]
  · exact List.forall_mem_nil _

/-- Numerals are free of brackets and line feeds. -/
theorem isBare_of_isNumeral {s : String} (h : ∀ c ∈ s.toList, isNumeral c) : IsBare s := by
  have hbrackets : ∀ c ∈ ['{', '}', '(', ')', '\n'], ¬ isNumeral c := by simp [isNumeral]
  exact fun c hc hbracket => hbrackets c hbracket (h c hc)

theorem isBare_repr (n : Nat) : IsBare n.repr :=
  isBare_of_isNumeral (by rw [Nat.toList_repr]; exact Decimal.isNumeral_wholeDigits)

theorem BinaryValue.isBare_signed {negative : Bool} {cs : List Char} (h : ∀ c ∈ cs, isNumeral c) :
    IsBare (signed negative cs) := by
  refine isBare_of_isNumeral ?_
  rw [signed, String.toList_ofList]
  split
  · exact List.forall_mem_cons.mpr ⟨by decide, h⟩
  · exact h

/-- Every number that code can hold is bare, also one that is not finite. -/
theorem BinaryValue.isBare_literal (f : BinaryFormat) (v : BinaryValue) : IsBare (v.literal f) := by
  cases v with
  | nan => exact (by decide : IsBare "NaN")
  | infinite negative => exact isBare_signed (by simp [isNumeral])
  | finite negative m e =>
    change IsBare (if m = 0 then _ else _)
    generalize Decimal.shortest f m e = d
    split
    · exact isBare_signed (by simp [isNumeral])
    · split
      · refine isBare_signed (List.forall_mem_append.mpr ⟨d.isNumeral_mantissa, ?_⟩)
        exact List.forall_mem_cons.mpr ⟨by decide, Decimal.isNumeral_exponentText _⟩
      · split
        · have hfraction : ∀ c ∈ ['.', '0'], isNumeral c := by simp [isNumeral]
          exact isBare_signed (List.forall_mem_append.mpr ⟨d.isNumeral_positional, hfraction⟩)
        · exact isBare_signed d.isNumeral_positional

/-! ## Words of a language -/

namespace ShaderLanguage

variable (l : ShaderLanguage) (d : Option Nat)

theorem isBare_typeName (t : ShaderType) : IsBare (l.typeName t) := by
  cases l <;> cases t <;> decide

@[simp] theorem openAfter_typeName (t : ShaderType) : openAfter d (l.typeName t) = d :=
  (l.isBare_typeName t).openAfter_eq d

section Numbers

variable {R : Type} [Scalar R] [Stored R]

theorem isBare_number (v : R) : IsBare (number v) := BinaryValue.isBare_literal _ _

@[simp] theorem openAfter_number (v : R) : openAfter d (number v) = d :=
  (isBare_number v).openAfter_eq d

/-- A type applied to numbers. -/
theorem isInline_vector (t : ShaderType) (vs : List R) :
    IsInline (l.typeName t ++ "(" ++ ", ".intercalate (vs.map number) ++ ")") := by
  have hvs : IsInline (", ".intercalate (vs.map number)) := by
    refine isInline_intercalate (isInline_iff.mpr rfl) fun s hs => ?_
    obtain ⟨v, _, rfl⟩ := List.mem_map.mp hs
    exact (isBare_number v).isInline
  simp only [isInline_iff, openAfter_append, openAfter_typeName, hvs.openAfter_eq]
  rfl

@[simp] theorem openAfter_vector3 (v : Rgb R) : openAfter d (l.vector3 v) = d :=
  (l.isInline_vector .float3 v.toList).openAfter_eq d

@[simp] theorem openAfter_vector4 (v : Rgba R) : openAfter d (l.vector4 v) = d :=
  (l.isInline_vector .float4 v.toList).openAfter_eq d

end Numbers

variable {l}

theorem isInline_blend {a b t : String} (ha : IsInline a) (hb : IsInline b) (ht : IsInline t) :
    IsInline (l.blend a b t) := by
  unfold blend
  split
  all_goals
    simp only [isInline_iff, openAfter_append, toString, ha.openAfter_eq, hb.openAfter_eq,
      ht.openAfter_eq]
    rfl

theorem isInline_angle {y x : String} (hy : IsInline y) (hx : IsInline x) :
    IsInline (l.angle y x) := by
  unfold angle
  split
  all_goals
    simp only [isInline_iff, openAfter_append, toString, hy.openAfter_eq, hx.openAfter_eq]
    rfl

/-- A texture is read in one expression, whatever the coordinates are. -/
theorem isInline_sample (dim : TextureDim) {name coords : String} (hname : IsBare name)
    (hcoords : IsInline coords) : IsInline (l.sample dim name coords) := by
  unfold sample
  split
  all_goals
    simp only [isInline_iff, openAfter_append, toString, hname.openAfter_eq, hcoords.openAfter_eq]
    rfl

theorem tidy_declaration (dim : TextureDim) {name : String} (hname : IsBare name) :
    (Code.ofList ((l.declaration dim name).map .line)).Tidy := by
  have htype : IsBare (l.textureType dim) := by cases l <;> cases dim <;> decide
  unfold declaration
  split
  all_goals
    simp only [List.map_cons, List.map_nil, Code.tidy_ofList_cons, Code.tidy_ofList_nil,
      Code.tidy_line, openAfter_append, toString, hname.openAfter_eq, htype.openAfter_eq]
    repeat rw [openAfter_ofList]
    decide

end ShaderLanguage

/-! ## Arithmetic -/

section Arithmetic

variable {P : Type} [Scalar P] [Stored P] {l : ShaderLanguage} {px : String}

theorem MatrixOp.tidy_code (m : MatrixOp P) (hpx : IsBare px) : (m.code l px).Tidy := by
  unfold code
  extract_lets row rows product sum
  have hrows : IsInline rows := by
    refine isInline_intercalate (isInline_iff.mpr rfl) fun s hs => ?_
    obtain ⟨r, _, rfl⟩ := List.mem_map.mp hs
    simp only [row, isInline_iff, openAfter_append, toString, hpx.openAfter_eq,
      ShaderLanguage.openAfter_vector4]
    rfl
  refine ⟨⟨Code.tidy_title.mpr (isInline_iff.mpr rfl), ?_⟩, ?_⟩
  · unfold product
    split
    · trivial
    · simp only [Code.tidy_line, openAfter_append, toString, hpx.openAfter_eq,
        ShaderLanguage.openAfter_typeName, hrows.openAfter_eq]
      rfl
  · unfold sum
    split
    · simp only [Code.tidy_line, openAfter_append, toString, hpx.openAfter_eq,
        ShaderLanguage.openAfter_vector4]
      rfl
    · trivial

theorem RangeOp.tidy_code (r : RangeOp P) (hpx : IsBare px) : (r.code l px).Tidy := by
  unfold code
  extract_lets a all map lower upper
  have hmap : map.Tidy := by
    unfold map
    split
    · simp only [all, Code.tidy_line, openAfter_append, toString, hpx.openAfter_eq,
        ShaderLanguage.openAfter_vector3]
      rfl
    · trivial
  have hlower : lower.Tidy := by
    unfold lower
    split
    · simp only [all, Code.tidy_line, openAfter_append, toString, hpx.openAfter_eq,
        ShaderLanguage.openAfter_vector3]
      rfl
    · trivial
  have hupper : upper.Tidy := by
    unfold upper
    split
    · simp only [all, Code.tidy_line, openAfter_append, toString, hpx.openAfter_eq,
        ShaderLanguage.openAfter_vector3]
      rfl
    · trivial
  exact ⟨⟨⟨Code.tidy_title.mpr (isInline_iff.mpr rfl), hmap⟩, hlower⟩, hupper⟩

theorem ExponentOp.tidy_code (e : ExponentOp P) (hpx : IsBare px) : (e.code l px).Tidy := by
  unfold code
  extract_lets powers zero clamped value
  have hclamped : IsInline clamped := by
    simp only [clamped, powers, zero, isInline_iff, openAfter_append, toString, hpx.openAfter_eq,
      ShaderLanguage.openAfter_vector4]
    rfl
  have hvalue : IsInline value := by
    unfold value
    split
    · exact hclamped
    · simp only [powers, isInline_iff, openAfter_append, toString, hpx.openAfter_eq,
        ShaderLanguage.openAfter_vector4]
      rfl
    · refine ShaderLanguage.isInline_blend hclamped hpx.isInline ?_
      simp only [zero, isInline_iff, openAfter_append, toString, hpx.openAfter_eq,
        ShaderLanguage.openAfter_vector4]
      rfl
  refine ⟨Code.tidy_title.mpr (isInline_iff.mpr rfl), ?_⟩
  simp only [Code.tidy_line, openAfter_append, toString, hpx.openAfter_eq,
    hvalue.openAfter_eq]
  rfl

theorem LogOp.tidy_code (o : LogOp P) (hpx : IsBare px) : (o.code l px).Tidy := by
  unfold code
  extract_lets log2Base floor body
  have htitle : IsInline s!"Add Log processing ({o.direction.name})" := by
    cases o.direction <;> exact isInline_iff.mpr rfl
  have hbody : body.Tidy := by
    unfold body
    split
    · simp only [floor, Code.tidy_ofList_cons, Code.tidy_ofList_nil, Code.tidy_line,
        openAfter_append, toString, hpx.openAfter_eq, ShaderLanguage.openAfter_vector3,
        ShaderLanguage.openAfter_number]
      decide
    · simp only [Code.tidy_line, openAfter_append, toString, hpx.openAfter_eq,
        ShaderLanguage.openAfter_number]
      rfl
  exact ⟨Code.tidy_title.mpr htitle, hbody⟩

end Arithmetic

/-! ## Fixed functions -/

section FixedFunctions

open ShaderLanguage

variable {S : Type} [Scalar S] [Stored S] {l : ShaderLanguage} {px : String}

theorem tidy_channelLines (hpx : IsBare px) : (channelLines px).Tidy := by
  simp only [channelLines, Code.tidy_ofList_cons, Code.tidy_ofList_nil, Code.tidy_line,
    openAfter_append, toString, hpx.openAfter_eq]
  repeat rw [openAfter_ofList]
  decide

theorem tidy_extremeLines : extremeLines.Tidy := by
  simp only [extremeLines, Code.tidy_ofList_cons, Code.tidy_ofList_nil, Code.tidy_line]
  repeat rw [openAfter_ofList]
  decide

theorem tidy_saturationLine {variableName : String} (h : IsBare variableName) (noiseLimit : S) :
    (saturationLine variableName noiseLimit).Tidy := by
  simp only [saturationLine, Code.tidy_line, openAfter_append, toString,
    h.openAfter_eq, openAfter_number]
  repeat rw [openAfter_ofList]
  decide

theorem RedModifier.tidy_restoreCode (hpx : IsBare px) : (restoreCode px).Tidy := by
  simp only [restoreCode, Code.tidy_block, Code.tidy_ofList_cons, Code.tidy_ofList_nil,
    Code.tidy_line, openAfter_append, toString, hpx.openAfter_eq]
  repeat rw [openAfter_ofList]
  decide

theorem RedModifier.tidy_newRedCode (k : RedModifier S) (d : Direction) :
    (k.newRedCode d).Tidy := by
  have hsaturation := tidy_saturationLine (by decide : IsBare "f_S") k.noiseLimit
  unfold newRedCode
  split
  all_goals
    simp only [Code.tidy_ofList_cons, Code.tidy_ofList_nil, Code.tidy_line, tidy_extremeLines,
      hsaturation, openAfter_append, toString, openAfter_number]
    repeat rw [openAfter_ofList]
    decide

theorem RedModifier.tidy_code (k : RedModifier S) (d : Direction) (hpx : IsBare px) :
    (k.code d l px).Tidy := by
  have hrestore : (if k.keepsHue then restoreCode px else Code.nothing).Tidy := by
    split
    · exact tidy_restoreCode hpx
    · trivial
  have hangle : IsInline (l.angle "yb" "ya") :=
    isInline_angle (isInline_iff.mpr rfl) (isInline_iff.mpr rfl)
  simp only [code, Cubic.constant, Code.tidy_block, Code.tidy_ofList_cons, Code.tidy_ofList_nil,
    Code.tidy_line, tidy_channelLines hpx, k.tidy_newRedCode, hrestore, hangle.openAfter_eq,
    openAfter_append, toString, hpx.openAfter_eq, openAfter_number, openAfter_typeName,
    openAfter_vector4]
  repeat rw [openAfter_ofList]
  decide

theorem Glow.tidy_gainCode (k : Glow S) (d : Direction) : (k.gainCode d).Tidy := by
  unfold gainCode
  split
  all_goals
    simp only [Code.tidy_ofList_cons, Code.tidy_ofList_nil, Code.tidy_line,
      openAfter_append, toString, openAfter_number]
    repeat rw [openAfter_ofList]
    decide +kernel

theorem Glow.tidy_code (k : Glow S) (d : Direction) (hpx : IsBare px) : (k.code d px).Tidy := by
  have hsaturation := tidy_saturationLine (by decide : IsBare "sat") k.noiseLimit
  simp only [code, Code.tidy_block, Code.tidy_ofList_cons, Code.tidy_ofList_nil, Code.tidy_line,
    tidy_channelLines hpx, tidy_extremeLines, hsaturation, k.tidy_gainCode,
    openAfter_append, toString, hpx.openAfter_eq, openAfter_number]
  repeat rw [openAfter_ofList]
  decide +kernel

/-- Surrounds of both kinds have their code from one definition. -/
theorem Surround.tidy_code (weights : Rgb S) (absolute : Bool) {floor exponent : String}
    (hfloor : IsBare floor) (hexponent : IsBare exponent) (hpx : IsBare px) :
    (Surround.code weights absolute floor exponent l px).Tidy := by
  unfold code
  extract_lets product luminance
  have hproduct : IsInline product := by
    simp only [product, isInline_iff, openAfter_append, toString, hpx.openAfter_eq,
      openAfter_vector3]
    rfl
  have hluminance : IsInline luminance := by
    unfold luminance
    split
    · simp only [isInline_iff, openAfter_append, toString, hproduct.openAfter_eq]
      rfl
    · exact hproduct
  simp only [Code.tidy_block, Code.tidy_ofList_cons, Code.tidy_ofList_nil, Code.tidy_line,
    openAfter_append, toString, hluminance.openAfter_eq, hfloor.openAfter_eq,
    hexponent.openAfter_eq, hpx.openAfter_eq]
  decide

theorem Hsv.tidy_ofRgbCode (hpx : IsBare px) : (ofRgbCode l px).Tidy := by
  simp only [ofRgbCode, Code.tidy_block, Code.tidy_ofList_cons, Code.tidy_ofList_nil,
    Code.tidy_line, openAfter_append, toString, hpx.openAfter_eq, openAfter_typeName]
  repeat rw [openAfter_ofList]
  decide

theorem Hsv.tidy_toRgbCode (hpx : IsBare px) : (toRgbCode l px).Tidy := by
  simp only [toRgbCode, Code.tidy_block, Code.tidy_ofList_cons, Code.tidy_ofList_nil,
    Code.tidy_line, openAfter_append, toString, hpx.openAfter_eq, openAfter_typeName]
  repeat rw [openAfter_ofList]
  decide +kernel

namespace Chromaticity

theorem tidy_xyYOfXyzCode (hpx : IsBare px) : (xyYOfXyzCode l px).Tidy := by
  simp only [xyYOfXyzCode, reciprocalLine, Code.tidy_block, Code.tidy_ofList_cons,
    Code.tidy_ofList_nil, Code.tidy_line, openAfter_append, toString,
    hpx.openAfter_eq, openAfter_typeName]
  repeat rw [openAfter_ofList]
  decide

theorem tidy_xyzOfXyYCode (hpx : IsBare px) : (xyzOfXyYCode l px).Tidy := by
  simp only [xyzOfXyYCode, secondReciprocalLine, Code.tidy_block, Code.tidy_ofList_cons,
    Code.tidy_ofList_nil, Code.tidy_line, openAfter_append, toString,
    hpx.openAfter_eq, openAfter_typeName]
  repeat rw [openAfter_ofList]
  decide

theorem tidy_uvYOfXyzCode (hpx : IsBare px) : (uvYOfXyzCode l px).Tidy := by
  simp only [uvYOfXyzCode, denominatorLine, reciprocalLine, Code.tidy_block,
    Code.tidy_ofList_cons, Code.tidy_ofList_nil, Code.tidy_line, openAfter_append,
    toString, hpx.openAfter_eq, openAfter_typeName]
  repeat rw [openAfter_ofList]
  decide

variable (S)

theorem tidy_xyzOfUvYCode (hpx : IsBare px) : (xyzOfUvYCode S l px).Tidy := by
  simp only [xyzOfUvYCode, secondReciprocalLine, Code.tidy_block, Code.tidy_ofList_cons,
    Code.tidy_ofList_nil, Code.tidy_line, openAfter_append, toString,
    hpx.openAfter_eq, openAfter_typeName, openAfter_number]
  repeat rw [openAfter_ofList]
  decide

theorem tidy_luvOfXyzCode (hpx : IsBare px) : (luvOfXyzCode S l px).Tidy := by
  simp only [luvOfXyzCode, denominatorLine, reciprocalLine, Code.tidy_block,
    Code.tidy_ofList_cons, Code.tidy_ofList_nil, Code.tidy_line, openAfter_append,
    toString, hpx.openAfter_eq, openAfter_typeName, openAfter_number]
  repeat rw [openAfter_ofList]
  decide

theorem tidy_xyzOfLuvCode (hpx : IsBare px) : (xyzOfLuvCode S l px).Tidy := by
  simp only [xyzOfLuvCode, Code.tidy_block, Code.tidy_ofList_cons, Code.tidy_ofList_nil,
    Code.tidy_line, openAfter_append, toString, hpx.openAfter_eq,
    openAfter_typeName, openAfter_number]
  repeat rw [openAfter_ofList]
  decide

end Chromaticity

variable {P : Type} [Scalar P] [Stored P] [Precision P S]

theorem FixedFunctionStyle.tidy_code (style : FixedFunctionStyle) (gamma : P) (hpx : IsBare px) :
    (style.code S gamma l px).Tidy := by
  unfold code
  extract_lets darkToDim rec2100 dimGamma floor2100
  have hdark : ∀ exponent, (darkToDim exponent).Tidy := fun exponent =>
    Surround.tidy_code _ _ (isBare_number _) (isBare_number exponent) hpx
  have hrec : ∀ (floor : S) (exponent : P), (rec2100 (number floor) exponent).Tidy :=
    fun floor exponent => Surround.tidy_code _ _ (isBare_number floor) (isBare_number exponent) hpx
  split
  · exact RedModifier.tidy_code _ _ hpx
  · exact RedModifier.tidy_code _ _ hpx
  · exact Glow.tidy_code _ _ hpx
  · exact Glow.tidy_code _ _ hpx
  · exact hdark _
  · exact hdark _
  · exact hrec _ _
  · exact Surround.tidy_code _ _ (isBare_number _) (isBare_number _) hpx
  · exact Hsv.tidy_ofRgbCode hpx
  · exact Hsv.tidy_toRgbCode hpx
  · exact Chromaticity.tidy_xyYOfXyzCode hpx
  · exact Chromaticity.tidy_xyzOfXyYCode hpx
  · exact Chromaticity.tidy_uvYOfXyzCode hpx
  · exact Chromaticity.tidy_xyzOfUvYCode S hpx
  · exact Chromaticity.tidy_luvOfXyzCode S hpx
  · exact Chromaticity.tidy_xyzOfLuvCode S hpx

/-- The code of a fixed function is tidy, whatever its parameters are. -/
theorem FixedFunctionOp.tidy_code (f : FixedFunctionOp P) (hpx : IsBare px) :
    (f.code S l px).Tidy := by
  have hname : IsInline f.style.name := by
    obtain ⟨family, direction⟩ := f.style
    rw [isInline_iff]
    cases family <;> cases direction
    all_goals
      rw [FixedFunctionStyle.name, openAfter_ofList]
      rfl
  refine ⟨Code.tidy_title.mpr ?_, f.style.tidy_code f.gamma hpx⟩
  simp only [isInline_iff, openAfter_append, toString, hname.openAfter_eq]
  rfl

end FixedFunctions

end ColorPipeline
