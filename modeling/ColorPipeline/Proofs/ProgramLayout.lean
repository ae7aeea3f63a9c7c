-- The layout of whole programs. The parts of a program are written one by one, the function with
-- one brace in front of the ops and the other after them. They make the text of one tree of code,
-- and that is tidy where the names in the settings have no brackets.
import ColorPipeline.Proofs.SharedTextures
import ColorPipeline.Proofs.TidyTables

namespace ColorPipeline

/-! ## Names and ops -/

/-- The names that a program takes from its settings have no brackets and no line feeds. -/
structure ShaderSettings.BareNames (s : ShaderSettings) : Prop where
  function : IsBare s.functionName
  pixel : IsBare s.pixelName
  resource : IsBare s.resourceName

theorem ShaderSettings.BareNames.textureName {s : ShaderSettings} (h : s.BareNames)
    (dim : TextureDim) (count : Nat) : IsBare (s.textureName dim count) := by
  have hbetween : IsBare "_" := by decide
  have hstem : IsBare dim.stem := by cases dim <;> decide
  exact (((h.resource.append hbetween).append hstem).append hbetween).append (isBare_repr count)

variable {P S : Type} [Scalar P] [Stored P] [Scalar S] [Stored S] [Precision P S]
  {s : ShaderSettings}

theorem OpData.tidy_code (d : OpData P S) {texture : String} (hs : s.BareNames)
    (htexture : IsBare texture) : (d.code s texture).Tidy := by
  cases d with
  | matrix m => exact m.tidy_code hs.pixel
  | range r => exact r.tidy_code hs.pixel
  | exponent e => exact e.tidy_code hs.pixel
  | log o => exact o.tidy_code hs.pixel
  | lut1D t => exact CurveTexture.tidy_lookup htexture hs.pixel
  | lut3D t => exact GridTexture.tidy_lookup _ _ htexture hs.pixel
  | fixedFunction f => exact f.tidy_code hs.pixel

namespace ShaderProgram

/-- The text of an op's code, at the end of the code. -/
def written (q : ShaderProgram S) (op : Op P S) : ShaderText :=
  (Code.indented (op.data.code q.settings (q.textureOf op.cacheId))).write
    { language := q.settings.language }

/-- The layout of a program of some ops. -/
structure LaidOut (s : ShaderSettings) (ops : Pipeline P S) (q : ShaderProgram S) : Prop where
  settings : q.settings = s
  braces : Balanced '{' '}' q.text.toList
  parentheses : Balanced '(' ')' q.text.toList
  aligned : AlignedBraces (q.text.toList.splitOn '\n')
  blocks : q.body = String.join (ops.map fun op => (q.written op).text)
  indented : ∀ op ∈ ops, ∀ line ∈ (q.written op).text.toList.splitOn '\n', line ≠ [] →
    ShaderText.indent.toList <+: line
  depth : ∀ op ∈ ops, (q.written op).depth = 0

section Outline

variable (q : ShaderProgram S) (declared helpers blocks : List Code)

/-- The code of a whole program, by the code of its declarations, helper functions and ops. -/
def outline : Code :=
  Code.ofList [Code.title "Declaration of all variables", Code.ofList declared,
    Code.title "Declaration of all helper methods", Code.ofList helpers,
    Code.title s!"Declaration of the shader function {q.settings.functionName}",
    q.signature,
    .block (Code.ofList [
      s!"{q.settings.language.typeName .float4} {q.settings.pixelName} = inPixel;",
      Code.ofList blocks, "", s!"return {q.settings.pixelName};"])]

variable {q declared helpers blocks}

omit [Scalar S] [Stored S] in
/-- The parts of a program are written one by one, and make the text of its outline. -/
theorem text_eq_outline
    (hdeclared : q.declarations = String.join (declared.map (·.text q.settings.language)))
    (hhelpers : q.helpers = String.join (helpers.map (·.text q.settings.language)))
    (hblocks : q.body =
      String.join ((blocks.map Code.indented).map (·.text q.settings.language))) :
    q.text = (q.outline declared helpers blocks).text q.settings.language := by
  have hjoin : ∀ codes : List Code, (String.join (codes.map (·.text q.settings.language))).toList =
      Code.ended (codes.flatMap (Code.lines 0)) := by
    intro codes
    induction codes with
    | nil => rfl
    | cons c codes ih =>
      rw [List.map_cons, String.join_cons, String.toList_append, ih, Code.toList_text,
        List.flatMap_cons, Code.ended_append]
  apply String.toList_inj.mp
  rw [text, hdeclared, hhelpers, hblocks]
  simp only [String.toList_append, Code.toList_text, hjoin]
  have hdeeper : (blocks.map Code.indented).flatMap (Code.lines 0) =
      blocks.flatMap (Code.lines 1) := List.flatMap_map ..
  have hopening : q.opening.lines 0 =
      (Code.title s!"Declaration of the shader function {q.settings.functionName}").lines 0 ++
        [Code.lineAt 0 q.signature, braceLine 0 '{', Code.lineAt 1
          s!"{q.settings.language.typeName .float4} {q.settings.pixelName} = inPixel;"] := rfl
  have hclosing : q.closing.lines 0 =
      [[], Code.lineAt 1 s!"return {q.settings.pixelName};", braceLine 0 '}'] := rfl
  rw [hdeeper, hopening, hclosing]
  simp only [← Code.ended_append, outline, Code.lines_ofList, List.flatMap_cons, List.flatMap_nil,
    Code.lines, Code.lineAt_empty, List.append_assoc, List.cons_append, List.nil_append,
    List.append_nil, Nat.zero_add, Nat.mul_zero]

omit [Scalar S] [Stored S] in
theorem tidy_outline (hs : q.settings.BareNames) (hdeclared : ∀ c ∈ declared, c.Tidy)
    (hhelpers : ∀ c ∈ helpers, c.Tidy) (hblocks : ∀ c ∈ blocks, c.Tidy) :
    (q.outline declared helpers blocks).Tidy := by
  have hconstants : IsInline "Declaration of all variables" ∧
      IsInline "Declaration of all helper methods" ∧ openAfter (some 0) "" = some 0 :=
    ⟨isInline_iff.mpr rfl, isInline_iff.mpr rfl, rfl⟩
  have hqualifier : IsBare (if q.settings.language.isGlsl then "" else "in ") := by
    split <;> decide
  simp only [outline, signature, Code.tidy_ofList_cons, Code.tidy_ofList_nil, Code.tidy_title,
    Code.tidy_block, Code.tidy_line, hconstants, Code.tidy_ofList.mpr hdeclared,
    Code.tidy_ofList.mpr hhelpers, Code.tidy_ofList.mpr hblocks, isInline_iff, openAfter_append,
    toString, hs.function.openAfter_eq, hs.pixel.openAfter_eq, hqualifier.openAfter_eq,
    ShaderLanguage.openAfter_typeName]
  repeat rw [openAfter_ofList]
  decide

end Outline

variable {ops : Pipeline P S} {q : ShaderProgram S}

/-- Textures have bare names, since the names are made of the settings and a number. -/
theorem Holds.isBare_name (h : Holds s ops q) (hs : s.BareNames) :
    ∀ t ∈ q.textures, IsBare t.name := by
  intro t ht
  have hname : t.name ∈ q.textures.map Texture.name := List.mem_map_of_mem ht
  rw [h.names, List.mem_mapIdx] at hname
  obtain ⟨i, hi, hname⟩ := hname
  rw [← hname]
  exact hs.textureName _ _

theorem Holds.isBare_textureOf (h : Holds s ops q) (hs : s.BareNames) (source : String) :
    IsBare (q.textureOf source) := by
  unfold textureOf
  rcases hfound : q.findTexture? source with _ | t
  · exact (by decide : IsBare "")
  · exact h.isBare_name hs t (List.mem_of_find?_eq_some hfound)

/-- The helper functions are tidy code. -/
theorem Holds.exists_helpers (h : Holds s ops q) (hs : s.BareNames) :
    ∃ codes : List Code, q.helpers = String.join (codes.map (·.text s.language)) ∧
      ∀ c ∈ codes, c.Tidy := by
  obtain ⟨texts, htexts, hall⟩ := h.helpers
  have hbare : ∀ t ∈ q.textures.filter fun t => t.image.dim = .two, IsBare t.name :=
    fun t ht => h.isBare_name hs t (List.mem_of_mem_filter ht)
  rw [htexts]
  clear htexts
  generalize q.textures.filter (fun t => t.image.dim = .two) = textures at hbare hall
  induction hall with
  | nil => exact ⟨[], rfl, nofun⟩
  | @cons t text textures texts hhelper _ ih =>
    rw [List.forall_mem_cons] at hbare
    obtain ⟨codes, hcodes, htidy⟩ := ih hbare.2
    obtain ⟨op, _, _, l, _, rfl⟩ := hhelper
    refine ⟨(l.layout s).helper (P := P) s.language t.name :: codes, ?_, ?_⟩
    · rw [List.map_cons, String.join_cons, String.join_cons, hcodes, CurveTexture.text_helper]
    · exact List.forall_mem_cons.mpr ⟨CurveTexture.tidy_helper _ hbare.1, htidy⟩

theorem Holds.laidOut (h : Holds s ops q) (hs : s.BareNames) : q.LaidOut s ops := by
  obtain rfl := h.settings
  obtain ⟨helpers, hhelpers, htidyHelpers⟩ := h.exists_helpers hs
  let declared : List Code := q.textures.map fun t =>
    Code.ofList ((q.settings.language.declaration t.image.dim t.name).map .line)
  let block : Op P S → Code := fun op => op.data.code q.settings (q.textureOf op.cacheId)
  have hdeclared : q.declarations = String.join (declared.map (·.text q.settings.language)) := by
    rw [h.declarations, List.map_map]
    refine congrArg String.join (List.map_congr_left fun t _ => ?_)
    unfold Texture.declaration
    rw [← ShaderText.text_declare]
    exact congrArg ShaderText.text (Code.foldl_line _ _)
  have hblocks : q.body =
      String.join (((ops.map block).map Code.indented).map (·.text q.settings.language)) := by
    rw [h.body, List.map_map, List.map_map]
    rfl
  have htidyDeclared : ∀ c ∈ declared, c.Tidy := by
    intro c hc
    obtain ⟨t, ht, rfl⟩ := List.mem_map.mp hc
    exact ShaderLanguage.tidy_declaration _ (h.isBare_name hs t ht)
  have htidyBlock : ∀ op, (block op).Tidy := fun op =>
    op.data.tidy_code hs (h.isBare_textureOf hs op.cacheId)
  have htidyBlocks : ∀ c ∈ ops.map block, c.Tidy := by
    intro c hc
    obtain ⟨op, _, rfl⟩ := List.mem_map.mp hc
    exact htidyBlock op
  have htidy := tidy_outline hs htidyDeclared htidyHelpers htidyBlocks
  obtain ⟨hbraces, hparentheses, haligned⟩ := htidy.balanced_text q.settings.language
  rw [← text_eq_outline hdeclared hhelpers hblocks] at hbraces hparentheses haligned
  exact
    { settings := rfl
      braces := hbraces
      parentheses := hparentheses
      aligned := haligned
      blocks := h.body
      indented := fun op _ line hline hne => (htidyBlock op).starts_indented _ hline hne
      depth := fun op _ => Code.depth_write _ _ }

end ShaderProgram

/-- With bare names, processors that were made give a program whose brackets match and whose braces
are aligned, with the indented code of each op in its place. -/
theorem a_program_has_matching_brackets (s : ShaderSettings) (hs : s.BareNames)
    (ps : List (Processor P S)) (h : ∀ p ∈ ps, p.Made) :
    ∃ q : ShaderProgram S, ps.foldlM ShaderProgram.addPipeline { settings := s } = .ok q ∧
      q.LaidOut s (ps.flatMap Processor.ops) := by
  obtain ⟨q, hq, hholds⟩ := (ShaderProgram.holds_nothing s).addPipelines h
  rw [List.nil_append] at hholds
  exact ⟨q, hq, hholds.laidOut hs⟩

open scoped ColorPipeline.RealScalar in
/-- The program of a curve, with the default names. -/
theorem the_brackets_of_a_lookup_match :
    ({} : ShaderSettings).BareNames ∧ (∀ p ∈ [straightProcessor], p.Made) ∧
      ∃ q : ShaderProgram ℝ, [straightProcessor].foldlM ShaderProgram.addPipeline
        { settings := {} } = .ok q ∧ q.LaidOut {} [straightCurve.withId] := by
  have hnames : ({} : ShaderSettings).BareNames := ⟨by decide, by decide, by decide⟩
  have hmade : ∀ p ∈ [straightProcessor], p.Made :=
    List.forall_mem_singleton.mpr made_straightProcessor
  exact ⟨hnames, hmade, a_program_has_matching_brackets {} hnames _ hmade⟩

end ColorPipeline
