-- Programs of several processors. What one op adds keeps the textures, their declarations, the
-- helper functions and the code of the ops in step, so a program of any number of ops has one
-- texture for each cache ID of a table, and refers to nothing else.
import ColorPipeline.Proofs.Emission
import ColorPipeline.Proofs.Spelling

open scoped ColorPipeline.Scalar

namespace ColorPipeline

variable {P S : Type}

/-! ## What code refers to -/

/-- Something outside of the function that code refers to. -/
inductive ShaderReference where
  | texture (dim : TextureDim) (name : String)
  /-- The helper function that goes with a texture. -/
  | helper (texture : String)

def Formula.references : Formula P → List ShaderReference
  | name _ => []
  | number _ => []
  | part a _ => a.references
  | add a b => a.references ++ b.references
  | sub a b => a.references ++ b.references
  | mul a b => a.references ++ b.references
  | div a b => a.references ++ b.references
  | floor a => a.references
  | least a b => a.references ++ b.references
  | unit a => a.references
  | vector x y z => x.references ++ y.references ++ z.references
  | sample dim texture coords => .texture dim texture :: coords.references
  | curvePosition texture value => .helper texture :: value.references

def Statement.references : Statement P → List ShaderReference
  | declare _ _ => []
  | define _ _ value => value.references
  | assign _ value => value.references
  | yield _ => []

def LookupStep.references : LookupStep P → List ShaderReference
  | run statements => statements.flatMap Statement.references
  | choose branches => branches.flatMap fun b =>
    b.conditions.flatMap (fun c => c.high.references ++ c.low.references) ++
      b.statements.flatMap Statement.references

/-- What a lookup refers to in all of its steps and branches. -/
def TableLookup.references (t : TableLookup P) : List ShaderReference :=
  t.steps.flatMap LookupStep.references

/-- The dimensions of the textures of a kind of op. -/
def OpKind.textureDim? : OpKind → Option TextureDim
  | lut1D => some .two
  | lut3D => some .three
  | _ => none

variable [Scalar P] [Stored P] [Scalar S]

namespace OpData

variable {d : OpData P S} {s : ShaderSettings}

omit [Scalar P] [Stored P] in
theorem map_dim_image? : (d.image? s).map TextureImage.dim = d.kind.textureDim? := by
  cases d <;> rfl

/-- The code of an op without a table uses the language and the name of the pixel only. -/
theorem code_congr [Stored S] [Precision P S] (h : d.kind.textureDim? = none) {t : ShaderSettings}
    (hlanguage : t.language = s.language) (hpixel : t.pixelName = s.pixelName) (a b : String) :
    d.code t a = d.code s b := by
  cases d with
  | lut1D l => cases h
  | lut3D l => cases h
  | _ =>
    unfold code
    rw [hlanguage, hpixel]

end OpData

/-! ## What a program holds -/

/-- The texture shows the table of an op, and is found by the cache ID of the op. -/
def Texture.IsOf (s : ShaderSettings) (t : Texture S) (op : Op P S) : Prop :=
  t.source = op.cacheId ∧ op.data.image? s = some t.image

/-- The text of the helper function of a texture. -/
def Texture.IsHelper (s : ShaderSettings) (ops : Pipeline P S) (t : Texture S) (text : String) :
    Prop :=
  ∃ op ∈ ops, t.IsOf s op ∧ ∃ l, op.data = .lut1D l ∧
    text = (l.layout s).helperText P s.language t.name

theorem Texture.IsHelper.append {s : ShaderSettings} {ops : Pipeline P S} {t : Texture S}
    {text : String} (h : t.IsHelper s ops text) (op : Op P S) : t.IsHelper s (ops ++ [op]) text := by
  obtain ⟨o, ho, hof⟩ := h
  exact ⟨o, List.mem_append_left _ ho, hof⟩

namespace ShaderProgram

/-! ### The parts of a program -/

section Added

variable {S : Type} {q : ShaderProgram S} {code : String}

theorem textures_addBody : (q.addBody code).textures = q.textures := rfl

theorem declarations_addBody : (q.addBody code).declarations = q.declarations := rfl

theorem helpers_addBody : (q.addBody code).helpers = q.helpers := rfl

theorem body_addBody : (q.addBody code).body = q.body ++ code := rfl

theorem findTexture?_addBody {id : String} :
    (q.addBody code).findTexture? id = q.findTexture? id := rfl

end Added

section Registered

variable {q : ShaderProgram S} {source : String} {d : OpData P S} {image : TextureImage S}

theorem textures_register : (q.register d source image).textures = q.textures ++
    [⟨q.settings.textureName image.dim q.textures.length, source, image⟩] := rfl

theorem declarations_register : (q.register d source image).declarations = q.declarations ++
    Texture.declaration q.settings.language
      ⟨q.settings.textureName image.dim q.textures.length, source, image⟩ := rfl

theorem helpers_register : (q.register d source image).helpers = q.helpers ++
    (d.helper q.settings (q.settings.textureName image.dim q.textures.length)).text
      q.settings.language := rfl

theorem body_register : (q.register d source image).body = q.body := rfl

end Registered

theorem join_concat (texts : List String) (text : String) :
    String.join (texts ++ [text]) = String.join texts ++ text := by
  rw [String.join_append, String.join_cons, String.join_nil, String.append_empty]

variable [Stored S] [Precision P S]

theorem bodyText_addBody {q : ShaderProgram S} {code : String} :
    (q.addBody code).bodyText (P := P) = q.bodyText := rfl

/-- A program that some ops were added to. -/
structure Holds (s : ShaderSettings) (ops : Pipeline P S) (q : ShaderProgram S) : Prop where
  settings : q.settings = s
  /-- Textures are numbered as they are registered. -/
  names : q.textures.map Texture.name = q.textures.mapIdx fun i t => s.textureName t.image.dim i
  sources : (q.textures.map Texture.source).Nodup
  declarations : q.declarations = String.join (q.textures.map (Texture.declaration s.language))
  helpers : ∃ texts, q.helpers = String.join texts ∧
    List.Forall₂ (Texture.IsHelper s ops) (q.textures.filter fun t => t.image.dim = .two) texts
  body : q.body = String.join (ops.map q.bodyText)
  owned : ∀ t ∈ q.textures, ∃ op ∈ ops, t.IsOf s op
  complete : ∀ op ∈ ops, op.kind.textureDim?.isSome → (q.findTexture? op.cacheId).isSome

variable {s : ShaderSettings} {ops : Pipeline P S} {q : ShaderProgram S} {op : Op P S}

theorem holds_nothing (s : ShaderSettings) : Holds s ([] : Pipeline P S) { settings := s } where
  settings := rfl
  names := rfl
  sources := List.nodup_nil
  declarations := rfl
  helpers := ⟨[], rfl, .nil⟩
  body := rfl
  owned := nofun
  complete := nofun

/-! ### Known textures -/

theorem Holds.owned_append (h : Holds s ops q) (op : Op P S) :
    ∀ t ∈ q.textures, ∃ o ∈ ops ++ [op], t.IsOf s o := by
  intro t ht
  obtain ⟨o, ho, hof⟩ := h.owned t ht
  exact ⟨o, List.mem_append_left _ ho, hof⟩

/-- An op whose table is known adds its code and nothing else. -/
theorem Holds.addKnown (h : Holds s ops q)
    (hop : op.kind.textureDim?.isSome → (q.findTexture? op.cacheId).isSome) :
    Holds s (ops ++ [op]) (q.addBody (q.bodyText op)) where
  settings := h.settings
  names := h.names
  sources := h.sources
  declarations := h.declarations
  helpers := by
    obtain ⟨texts, htexts, hall⟩ := h.helpers
    exact ⟨texts, htexts, hall.imp fun _ _ ht => ht.append op⟩
  body := by
    rw [bodyText_addBody, List.map_append, List.map_singleton, join_concat, body_addBody, h.body]
  owned := h.owned_append op
  complete := by
    rw [List.forall_mem_append, List.forall_mem_singleton]
    exact ⟨h.complete, hop⟩

/-! ### New textures -/

section New

variable {image : TextureImage S}

/-- The text of the ops that are there stays. -/
theorem Holds.bodyText_register (h : Holds s ops q) {o : Op P S} (ho : o ∈ ops) :
    (q.register op.data op.cacheId image).bodyText o = q.bodyText o := by
  unfold bodyText
  by_cases hdim : o.kind.textureDim?.isSome
  · have hfound := h.complete o ho hdim
    obtain ⟨t, ht⟩ := Option.isSome_iff_exists.mp hfound
    have hname : (q.register op.data op.cacheId image).textureOf o.cacheId =
        q.textureOf o.cacheId := by
      unfold textureOf
      rw [findTexture?_register, ht, Option.some_or]
    rw [hname]
    rfl
  · rw [OpData.code_congr (Option.not_isSome_iff_eq_none.mp hdim) rfl rfl _
      (q.textureOf o.cacheId)]
    rfl

omit [Stored S] [Precision P S] in
/-- A texture of two dimensions comes with one helper function, any other with none. -/
theorem helpers_of_image (himage : op.data.image? s = some image) (hop : op ∈ ops)
    (name : String) :
    ∃ texts, (op.data.helper s name).text s.language = String.join texts ∧
      List.Forall₂ (Texture.IsHelper s ops)
        ([⟨name, op.cacheId, image⟩].filter fun t => t.image.dim = .two) texts := by
  rcases op with ⟨d, id⟩
  cases d with
  | lut1D l =>
    cases himage
    refine ⟨[_], ?_, .cons ⟨_, hop, ⟨rfl, rfl⟩, l, rfl, rfl⟩ .nil⟩
    rw [String.join_cons, String.join_nil, String.append_empty, ← CurveTexture.text_helper]
    rfl
  | lut3D l =>
    cases himage
    refine ⟨[], rfl, ?_⟩
    rw [List.filter_cons_of_neg (of_decide_eq_false rfl), List.filter_nil]
    exact .nil
  | _ => cases himage

/-- An op with a new table adds a texture, its declaration and its helper before the code. -/
theorem Holds.addNew (h : Holds s ops q) (himage : op.data.image? s = some image)
    (hnew : q.findTexture? op.cacheId = none) :
    Holds s (ops ++ [op]) ((q.register op.data op.cacheId image).addBody
      ((q.register op.data op.cacheId image).bodyText op)) where
  settings := h.settings
  names := by
    rw [textures_addBody, textures_register, List.map_append, List.mapIdx_append, h.names,
      h.settings]
    simp
  sources := by
    -- the cache ID is new, so no texture has it as its source yet
    rw [textures_addBody, textures_register, List.map_append, List.map_singleton, List.nodup_append]
    refine ⟨h.sources, List.nodup_singleton _, ?_⟩
    simp only [List.mem_map, List.mem_singleton]
    rintro _ ⟨t, ht, rfl⟩ _ rfl
    have hother := List.find?_eq_none.mp hnew t ht
    simpa using hother
  declarations := by
    rw [textures_addBody, declarations_addBody, textures_register, declarations_register,
      List.map_append, List.map_singleton, join_concat, ← h.declarations, h.settings]
  helpers := by
    obtain ⟨texts, htexts, hall⟩ := h.helpers
    obtain ⟨added, htext, hhelper⟩ := helpers_of_image himage
      (List.mem_append_right ops (List.mem_singleton_self op))
      (s.textureName image.dim q.textures.length)
    refine ⟨texts ++ added, ?_, ?_⟩
    · rw [helpers_addBody, helpers_register, h.settings, String.join_append, htexts, htext]
    · rw [textures_addBody, textures_register, List.filter_append, h.settings]
      exact List.rel_append (hall.imp fun _ _ ht => ht.append op) hhelper
  body := by
    rw [bodyText_addBody, List.map_append, List.map_singleton, join_concat, body_addBody,
      body_register, h.body]
    congr 2
    exact List.map_congr_left fun o ho => (h.bodyText_register ho).symm
  owned := by
    rw [textures_addBody, textures_register, List.forall_mem_append, List.forall_mem_singleton]
    exact ⟨h.owned_append op,
      op, List.mem_append_right _ (List.mem_singleton_self op), rfl, himage⟩
  complete := by
    rw [List.forall_mem_append, List.forall_mem_singleton]
    constructor
    · intro o ho hdim
      rw [findTexture?_addBody, findTexture?_register, Option.isSome_or, h.complete o ho hdim,
        Bool.true_or]
    · intro _
      rw [findTexture?_addBody, findTexture?_register, if_pos rfl, Option.isSome_or,
        Option.isSome_some, Bool.or_true]

end New

/-! ### Ops and pipelines -/

/-- One more op. Where its cache ID is not known, no op so far had the same table. -/
theorem Holds.plus (h : Holds s ops q) (op : Op P S) : Holds s (ops ++ [op]) (q.plus op) := by
  unfold ShaderProgram.plus
  have hkind := OpData.map_dim_image? (d := op.data) (s := s)
  rcases himage : op.data.image? s with _ | image
  · rw [withTable_of_none (by rw [h.settings, himage])]
    refine h.addKnown fun hdim => ?_
    change op.data.kind.textureDim?.isSome at hdim
    rw [← hkind, himage] at hdim
    cases hdim
  · rcases hfound : q.findTexture? op.cacheId with _ | t
    · rw [withTable_of_new (by rw [h.settings, himage]) hfound]
      exact h.addNew himage hfound
    · rw [withTable_of_found hfound]
      exact h.addKnown fun _ => Option.isSome_of_eq_some hfound

theorem Holds.foldl_plus (h : Holds s ops q) (more : Pipeline P S) :
    Holds s (ops ++ more) (more.foldl ShaderProgram.plus q) := by
  induction more generalizing ops q with
  | nil => rwa [List.append_nil]
  | cons op more ih =>
    have hall := ih (h.plus op)
    rwa [List.append_assoc, List.singleton_append] at hall

theorem Holds.withPipelineId (h : Holds s ops q) (id : String) :
    Holds s ops { q with pipelineId := id } :=
  ⟨h.settings, h.names, h.sources, h.declarations, h.helpers, h.body, h.owned, h.complete⟩

theorem Holds.withProcessor (h : Holds s ops q) (p : Processor P S) :
    Holds s (ops ++ p.ops) (q.withProcessor p) :=
  (h.withPipelineId p.cacheId).foldl_plus p.ops

theorem Holds.addPipelines {ps : List (Processor P S)} (h : Holds s ops q)
    (hps : ∀ p ∈ ps, p.Made) :
    ∃ next, (ps.foldlM addPipeline q : Except (OpError P) _) = .ok next ∧
      Holds s (ops ++ ps.flatMap Processor.ops) next := by
  induction ps generalizing ops q with
  | nil => exact ⟨q, rfl, by rwa [List.flatMap_nil, List.append_nil]⟩
  | cons p ps ih =>
    rw [List.forall_mem_cons] at hps
    obtain ⟨last, hlast, hall⟩ := ih (h.withProcessor p) hps.2
    refine ⟨last, ?_, ?_⟩
    · rw [List.foldlM_cons, addPipeline_eq q hps.1]
      exact hlast
    · rwa [List.append_assoc, ← List.flatMap_cons] at hall

/-! ### What follows -/

end ShaderProgram

/-! ## Programs of several processors -/

section Extracted

variable [Stored S] [Precision P S]

namespace ShaderProgram

variable {s : ShaderSettings} {ops : Pipeline P S} {q next : ShaderProgram S}

end ShaderProgram

end Extracted

section Witness

open scoped ColorPipeline.RealScalar

/-- A curve of two samples. -/
noncomputable def straightCurve : Op ℝ ℝ where
  data := .lut1D ⟨{ samples := #[Rgb.gray 0, Rgb.gray 1] }, .forward⟩

noncomputable def straightProcessor : Processor ℝ ℝ := ⟨[straightCurve.withId]⟩

theorem made_straightProcessor : straightProcessor.Made := by
  have hvalid : Pipeline.Valid [straightCurve] :=
    List.forall_mem_singleton.mpr
      ((Lut1DOp.validate_iff _).mpr ⟨by decide, fun _ _ => rfl, nofun⟩)
  exact Processor.made_of_valid (List.forall_mem_singleton.mpr (.new _)) hvalid

end Witness

end ColorPipeline
