-- What an op adds to a shader program: its code, and for an op with a table the texture that
-- the code reads. The table of an inverse op is made for the purpose, which always goes well.
import ColorPipeline.Proofs.Processors
import ColorPipeline.Proofs.WrittenCode
import Mathlib

open scoped ColorPipeline.Scalar

namespace ColorPipeline

variable {P S : Type} [Scalar P] [Stored P] [Scalar S]

/-! ## Tables -/

/-- The samples of the inverse curves. -/
def Lut1D.inverseCurves (lut : Lut1D S) (size : Nat) : Lut1D S where
  samples := Array.ofFn (n := size) fun i => lut.applyInverse (Rgb.gray (gridPoint size i))

theorem Lut1D.bakeInverse_eq (lut : Lut1D S) {size : Nat} (h : 2 ≤ size) :
    lut.bakeInverse size = .ok (lut.inverseCurves size) :=
  ofFn_eq_ok _ h

namespace Lut1DOp

/-- The table that a shader looks up. -/
def table (l : Lut1DOp S) : Lut1D S :=
  match l.direction with
  | .forward => l.lut
  | .inverse => l.lut.inverseCurves bakedSize

omit [Scalar P] [Stored P] in
theorem shaderTable_eq (l : Lut1DOp S) :
    (l.shaderTable : Except (OpError P) (Lut1D S)) = .ok l.table := by
  have hbaked := @Lut1D.bakeInverse_eq _ _ l.lut bakedSize (by decide)
  unfold shaderTable table
  rcases hd : l.direction with _ | _
  · rfl
  · -- The samples are not to be computed, so the baked table is a variable.
    generalize l.lut.bakeInverse bakedSize = baked at hbaked
    subst hbaked
    with_reducible rfl

/-- How the table of an op is laid out in a texture. -/
def layout (l : Lut1DOp S) (s : ShaderSettings) : CurveTexture := curveTexture l.table s.maxWidth

end Lut1DOp

/-! ## Textures -/

/-- What textures of tables are called, by their dimensions. -/
def TextureDim.stem : TextureDim → String
  | two => "lut1d"
  | three => "lut3d"

/-- The name of the texture that comes after a number of others. -/
def ShaderSettings.textureName (s : ShaderSettings) (dim : TextureDim) (count : Nat) : String :=
  s!"{s.resourceName}_{dim.stem}_{count}"

/-- The text that declares a texture: its type and its name, and those of a sampler where the
language has one. -/
def Texture.declaration (l : ShaderLanguage) (t : Texture S) : String :=
  s!"{l.textureType t.image.dim} {t.name};" ++ "\n" ++
    if l.isGlsl then "" else s!"SamplerState {t.name}Sampler;" ++ "\n"

namespace OpData

/-- The texture that the code of an op with a table reads. -/
def image? (s : ShaderSettings) : OpData P S → Option (TextureImage S)
  | lut1D l => some (Lut1DOp.textureImage l.table (l.layout s))
  | lut3D l => some (Lut3DOp.textureImage l.evaluatedGrid)
  | _ => none

/-- The helper function that goes with a texture of some name. -/
def helper (s : ShaderSettings) (texture : String) : OpData P S → Code
  | lut1D l => (l.layout s).helper (P := P) s.language texture
  | _ => .nothing

variable [Stored S] [Precision P S]

/-- The code of an op. Where the op has a table, the texture has the name `texture`. -/
def code (s : ShaderSettings) (texture : String) : OpData P S → Code
  | matrix m => m.code s.language s.pixelName
  | range r => r.code s.language s.pixelName
  | exponent e => e.code s.language s.pixelName
  | log l => l.code s.language s.pixelName
  | lut1D _ => CurveTexture.lookup P s.language texture s.pixelName
  | lut3D l =>
    GridTexture.lookup P s.language l.evaluatedGrid.interpolation.onGrid l.evaluatedGrid.size
      texture s.pixelName
  | fixedFunction f => f.code S s.language s.pixelName

end OpData

/-! ## Adding an op -/

namespace ShaderProgram

/-- The program with the texture and the helper function of a new table. -/
def register (q : ShaderProgram S) (d : OpData P S) (source : String) (image : TextureImage S) :
    ShaderProgram S :=
  let t : Texture S := ⟨q.settings.textureName image.dim q.textures.length, source, image⟩
  { q with
    declarations := q.declarations ++ t.declaration q.settings.language
    helpers := q.helpers ++ (d.helper q.settings t.name).text q.settings.language
    textures := q.textures ++ [t] }

/-- The program with the table of an op, if that is new. -/
def withTable (q : ShaderProgram S) (op : Op P S) : ShaderProgram S :=
  match op.data.image? q.settings with
  | none => q
  | some image =>
    if (q.findTexture? op.cacheId).isSome then q else q.register op.data op.cacheId image

/-- The name of the texture for a cache ID. -/
def textureOf (q : ShaderProgram S) (source : String) : String :=
  ((q.findTexture? source).map Texture.name).getD ""

section Registered

variable {d : OpData P S} {q : ShaderProgram S} {source : String} {image : TextureImage S}
  {op : Op P S}

theorem findTexture?_register (id : String) : (q.register d source image).findTexture? id =
    (q.findTexture? id).or (if source = id then
      some ⟨q.settings.textureName image.dim q.textures.length, source, image⟩ else none) := by
  unfold findTexture?
  change (q.textures ++ [_]).find? _ = _
  rw [List.find?_append]
  congr 1
  by_cases hid : source = id
  · simp [hid]
  · simp [hid]

/-- A new texture is named by the number of those before it. -/
theorem textureOf_register (h : q.findTexture? source = none) :
    (q.register d source image).textureOf source =
      q.settings.textureName image.dim q.textures.length := by
  unfold textureOf
  rw [findTexture?_register, h, if_pos rfl]
  rfl

omit [Scalar S] in
theorem textureOf_of_found {t : Texture S} (h : q.findTexture? source = some t) :
    q.textureOf source = t.name := by
  unfold textureOf
  rw [h]
  rfl

theorem withTable_of_none (h : op.data.image? q.settings = none) : q.withTable op = q := by
  unfold withTable
  rw [h]

theorem withTable_of_found {t : Texture S} (ht : q.findTexture? op.cacheId = some t) :
    q.withTable op = q := by
  unfold withTable
  rw [ht]
  cases op.data.image? q.settings <;> rfl

theorem withTable_of_new (h : op.data.image? q.settings = some image)
    (ht : q.findTexture? op.cacheId = none) :
    q.withTable op = q.register op.data op.cacheId image := by
  unfold withTable
  rw [h, ht]
  rfl

theorem settings_withTable (q : ShaderProgram S) (op : Op P S) :
    (q.withTable op).settings = q.settings := by
  unfold withTable
  split
  · rfl
  · split <;> rfl

theorem pipelineId_withTable (q : ShaderProgram S) (op : Op P S) :
    (q.withTable op).pipelineId = q.pipelineId := by
  unfold withTable
  split
  · rfl
  · split <;> rfl

end Registered

end ShaderProgram

variable [Stored S] [Precision P S] {d : OpData P S} {q : ShaderProgram S} {source : String}

/-- An op without a table adds code and nothing else. -/
theorem OpData.emit_of_image?_eq_none (h : d.image? q.settings = none) (texture : String) :
    d.emit q source = .ok (d.code q.settings texture, q) := by
  cases d with
  | lut1D l => cases h
  | lut3D l => cases h
  | _ => rfl

/-- A table whose cache ID is known uses the texture that is there. -/
theorem OpData.emit_of_found {image : TextureImage S} {t : Texture S}
    (hvalid : d.validate = .ok ()) (h : d.image? q.settings = some image)
    (ht : q.findTexture? source = some t) :
    d.emit q source = .ok (d.code q.settings t.name, q) := by
  cases d with
  | lut1D l =>
    change (l.validate : Except (OpError P) Unit) = .ok () at hvalid
    unfold emit Lut1DOp.emit ShaderProgram.addTexture
    simp only [hvalid, l.shaderTable_eq, ht, bind, Except.bind]
    rfl
  | lut3D l =>
    change (l.validate : Except (OpError P) Unit) = .ok () at hvalid
    unfold emit Lut3DOp.emit ShaderProgram.addTexture
    simp only [hvalid, ht, bind, Except.bind]
    rfl
  | _ => cases h

/-- A table whose cache ID is new brings its texture and its helper function. -/
theorem OpData.emit_of_not_found {image : TextureImage S} (hvalid : d.validate = .ok ())
    (h : d.image? q.settings = some image) (ht : q.findTexture? source = none) :
    d.emit q source =
      .ok (d.code q.settings (q.settings.textureName image.dim q.textures.length),
        q.register d source image) := by
  cases d with
  | lut1D l =>
    obtain rfl := Option.some.inj h
    change (l.validate : Except (OpError P) Unit) = .ok () at hvalid
    unfold emit Lut1DOp.emit ShaderProgram.addTexture
    simp only [hvalid, l.shaderTable_eq, ht, bind, Except.bind, ShaderText.text_declare]
    rfl
  | lut3D l =>
    obtain rfl := Option.some.inj h
    change (l.validate : Except (OpError P) Unit) = .ok () at hvalid
    unfold emit Lut3DOp.emit ShaderProgram.addTexture
    have hhelpers : ∀ name, q.helpers ++
        (helper q.settings name (lut3D l : OpData P S)).text q.settings.language = q.helpers :=
      fun _ => String.append_empty
    simp only [hvalid, ht, bind, Except.bind, ShaderProgram.register, hhelpers,
      ShaderText.text_declare]
    rfl
  | _ => cases h

namespace ShaderProgram

/-- The text of an op in the function, where the program has its texture. -/
def bodyText (q : ShaderProgram S) (op : Op P S) : String :=
  (Code.indented (op.data.code q.settings (q.textureOf op.cacheId))).text q.settings.language

/-- The program with one more op. -/
def plus (q : ShaderProgram S) (op : Op P S) : ShaderProgram S :=
  (q.withTable op).addBody ((q.withTable op).bodyText op)

theorem settings_plus (q : ShaderProgram S) (op : Op P S) : (q.plus op).settings = q.settings :=
  settings_withTable q op

theorem settings_foldl_plus (q : ShaderProgram S) (ops : Pipeline P S) :
    (ops.foldl plus q).settings = q.settings := by
  induction ops generalizing q with
  | nil => rfl
  | cons op ops ih => exact (ih (q.plus op)).trans (settings_plus q op)

theorem pipelineId_foldl_plus (q : ShaderProgram S) (ops : Pipeline P S) :
    (ops.foldl plus q).pipelineId = q.pipelineId := by
  induction ops generalizing q with
  | nil => rfl
  | cons op ops ih => exact (ih (q.plus op)).trans (pipelineId_withTable q op)

variable {op : Op P S}

/-- A finalized op is always added. -/
theorem addOp_eq (q : ShaderProgram S) (hop : op.Reachable) (hid : op.isFinalized) :
    q.addOp op = .ok (q.plus op) := by
  have hvalid := (hop.of_isFinalized hid).1
  have hemit : op.data.emit q op.cacheId =
      .ok (op.data.code q.settings ((q.withTable op).textureOf op.cacheId), q.withTable op) := by
    rcases himage : op.data.image? q.settings with _ | image
    · rw [withTable_of_none himage]
      exact OpData.emit_of_image?_eq_none himage _
    · rcases hfound : q.findTexture? op.cacheId with _ | t
      · rw [withTable_of_new himage hfound, textureOf_register hfound]
        exact OpData.emit_of_not_found hvalid himage hfound
      · rw [withTable_of_found hfound, textureOf_of_found hfound]
        exact OpData.emit_of_found hvalid himage hfound
  unfold addOp Op.requireFinalized plus bodyText
  rw [if_pos hid, hemit, settings_withTable]
  rfl

/-- Ops that are ready are added one by one, and none of them fails. -/
theorem addOps_eq {ops : Pipeline P S} (hops : ∀ op ∈ ops, op.Reachable ∧ op.isFinalized) :
    q.addOps ops = .ok (ops.foldl plus q) := by
  unfold addOps
  induction ops generalizing q with
  | nil => rfl
  | cons op ops ih =>
    rw [List.forall_mem_cons] at hops
    rw [List.foldlM_cons, addOp_eq q hops.1.1 hops.1.2, List.foldl_cons]
    exact ih hops.2

end ShaderProgram

/-! ## Processors -/

section Processors

omit [Stored S]

/-- A processor that was made of ops that there can be. -/
def Processor.Made (p : Processor P S) : Prop :=
  ∃ ops flags, (∀ op ∈ ops, op.Reachable) ∧ ofOps ops flags = .ok p

omit [Scalar P] [Stored P] in
theorem Attempt.reached_of_toExcept {α : Type} {a : Attempt P α} {x : α}
    (h : a.toExcept = .ok x) : a.reached = x := by
  unfold toExcept at h
  split at h
  · exact Except.ok.inj h
  · cases h

/-- Without simplifications, well-formed ops make a processor of themselves. -/
theorem Processor.made_of_valid {ops : Pipeline P S} (hops : ∀ op ∈ ops, op.Reachable)
    (hvalid : ops.Valid) : Processor.Made ⟨ops.map Op.withId⟩ :=
  ⟨ops, .none, hops, ofOps_none_eq hops hvalid⟩

/-- A processor has the ops that the optimizer leaves of the finalized ones, finalized too. -/
theorem Processor.ops_eq_of_ofOps {ops : Pipeline P S} {flags : OptimizationFlags}
    {p : Processor P S} (hops : ∀ op ∈ ops, op.Reachable) (hp : ofOps ops flags = .ok p) :
    let left := (Pipeline.optimize flags (ops.map Op.withId)).reached
    (∀ op ∈ left, op.Reachable) ∧ left.Valid ∧ p.ops = left.map Op.withId := by
  unfold ofOps at hp
  obtain ⟨checked, hchecked, hp⟩ := exists_of_bind_eq_ok hp
  obtain ⟨left, hleft, hp⟩ := exists_of_bind_eq_ok hp
  obtain ⟨finished, hfinished, hp⟩ := exists_of_bind_eq_ok hp
  cases hp
  obtain ⟨hvalid, rfl⟩ := (Pipeline.finalize_eq_iff hops).mp hchecked
  have hreachable := (Pipeline.optimize_steps flags (ops.map Op.withId)).reachable
    (Pipeline.reachable_map_withId hops hvalid)
  rw [Attempt.reached_of_toExcept hleft] at hreachable ⊢
  exact ⟨hreachable, (Pipeline.finalize_eq_iff hreachable).mp hfinished⟩

/-- All ops of a processor are finalized. -/
theorem Processor.Made.ops {p : Processor P S} (h : p.Made) :
    ∀ op ∈ p.ops, op.Reachable ∧ op.isFinalized := by
  obtain ⟨ops, flags, hops, hp⟩ := h
  obtain ⟨hreachable, hvalid, hp⟩ := ops_eq_of_ofOps hops hp
  intro op hop
  rw [hp] at hop
  refine ⟨Pipeline.reachable_map_withId hreachable hvalid op hop, ?_⟩
  obtain ⟨old, _, rfl⟩ := List.mem_map.mp hop
  rfl

theorem Processor.Made.valid {p : Processor P S} (h : p.Made) :
    ∀ op ∈ p.ops, op.data.validate = .ok () := fun op hop =>
  ((h.ops op hop).1.of_isFinalized (h.ops op hop).2).1

end Processors

/-- The program with all ops of a processor. -/
def ShaderProgram.withProcessor (q : ShaderProgram S) (p : Processor P S) : ShaderProgram S :=
  p.ops.foldl plus { q with pipelineId := p.cacheId }

theorem ShaderProgram.settings_withProcessor (q : ShaderProgram S) (p : Processor P S) :
    (q.withProcessor p).settings = q.settings :=
  settings_foldl_plus _ p.ops

theorem ShaderProgram.pipelineId_withProcessor (q : ShaderProgram S) (p : Processor P S) :
    (q.withProcessor p).pipelineId = p.cacheId :=
  pipelineId_foldl_plus _ p.ops

/-- Extracting a processor adds its ops and then its ID. -/
theorem ShaderProgram.addPipeline_eq (q : ShaderProgram S) {p : Processor P S} (hp : p.Made) :
    q.addPipeline p = .ok (q.withProcessor p) :=
  addOps_eq hp.ops

end ColorPipeline
