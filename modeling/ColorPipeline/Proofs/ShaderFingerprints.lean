-- Shader programs with the same cache ID. The ID tells the names in a program and the ops of
-- its processor, so two such programs are made of the same parts. It does not tell how wide a
-- texture may be, on which the textures of curves and their helper functions depend.
import ColorPipeline.Proofs.MachineZeros
import ColorPipeline.Proofs.SharedTextures
import ColorPipeline.Proofs.SignlessCode

open scoped ColorPipeline.Scalar

namespace ColorPipeline

/-! ## What a cache ID tells -/

namespace ShaderSettings

/-- Settings that differ in the width of textures at most. -/
structure SameNames (s t : ShaderSettings) : Prop where
  language : s.language = t.language
  functionName : s.functionName = t.functionName
  pixelName : s.pixelName = t.pixelName
  resourceName : s.resourceName = t.resourceName

/-- Names that do not run into the one after them in a cache ID. -/
structure Spaceless (s : ShaderSettings) : Prop where
  functionName : ' ' ∉ s.functionName.toList
  pixelName : ' ' ∉ s.pixelName.toList

theorem SameNames.textureName_eq {s t : ShaderSettings} (h : s.SameNames t) (dim : TextureDim)
    (count : Nat) : s.textureName dim count = t.textureName dim count := by
  unfold textureName
  rw [h.resourceName]

end ShaderSettings

theorem ShaderLanguage.isWord_name (l : ShaderLanguage) : IsWord l.name := by
  cases l <;> decide

theorem ShaderLanguage.name_inj {l l' : ShaderLanguage} (h : l.name = l'.name) : l = l' := by
  have hname := congrArg ofName? h
  rw [ofName?_name, ofName?_name] at hname
  exact Option.some.inj hname

section Identifiers

variable {P S : Type} [Scalar P] [Scalar S] [Stored P] [Precision P S]

/-- The opening bracket shows where the ID of a pipeline begins at the end of a text. -/
theorem Pipeline.append_cacheId_inj {xs ys : Pipeline P S}
    (hxs : ∀ op ∈ xs, op.Reachable ∧ op.isFinalized)
    (hys : ∀ op ∈ ys, op.Reachable ∧ op.isFinalized) {a b : String}
    (h : a ++ (" " ++ xs.cacheId) = b ++ (" " ++ ys.cacheId)) :
    a = b ∧ xs.cacheId = ys.cacheId := by
  have hsquare : ∀ {ops : Pipeline P S}, (∀ op ∈ ops, op.Reachable ∧ op.isFinalized) →
      '[' ∉ (" ".intercalate (ops.map Op.cacheId)).toList ++ [']'] := by
    intro ops hops
    rw [List.mem_append, not_or]
    exact ⟨square_notMem_intercalate (isBracketed_ids hops), by decide⟩
  have hcut : ∀ (t : String) (ops : Pipeline P S), (t ++ (" " ++ ops.cacheId)).toList =
      (t.toList ++ [' ']) ++ '[' :: ((" ".intercalate (ops.map Op.cacheId)).toList ++ [']']) := by
    intro t ops
    unfold cacheId
    simp only [String.toList_append, List.append_assoc]
    rfl
  have hlist := congrArg String.toList h
  rw [hcut, hcut] at hlist
  obtain ⟨hfront, hids⟩ := append_cons_inj_right (hsquare hxs) (hsquare hys) hlist
  refine ⟨String.toList_inj.mp (List.append_cancel_right hfront), ?_⟩
  unfold cacheId
  rw [String.toList_inj.mp (List.append_cancel_right hids)]

/-- Programs with the same ID have the same names, and their pipelines the same ID. -/
theorem ShaderProgram.names_of_cacheId {q r : ShaderProgram S} {xs ys : Pipeline P S}
    (hxs : ∀ op ∈ xs, op.Reachable ∧ op.isFinalized)
    (hys : ∀ op ∈ ys, op.Reachable ∧ op.isFinalized) (hq : q.pipelineId = xs.cacheId)
    (hr : r.pipelineId = ys.cacheId) (hs : q.settings.Spaceless) (ht : r.settings.Spaceless)
    (h : q.cacheId = r.cacheId) :
    q.settings.SameNames r.settings ∧ xs.cacheId = ys.cacheId := by
  have hcut : ∀ p : ShaderProgram S, p.cacheId = p.settings.language.name ++ (" " ++
      (p.settings.functionName ++ (" " ++ (p.settings.pixelName ++ (" " ++
        (p.settings.resourceName ++ (" " ++ p.pipelineId))))))) := by
    intro p
    change " ".intercalate [_, _, _, _, _] = _
    simp only [String.intercalate_cons_cons, String.intercalate_singleton, String.append_assoc]
  rw [hcut, hcut, word_eq_iff q.settings.language.isWord_name r.settings.language.isWord_name,
    spaced_eq_iff hs.functionName ht.functionName, spaced_eq_iff hs.pixelName ht.pixelName,
    hq, hr] at h
  obtain ⟨hlanguage, hfunction, hpixel, hrest⟩ := h
  obtain ⟨hresource, hid⟩ := Pipeline.append_cacheId_inj hxs hys hrest
  exact ⟨⟨ShaderLanguage.name_inj hlanguage, hfunction, hpixel, hresource⟩, hid⟩

end Identifiers

/-! ## Programs made of the same parts -/

/-- Textures that differ in the signs of zeros at most. -/
structure Texture.Alike {S : Type} [Scalar S] (t u : Texture S) : Prop where
  name : t.name = u.name
  source : t.source = u.source
  image : t.image.Alike u.image

/-- The texture of a curve is as wide as its table and the settings let it be. -/
theorem Texture.IsOf.width_eq {P S : Type} [Scalar P] [Scalar S] [PlainSums S] {s : ShaderSettings}
    {t : Texture S} {op : Op P S} (h : t.IsOf s op) {l : Lut1DOp S}
    (hsame : (OpData.lut1D l).Same op.data)
    (hl : (OpData.lut1D l : OpData P S).validate = .ok ()) :
    t.image.width = min l.table.size s.maxWidth := by
  have himage := h.2
  generalize op.data = d at hsame himage
  cases d with
  | lut1D m =>
    have htable := Lut1DOp.Same.table hsame ((Lut1DOp.validate_iff l).mp hl).2.1
    rw [← Option.some.inj himage, htable.size]
    rfl
  | _ => cases hsame

namespace ShaderProgram

variable {P S : Type} [Scalar P] [Scalar S] [Stored P]

/-- The same text, and the same textures up to the signs of zeros. -/
structure SameOutput (q r : ShaderProgram S) : Prop where
  text : q.text = r.text
  textures : List.Forall₂ Texture.Alike q.textures r.textures

/-- Programs with the same parts so far. -/
structure Alike (q r : ShaderProgram S) : Prop where
  names : q.settings.SameNames r.settings
  declarations : q.declarations = r.declarations
  helpers : q.helpers = r.helpers
  body : q.body = r.body
  textures : List.Forall₂ Texture.Alike q.textures r.textures

variable {q r : ShaderProgram S}

theorem Alike.sameOutput (h : q.Alike r) : q.SameOutput r where
  text := by
    unfold text opening closing signature
    rw [h.names.language, h.names.functionName, h.names.pixelName, h.declarations, h.helpers,
      h.body]
  textures := h.textures

theorem findTexture?_alike (htextures : List.Forall₂ Texture.Alike q.textures r.textures)
    (source : String) :
    Option.Rel Texture.Alike (q.findTexture? source) (r.findTexture? source) := by
  unfold ShaderProgram.findTexture?
  generalize q.textures = ts at htextures ⊢
  generalize r.textures = us at htextures ⊢
  induction htextures with
  | nil => exact .none
  | @cons t u _ _ hfirst _ ih =>
    rw [List.find?_cons, List.find?_cons, hfirst.source]
    cases u.source == source
    · exact ih
    · exact .some hfirst

theorem Alike.textureOf_eq (h : q.Alike r) (source : String) :
    q.textureOf source = r.textureOf source := by
  have hfound := findTexture?_alike h.textures source
  unfold textureOf
  generalize q.findTexture? source = x at hfound ⊢
  generalize r.findTexture? source = y at hfound ⊢
  cases hfound with
  | none => rfl
  | some ht => exact ht.name

theorem Alike.addBody (h : q.Alike r) {code code' : String} (hcode : code = code') :
    (q.addBody code).Alike (r.addBody code') where
  names := h.names
  declarations := h.declarations
  helpers := h.helpers
  body := congrArg₂ (· ++ ·) h.body hcode
  textures := h.textures

variable [PlainSums S]

/-- Ops with the same parameters, up to the signs of zeros, and the same ID. -/
structure Matches (a b : Op P S) : Prop where
  cacheId : a.cacheId = b.cacheId
  valid : a.data.validate = .ok ()
  data : a.data.Same b.data

variable {a b : Op P S}

theorem Alike.register (h : q.Alike r) (hops : Matches a b)
    (hwidth : a.data.SameWidth q.settings r.settings) {image image' : TextureImage S}
    (himage : image.Alike image') :
    (q.register a.data a.cacheId image).Alike (r.register b.data b.cacheId image') := by
  have hname : q.settings.textureName image.dim q.textures.length =
      r.settings.textureName image'.dim r.textures.length := by
    rw [h.names.textureName_eq, himage.dim, h.textures.length_eq]
  constructor
  · exact h.names
  · rw [declarations_register, declarations_register, h.declarations]
    unfold Texture.declaration
    rw [h.names.language, hname, himage.dim]
  · rw [helpers_register, helpers_register, h.helpers, hname,
      hops.data.helper_eq hops.valid hwidth h.names.language, h.names.language]
  · exact h.body
  · exact List.rel_append h.textures (.cons ⟨hname, hops.cacheId, himage⟩ .nil)

theorem Alike.withTable (h : q.Alike r) (hops : Matches a b)
    (hwidth : a.data.SameWidth q.settings r.settings) : (q.withTable a).Alike (r.withTable b) := by
  have himages := hops.data.image? hops.valid hwidth
  have hfound := findTexture?_alike h.textures a.cacheId
  unfold ShaderProgram.withTable
  rw [← hops.cacheId]
  generalize a.data.image? q.settings = x at himages ⊢
  generalize b.data.image? r.settings = y at himages ⊢
  cases himages with
  | none => exact h
  | some himage =>
    dsimp only
    generalize q.findTexture? a.cacheId = x at hfound ⊢
    generalize r.findTexture? a.cacheId = y at hfound ⊢
    cases hfound with
    | none => exact hops.cacheId ▸ h.register hops hwidth himage
    | some _ => exact h

variable [Stored S] [Precision P S]

section Run

variable [SignlessZeros P]

/-- Ops that match add the same. -/
theorem Alike.plus (h : q.Alike r) (hops : Matches a b)
    (hwidth : a.data.SameWidth q.settings r.settings) : (q.plus a).Alike (r.plus b) := by
  have htable := h.withTable hops hwidth
  refine htable.addBody ?_
  unfold bodyText
  rw [hops.data.code_eq hops.valid htable.names.language htable.names.pixelName,
    htable.textureOf_eq, hops.cacheId, htable.names.language]

/-- Programs that are alike stay alike through ops of the same parameters. -/
theorem Alike.foldl_plus (h : q.Alike r) {xs ys : Pipeline P S}
    (hops : List.Forall₂ Matches xs ys)
    (hwidth : ∀ op ∈ xs, op.data.SameWidth q.settings r.settings) :
    (xs.foldl ShaderProgram.plus q).Alike (ys.foldl ShaderProgram.plus r) := by
  induction hops generalizing q r with
  | nil => exact h
  | cons hfirst _ ih =>
    rw [List.forall_mem_cons] at hwidth
    refine ih (h.plus hfirst hwidth.1) ?_
    rw [settings_plus, settings_plus]
    exact hwidth.2

end Run

/-! ## The width of textures -/

/-- Equal IDs of ops mean equal parameters, up to the signs of zeros. -/
def IdsTell (ops : Pipeline P S) : Prop :=
  ∀ a ∈ ops, ∀ b ∈ ops, a.cacheId = b.cacheId → a.data.Same b.data

/-- Textures that are alike show curves of the same width. -/
theorem Holds.sameWidth {s t : ShaderSettings} {xs ys : Pipeline P S} (hq : Holds s xs q)
    (hr : Holds t ys r) (hids : IdsTell (xs ++ ys))
    (hxs : ∀ op ∈ xs, op.data.validate = .ok ())
    (htextures : List.Forall₂ Texture.Alike q.textures r.textures) :
    ∀ op ∈ xs, op.data.SameWidth s t := by
  intro op hop
  have hvalid := hxs op hop
  cases hdata : op.data with
  | lut1D l =>
    rw [hdata] at hvalid
    have hwidth : ∀ {w : ShaderSettings} {ops : Pipeline P S} {p : ShaderProgram S}
        {u : Texture S}, Holds w ops p → ops ⊆ xs ++ ys → p.findTexture? op.cacheId = some u →
        u.image.width = min l.table.size w.maxWidth := by
      intro w ops p u hp hsub hu
      obtain ⟨o, ho, hof⟩ := hp.owned u (List.mem_of_find?_eq_some hu)
      have hsource : u.source = op.cacheId := by simpa using List.find?_some hu
      have hsame := hids op (List.mem_append_left _ hop) o (hsub ho) (hsource ▸ hof.1)
      exact hof.width_eq (hdata ▸ hsame) hvalid
    obtain ⟨u, hu⟩ := Option.isSome_iff_exists.mp
      (hq.complete op hop (by rw [Op.kind, hdata]; rfl))
    have hfound := findTexture?_alike htextures op.cacheId
    rw [hu] at hfound
    generalize hv : r.findTexture? op.cacheId = found at hfound
    cases hfound with
    | some halike =>
      change min _ _ = min _ _
      rw [← hwidth hq (List.subset_append_left _ _) hu, halike.image.width,
        hwidth hr (List.subset_append_right _ _) hv]
  | _ => trivial

/-! ## Programs of one processor -/

omit [PlainSums S] in
/-- The ID of a program is made of its names and the ID of the processor. -/
theorem cacheId_withProcessor {s t : ShaderSettings} (h : s.SameNames t) {p q : Processor P S}
    (hid : p.cacheId = q.cacheId) :
    (({ settings := s } : ShaderProgram S).withProcessor p).cacheId =
      (({ settings := t } : ShaderProgram S).withProcessor q).cacheId := by
  unfold ShaderProgram.cacheId
  rw [settings_withProcessor, settings_withProcessor, pipelineId_withProcessor,
    pipelineId_withProcessor, h.language, h.functionName, h.pixelName, h.resourceName, hid]

/-- Two programs of a processor each, with any settings. Where equal IDs of ops mean equal
parameters up to the signs of zeros, and no name runs into the next one, programs with the same
ID are the same exactly if every curve fills a texture of the same width in both. -/
theorem programs_with_one_id_are_the_same_iff [SignlessZeros P] {p q : Processor P S}
    (hp : p.Made) (hq : q.Made) {s t : ShaderSettings} (hs : s.Spaceless) (ht : t.Spaceless)
    (hids : IdsTell (p.ops ++ q.ops)) :
    ∃ a b : ShaderProgram S, ({ settings := s } : ShaderProgram S).addPipeline p = .ok a ∧
      ({ settings := t } : ShaderProgram S).addPipeline q = .ok b ∧
      (a.cacheId = b.cacheId → (a.SameOutput b ↔ ∀ op ∈ p.ops, op.data.SameWidth s t)) := by
  refine ⟨_, _, addPipeline_eq _ hp, addPipeline_eq _ hq, fun hid => ?_⟩
  obtain ⟨hnames, hpipelines⟩ := names_of_cacheId hp.ops hq.ops (pipelineId_withProcessor _ _)
    (pipelineId_withProcessor _ _) (by rwa [settings_withProcessor])
    (by rwa [settings_withProcessor]) hid
  rw [settings_withProcessor, settings_withProcessor] at hnames
  have hmatches : ∀ a ∈ p.ops, ∀ b ∈ q.ops, (a.cacheId = b.cacheId ↔ Matches a b) := by
    intro a ha b hb
    refine ⟨fun heq => ⟨heq, hp.valid a ha, ?_⟩, Matches.cacheId⟩
    exact hids a (List.mem_append_left _ ha) b (List.mem_append_right _ hb) heq
  have hops : List.Forall₂ Matches p.ops q.ops := by
    have hall := Pipeline.map_cacheId_of_cacheId hp.ops hq.ops hpipelines
    rw [← List.forall₂_eq_eq_eq, List.forall₂_map_left_iff, List.forall₂_map_right_iff] at hall
    exact (Pipeline.forall₂_iff_of_mem hmatches).mp hall
  constructor
  · intro hsame
    exact ((holds_nothing s).withProcessor p).sameWidth ((holds_nothing t).withProcessor q) hids
      hp.valid hsame.textures
  · intro hwidth
    have hstart : ShaderProgram.Alike
        ({ settings := s, pipelineId := p.cacheId } : ShaderProgram S)
        { settings := t, pipelineId := q.cacheId } := ⟨hnames, rfl, rfl, rfl, .nil⟩
    exact (hstart.foldl_plus hops hwidth).sameOutput

end ShaderProgram

section Witness

/-- A processor of one curve. -/
def curveProcessor (samples : Array (Rgb Float32)) : Processor Float Float32 :=
  ⟨[Op.withId { data := .lut1D ⟨{ samples }, .forward⟩ }]⟩

theorem made_curveProcessor (samples : Array (Rgb Float32))
    (h : (OpData.lut1D ⟨{ samples }, .forward⟩ : OpData Float Float32).validate.isOk) :
    (curveProcessor samples).Made :=
  Processor.made_of_valid (List.forall_mem_singleton.mpr (.new _))
    (List.forall_mem_singleton.mpr (eq_ok_of_isOk h))

/-- Curves of the same numbers have the same ID. -/
theorem cacheId_curveProcessor {xs ys : Array (Rgb Float32)}
    (h : SameNumbers (tableNumbers xs) (tableNumbers ys)) :
    (curveProcessor xs).cacheId = (curveProcessor ys).cacheId := by
  have hdigest : tableDigest Float xs = tableDigest Float ys :=
    congrArg Sha256.hex (Fingerprint.message_of_sameNumbers LawfulPatterns.sample h)
  have hid : Op.finalId (.lut1D ⟨{ samples := xs }, .forward⟩ : OpData Float Float32) =
      Op.finalId (.lut1D ⟨{ samples := ys }, .forward⟩ : OpData Float Float32) := by
    unfold Op.finalId OpData.cacheId Lut1DOp.cacheId
    dsimp only
    rw [hdigest]
    rfl
  exact congrArg (fun id => "[" ++ " ".intercalate [id] ++ "]") hid

theorem idsTell_curveProcessor (xs ys : Array (Rgb Float32))
    (h : ∀ us ∈ [xs, ys], ∀ vs ∈ [xs, ys], SameNumbers (tableNumbers us) (tableNumbers vs)) :
    ShaderProgram.IdsTell ((curveProcessor xs).ops ++ (curveProcessor ys).ops) := by
  have hops : (curveProcessor xs).ops ++ (curveProcessor ys).ops = [xs, ys].map fun us =>
      Op.withId { data := .lut1D ⟨{ samples := us }, .forward⟩ } := rfl
  intro a ha b hb _
  rw [hops] at ha hb
  obtain ⟨us, hus, rfl⟩ := List.mem_map.mp ha
  obtain ⟨vs, hvs, rfl⟩ := List.mem_map.mp hb
  exact ⟨h us hus vs hvs, rfl, rfl⟩

theorem sameNames_default {width width' : Nat} (h : 2 ≤ width) (h' : 2 ≤ width') :
    ShaderSettings.SameNames { maxWidth := width, two_le_maxWidth := h }
      { maxWidth := width', two_le_maxWidth := h' } := ⟨rfl, rfl, rfl, rfl⟩

theorem spaceless_default {width : Nat} (h : 2 ≤ width) :
    ShaderSettings.Spaceless { maxWidth := width, two_le_maxWidth := h } where
  functionName := (by decide : IsWord "OCIOMain").space_notMem
  pixelName := (by decide : IsWord "outColor").space_notMem

/-- Samples from a zero to 1. -/
def twoSamples (zero : Float32) : Array (Rgb Float32) := #[Rgb.gray zero, Rgb.gray 1]

/-- Two samples fill one row under any maximum width, and whatever the sign of the zero. -/
theorem two_samples_fit_any_width :
    (curveProcessor (twoSamples (-0.0))).Made ∧ (curveProcessor (twoSamples 0)).Made ∧
      ShaderSettings.Spaceless {} ∧ ShaderSettings.Spaceless { maxWidth := 2 } ∧
      ShaderProgram.IdsTell
        ((curveProcessor (twoSamples (-0.0))).ops ++ (curveProcessor (twoSamples 0)).ops) ∧
      ∃ a b : ShaderProgram Float32,
        ({ settings := {} } : ShaderProgram Float32).addPipeline
          (curveProcessor (twoSamples (-0.0))) = .ok a ∧
        ({ settings := { maxWidth := 2 } } : ShaderProgram Float32).addPipeline
          (curveProcessor (twoSamples 0)) = .ok b ∧
        a.cacheId = b.cacheId ∧ a.SameOutput b := by
  have hp := made_curveProcessor (twoSamples (-0.0)) (by decide +kernel)
  have hq := made_curveProcessor (twoSamples 0) (by decide +kernel)
  have hids := idsTell_curveProcessor (twoSamples (-0.0)) (twoSamples 0) (by decide +kernel)
  have hs := spaceless_default (by decide : 2 ≤ 4096)
  have ht := spaceless_default (by decide : 2 ≤ 2)
  refine ⟨hp, hq, hs, ht, hids, ?_⟩
  obtain ⟨a, b, ha, hb, hsame⟩ :=
    ShaderProgram.programs_with_one_id_are_the_same_iff hp hq hs ht hids
  have hid : a.cacheId = b.cacheId := by
    rw [← Except.ok.inj ((ShaderProgram.addPipeline_eq _ hp).symm.trans ha),
      ← Except.ok.inj ((ShaderProgram.addPipeline_eq _ hq).symm.trans hb)]
    exact ShaderProgram.cacheId_withProcessor (sameNames_default _ _)
      (cacheId_curveProcessor (by decide +kernel))
  refine ⟨a, b, ha, hb, hid, (hsame hid).mpr ?_⟩
  exact List.forall_mem_singleton.mpr (rfl : min 2 4096 = min 2 2)

/-- Three samples. -/
def threeSamples : Array (Rgb Float32) := #[Rgb.gray 0, Rgb.gray 0.25, Rgb.gray 1]

/-- Three samples fill one row of three or two rows of two, which the ID does not tell. -/
theorem one_id_does_not_tell_the_width :
    (curveProcessor threeSamples).Made ∧
      ShaderProgram.IdsTell
        ((curveProcessor threeSamples).ops ++ (curveProcessor threeSamples).ops) ∧
      ∃ a b : ShaderProgram Float32,
        ({ settings := {} } : ShaderProgram Float32).addPipeline
          (curveProcessor threeSamples) = .ok a ∧
        ({ settings := { maxWidth := 2 } } : ShaderProgram Float32).addPipeline
          (curveProcessor threeSamples) = .ok b ∧
        a.cacheId = b.cacheId ∧ ¬ a.SameOutput b := by
  have hp := made_curveProcessor threeSamples (by decide +kernel)
  have hids := idsTell_curveProcessor threeSamples threeSamples (by decide +kernel)
  refine ⟨hp, hids, _, _, ShaderProgram.addPipeline_eq _ hp, ShaderProgram.addPipeline_eq _ hp,
    ShaderProgram.cacheId_withProcessor (sameNames_default _ _) rfl, fun hsame => ?_⟩
  have hwidth := ((ShaderProgram.holds_nothing _).withProcessor _).sameWidth
    ((ShaderProgram.holds_nothing _).withProcessor _) hids hp.valid hsame.textures
  have hthree : min 3 4096 = min 3 2 := hwidth _ (List.mem_singleton_self _)
  exact absurd hthree (by decide)

end Witness

end ColorPipeline
