-- The code of table lookups is tidy. Formulas put parentheses around what they are made of, so
-- their text is balanced whatever they are part of, and the code of a table is statements.
import ColorPipeline.Proofs.TidyCode
import ColorPipeline.Shader.Lookup1D
import ColorPipeline.Shader.Lookup3D

namespace ColorPipeline

/-! ## Formulas -/

section Formulas

variable {P : Type}

/-- The names in a formula have no brackets. -/
def Formula.Bare : Formula P → Prop
  | name n => IsBare n
  | number _ => True
  | part a _ => a.Bare
  | add a b => a.Bare ∧ b.Bare
  | sub a b => a.Bare ∧ b.Bare
  | mul a b => a.Bare ∧ b.Bare
  | div a b => a.Bare ∧ b.Bare
  | floor a => a.Bare
  | least a b => a.Bare ∧ b.Bare
  | unit a => a.Bare
  | vector x y z => x.Bare ∧ y.Bare ∧ z.Bare
  | sample _ texture coords => IsBare texture ∧ coords.Bare
  | curvePosition texture value => IsBare texture ∧ value.Bare

@[simp] theorem Formula.bare_add {a b : Formula P} : (a + b).Bare ↔ a.Bare ∧ b.Bare := Iff.rfl

@[simp] theorem Formula.bare_sub {a b : Formula P} : (a - b).Bare ↔ a.Bare ∧ b.Bare := Iff.rfl

@[simp] theorem Formula.bare_mul {a b : Formula P} : (a * b).Bare ↔ a.Bare ∧ b.Bare := Iff.rfl

@[simp] theorem Formula.bare_div {a b : Formula P} : (a / b).Bare ↔ a.Bare ∧ b.Bare := Iff.rfl

/-- The names in a statement have no brackets. -/
def Statement.Bare : Statement P → Prop
  | declare _ n => IsBare n
  | define _ n value => IsBare n ∧ value.Bare
  | assign n value => IsBare n ∧ value.Bare
  | yield n => IsBare n

/-- The names in a branch have no brackets. -/
structure Branch.Bare (b : Branch P) : Prop where
  conditions : ∀ c ∈ b.conditions, c.high.Bare ∧ c.low.Bare
  statements : ∀ st ∈ b.statements, st.Bare

/-- The names in a step of a lookup have no brackets. -/
def LookupStep.Bare : LookupStep P → Prop
  | run statements => ∀ st ∈ statements, st.Bare
  | choose branches => ∀ b ∈ branches, b.Bare

theorem Swizzle.isBare_name (s : Swizzle) : IsBare s.name := by
  cases s <;> decide

theorem Formula.isBare_curvePositionName {texture : String} (h : IsBare texture) :
    IsBare (curvePositionName texture) :=
  h.append (by decide)

variable [Scalar P] [Stored P] {l : ShaderLanguage}

theorem IsInline.parenthesized {s : String} (h : IsInline s) : IsInline s!"({s})" := by
  simp only [isInline_iff, openAfter_append, toString, h.openAfter_eq]
  rfl

/-- Brackets are put around a sum where its surroundings bind more closely, and they are closed. -/
theorem Formula.isInline_sumText (outer : Binding) {s : String} (h : IsInline s) :
    IsInline (sumText outer s) := by
  unfold sumText
  split
  · exact h
  · exact h.parenthesized

theorem Formula.isInline_productText (outer : Binding) {s : String} (h : IsInline s) :
    IsInline (productText outer s) := by
  unfold productText
  split
  · exact h.parenthesized
  · exact h

/-- Whatever a formula is part of, its text has balanced parentheses. -/
theorem Formula.isInline_text {a : Formula P} (h : a.Bare) (outer : Binding) :
    IsInline (a.text l outer) := by
  have hbetween : ∀ {s t between : String}, IsBare between → IsInline s → IsInline t →
      IsInline (s ++ between ++ t) := fun hbetween hs ht => (hs.append hbetween.isInline).append ht
  induction a generalizing outer with
  | name n => exact IsBare.isInline h
  | number v => exact (ShaderLanguage.isBare_number v).isInline
  | part a s ih => exact hbetween (by decide) (ih h .term) s.isBare_name.isInline
  | add a b iha ihb =>
    exact isInline_sumText outer (hbetween (by decide) (iha h.1 .sum) (ihb h.2 .product))
  | sub a b iha ihb =>
    exact isInline_sumText outer (hbetween (by decide) (iha h.1 .sum) (ihb h.2 .product))
  | mul a b iha ihb =>
    exact isInline_productText outer (hbetween (by decide) (iha h.1 .product) (ihb h.2 .term))
  | div a b iha ihb =>
    exact isInline_productText outer (hbetween (by decide) (iha h.1 .product) (ihb h.2 .term))
  | floor a ih =>
    simp only [text, isInline_iff, openAfter_append, (ih h .sum).openAfter_eq]
    rfl
  | least a b iha ihb =>
    simp only [text, isInline_iff, openAfter_append, (iha h.1 .sum).openAfter_eq,
      (ihb h.2 .sum).openAfter_eq]
    rfl
  | unit a ih =>
    simp only [text, isInline_iff, openAfter_append, (ih h .sum).openAfter_eq]
    rfl
  | vector x y z ihx ihy ihz =>
    simp only [text, isInline_iff, openAfter_append, (ihx h.1 .sum).openAfter_eq,
      (ihy h.2.1 .sum).openAfter_eq, (ihz h.2.2 .sum).openAfter_eq,
      ShaderLanguage.openAfter_typeName]
    rfl
  | sample dim texture coords ih => exact ShaderLanguage.isInline_sample dim h.1 (ih h.2 .sum)
  | curvePosition texture value ih =>
    simp only [text, isInline_iff, openAfter_append, (ih h.2 .sum).openAfter_eq,
      (isBare_curvePositionName h.1).openAfter_eq]
    rfl

/-- A statement over bare names is written on one line. -/
theorem Statement.isInline_text {st : Statement P} (h : st.Bare) : IsInline (st.text l) := by
  cases st with
  | declare type n =>
    have hn : IsBare n := h
    simp only [text, isInline_iff, openAfter_append, toString, hn.openAfter_eq,
      ShaderLanguage.openAfter_typeName]
    rfl
  | define type n value =>
    simp only [text, isInline_iff, openAfter_append, toString, h.1.openAfter_eq,
      (Formula.isInline_text h.2 .sum).openAfter_eq, ShaderLanguage.openAfter_typeName]
    rfl
  | assign n value =>
    simp only [text, isInline_iff, openAfter_append, toString, h.1.openAfter_eq,
      (Formula.isInline_text h.2 .sum).openAfter_eq]
    rfl
  | yield n =>
    have hn : IsBare n := h
    simp only [text, isInline_iff, openAfter_append, toString, hn.openAfter_eq]
    rfl

theorem Statement.tidy_code {statements : List (Statement P)} (h : ∀ st ∈ statements, st.Bare) :
    (code l statements).Tidy := by
  refine Code.tidy_ofList.mpr fun part hpart => ?_
  obtain ⟨st, hst, rfl⟩ := List.mem_map.mp hpart
  exact isInline_text (h st hst)

theorem Above.isInline_allText {conditions : List (Above P)}
    (h : ∀ c ∈ conditions, c.high.Bare ∧ c.low.Bare) : IsInline (allText l conditions) := by
  refine isInline_intercalate (isInline_iff.mpr rfl) fun s hs => ?_
  obtain ⟨c, hc, rfl⟩ := List.mem_map.mp hs
  have hcompared := h c hc
  simp only [text, isInline_iff, openAfter_append,
    (Formula.isInline_text hcompared.1 .sum).openAfter_eq,
    (Formula.isInline_text hcompared.2 .sum).openAfter_eq]
  rfl

/-- Every branch opens a block of its own and closes it before the next one. -/
theorem Branch.tidy_code {branches : List (Branch P)} (h : ∀ b ∈ branches, b.Bare)
    (isFirst : Bool) : (code l isFirst branches).Tidy := by
  induction branches generalizing isFirst with
  | nil => trivial
  | cons b rest ih =>
    rw [List.forall_mem_cons] at h
    have hconditions := Above.isInline_allText (l := l) h.1.conditions
    refine ⟨⟨?_, Statement.tidy_code h.1.statements, trivial⟩, ih h.2 false⟩
    rw [Code.tidy_line]
    unfold head
    split
    · rfl
    · split
      all_goals
        simp only [openAfter_append, toString, hconditions.openAfter_eq]
        rfl

theorem LookupStep.tidy_code {step : LookupStep P} (h : step.Bare) : (step.code l).Tidy := by
  cases step with
  | run statements => exact Statement.tidy_code h
  | choose branches => exact Branch.tidy_code h true

/-- The code of a lookup is tidy where its names have no brackets. -/
theorem TableLookup.tidy_code {t : TableLookup P} (hcomment : IsInline t.comment)
    (hsteps : ∀ step ∈ t.steps, step.Bare) : (t.code l).Tidy := by
  have htidy : (Code.ofList (t.steps.map (LookupStep.code l))).Tidy := by
    refine Code.tidy_ofList.mpr fun part hpart => ?_
    obtain ⟨step, hstep, rfl⟩ := List.mem_map.mp hpart
    exact LookupStep.tidy_code (hsteps step hstep)
  refine ⟨Code.tidy_title.mpr hcomment, ?_⟩
  split
  · exact Code.tidy_block.mpr htidy
  · exact htidy

end Formulas

/-! ## Tables -/

section Tables

variable {P : Type} [Scalar P] [Stored P] {l : ShaderLanguage} {texture pixel : String}

namespace CurveTexture

omit [Stored P] in
theorem bare_positionStatements (t : CurveTexture) :
    ∀ st ∈ t.positionStatements (P := P), st.Bare := by
  have hdep : IsBare "dep" := by decide
  have hval : IsBare "retVal" := by decide
  have hx : IsBare "retVal.x" := by decide
  have hy : IsBare "retVal.y" := by decide
  have hf : IsBare "f" := by decide
  unfold positionStatements
  simp only [List.forall_mem_append]
  refine ⟨⟨?_, ?_⟩, ?_⟩
  · simp [Statement.Bare, Formula.Bare, Formula.whole, hdep, hf]
  · split
    · simp [Statement.Bare, Formula.Bare, hdep]
    · exact List.forall_mem_nil _
  · simp [Statement.Bare, Formula.Bare, Formula.whole, hdep, hval, hx, hy]

omit [Scalar P] [Stored P] in
theorem bare_lookupStatements (htexture : IsBare texture) (hpixel : IsBare pixel) :
    ∀ st ∈ lookupStatements (P := P) texture pixel, st.Bare := by
  intro st hst
  obtain ⟨c, _, rfl⟩ := List.mem_map.mp hst
  have hchannel : IsBare (pixel ++ "." ++ (Swizzle.ofChannel c).name) :=
    (hpixel.append (by decide)).append (Swizzle.isBare_name _)
  exact ⟨hchannel, htexture, htexture, hpixel⟩

theorem tidy_helper (t : CurveTexture) (h : IsBare texture) :
    (t.helper (P := P) l texture).Tidy := by
  have hname := Formula.isBare_curvePositionName h
  have hbody := Statement.tidy_code (l := l) (t.bare_positionStatements (P := P))
  have hempty : openAfter (some 0) "" = some 0 := rfl
  simp only [helper, Code.tidy_ofList_cons, Code.tidy_ofList_nil, Code.tidy_line, Code.tidy_block,
    hbody, hempty, openAfter_append, toString, hname.openAfter_eq,
    ShaderLanguage.openAfter_typeName]
  decide

theorem tidy_lookup (htexture : IsBare texture) (hpixel : IsBare pixel) :
    (lookup P l texture pixel).Tidy := by
  have hcomment : IsInline s!"Add LUT 1D processing for {texture}" := by
    simp only [isInline_iff, openAfter_append, toString, htexture.openAfter_eq]
    rfl
  have hsteps : ∀ step ∈ (tableLookup (P := P) texture pixel).steps, step.Bare :=
    List.forall_mem_singleton.mpr (bare_lookupStatements htexture hpixel)
  exact TableLookup.tidy_code hcomment hsteps

end CurveTexture

namespace GridTexture

omit [Stored P]

theorem bare_directStatements (size : Nat) (htexture : IsBare texture) (hpixel : IsBare pixel) :
    ∀ st ∈ directStatements (P := P) size texture pixel, st.Bare := by
  have hcoords : IsBare "coords" := by decide
  have htarget : IsBare (pixel ++ ".rgb") := hpixel.append (by decide)
  simp [directStatements, unitColor, colorAt, Statement.Bare, Formula.Bare, Formula.whole,
    hcoords, htarget, htexture, hpixel]

/-- A corner is read with the coordinates of the cell, moved by a constant. -/
theorem bare_corner (size : Nat) (htexture : IsBare texture) (axes : List Channel) :
    (corner (P := P) size texture axes).Bare := by
  have hstart : IsBare "startPos" := by decide
  unfold corner
  split
  · exact ⟨htexture, hstart⟩
  · exact ⟨htexture, hstart, trivial, trivial, trivial⟩

theorem bare_cellStatements (size : Nat) (htexture : IsBare texture) (hpixel : IsBare pixel) :
    ∀ st ∈ cellStatements (P := P) size texture pixel, st.Bare := by
  have hnames : ∀ n ∈ ["coords", "baseInd", "fr", "startPos", "v1", "v2", "v3", "v4", "f"],
      IsBare n := by decide
  simp only [List.forall_mem_cons] at hnames
  simp [cellStatements, unitColor, Statement.Bare, Formula.Bare, Formula.constant,
    bare_corner size htexture, hnames, hpixel]

theorem bare_caseStatements (size : Nat) (htexture : IsBare texture) (o : Grid.AxisOrder) :
    ∀ st ∈ caseStatements (P := P) size texture o, st.Bare := by
  have hnames : ∀ n ∈ ["fr", "v2", "v3", "f"], IsBare n := by decide
  simp only [List.forall_mem_cons] at hnames
  simp [caseStatements, fraction, Statement.Bare, Formula.Bare, bare_corner size htexture, hnames]

omit [Scalar P] in
theorem bare_sumStatement (hpixel : IsBare pixel) : (sumStatement (P := P) pixel).Bare := by
  have hnames : ∀ n ∈ ["v1", "v2", "v3", "v4", "f"], IsBare n := by decide
  have htarget : IsBare (pixel ++ ".rgb") := hpixel.append (by decide)
  simp only [List.forall_mem_cons] at hnames
  simp [sumStatement, Statement.Bare, Formula.Bare, hnames, htarget]

theorem bare_caseBranch (size : Nat) (htexture : IsBare texture) (w : WalkCase) :
    (caseBranch (P := P) size texture w).Bare where
  conditions := by
    intro c hc
    obtain ⟨axes, _, rfl⟩ := List.mem_map.mp hc
    have hfr : IsBare "fr" := by decide
    exact ⟨hfr, hfr⟩
  statements := bare_caseStatements size htexture w.order

/-- The lookup in a grid is made of bare names, whichever way values are found. -/
theorem bare_steps (interpolation : Interpolation) (size : Nat) (htexture : IsBare texture)
    (hpixel : IsBare pixel) :
    ∀ step ∈ (tableLookup (P := P) interpolation size texture pixel).steps, step.Bare := by
  unfold tableLookup
  dsimp only
  split
  · have hcases : LookupStep.Bare (.choose (walkCases.map (caseBranch (P := P) size texture))) := by
      intro b hb
      obtain ⟨w, _, rfl⟩ := List.mem_map.mp hb
      exact bare_caseBranch size htexture w
    have hsum : LookupStep.Bare (.run [sumStatement (P := P) pixel]) :=
      List.forall_mem_singleton.mpr (bare_sumStatement hpixel)
    exact List.forall_mem_cons.mpr ⟨bare_cellStatements size htexture hpixel,
      List.forall_mem_cons.mpr ⟨hcases, List.forall_mem_singleton.mpr hsum⟩⟩
  · exact List.forall_mem_singleton.mpr (bare_directStatements size htexture hpixel)

variable [Stored P]

theorem tidy_lookup (interpolation : Interpolation) (size : Nat) (htexture : IsBare texture)
    (hpixel : IsBare pixel) : (lookup P l interpolation size texture pixel).Tidy := by
  have hcomment : IsInline s!"Add LUT 3D processing for {texture}" := by
    simp only [isInline_iff, openAfter_append, toString, htexture.openAfter_eq]
    rfl
  exact TableLookup.tidy_code hcomment (bare_steps interpolation size htexture hpixel)

end GridTexture

end Tables

end ColorPipeline
