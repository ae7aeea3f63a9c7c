-- What takes the place of well-formed ops is well-formed. Rewrites compute new
-- bounds, matrices, exponents and samples, so this holds of exact arithmetic.
import ColorPipeline.Proofs.Checks
import ColorPipeline.Proofs.Exact

open scoped ColorPipeline.Scalar

namespace ColorPipeline

open ExactScalar

variable {P S : Type}

/-! ## Matrices -/

section Matrices

variable [Scalar P] [ExactScalar P]

theorem Matrix4.isFinite_diagonal {d : Rgba P} (hd : d.IsFinite) : IsFinite (diagonal d) := by
  have hzero : Scalar.isFinite (0 : P) := isFinite_numeral 0
  obtain ⟨hr, hg, hb, ha⟩ := hd
  exact ⟨⟨hr, hzero, hzero, hzero⟩, ⟨hzero, hg, hzero, hzero⟩, ⟨hzero, hzero, hb, hzero⟩,
    ⟨hzero, hzero, hzero, ha⟩⟩

theorem Matrix4.isFinite_dot {u v : Rgba P} (hu : u.IsFinite) (hv : v.IsFinite) :
    Scalar.isFinite (dot u v) := by
  have hproducts : (u.zipWith (· * ·) v).IsFinite := hu.zipWith (fun _ _ => isFinite_mul) hv
  obtain ⟨hr, hg, hb, ha⟩ := hproducts
  unfold dot
  exact isFinite_add (isFinite_add (isFinite_add hr hg) hb) ha

/-- A finite matrix keeps finite vectors finite, since arithmetic does. -/
theorem Matrix4.isFinite_mulVec {m : Matrix4 P} {v : Rgba P} (hm : IsFinite m)
    (hv : v.IsFinite) : (m.mulVec v).IsFinite :=
  hm.map fun _ hrow => isFinite_dot hrow hv

omit [ExactScalar P] in
theorem Matrix4.isFinite_transpose {m : Matrix4 P} (hm : IsFinite m) :
    IsFinite m.transpose := by
  refine ⟨?_, ?_, ?_, ?_⟩
  · exact hm.map fun _ hrow => hrow.1
  · exact hm.map fun _ hrow => hrow.2.1
  · exact hm.map fun _ hrow => hrow.2.2.1
  · exact hm.map fun _ hrow => hrow.2.2.2

theorem Matrix4.isFinite_mul {m n : Matrix4 P} (hm : IsFinite m) (hn : IsFinite n) :
    IsFinite (m.mul n) := by
  refine hm.map ?_
  intro row hrow
  exact (isFinite_transpose hn).map fun _ hcol => isFinite_dot hrow hcol

/-- Two well-formed matrix ops make a well-formed one. -/
theorem MatrixOp.validate_followedBy {m next : MatrixOp P} (hm : m.validate = .ok ())
    (hnext : next.validate = .ok ()) : (m.followedBy next).validate = .ok () := by
  rw [validate_iff] at hm hnext ⊢
  refine ⟨Matrix4.isFinite_mul hnext.1 hm.1, ?_⟩
  have hmoved := Matrix4.isFinite_mulVec hnext.1 hm.2
  exact hmoved.zipWith (fun _ _ => isFinite_add) hnext.2

end Matrices

/-! ## Ranges -/

section Ranges

variable [Scalar P] [ExactScalar P]

omit [ExactScalar P] in
theorem RangeOp.valid_twoSided {minIn maxIn minOut maxOut : P} (hminIn : Scalar.isFinite minIn)
    (hmaxIn : Scalar.isFinite maxIn) (hminOut : Scalar.isFinite minOut)
    (hmaxOut : Scalar.isFinite maxOut) (hin : ¬ maxIn ≤ minIn) (hout : ¬ maxOut ≤ minOut) :
    (⟨some minIn, some maxIn, some minOut, some maxOut⟩ : RangeOp P).Valid := by
  refine ⟨rfl, rfl, ?_, ?_, ?_⟩
  · intro v hv
    simp only [mem_bounds, Option.mem_def, Option.some.injEq] at hv
    rcases hv with rfl | rfl | rfl | rfl <;> assumption
  · rintro _ ⟨⟩ _ ⟨⟩
    exact hin
  · rintro _ ⟨⟩ _ ⟨⟩
    exact hout

theorem RangeOp.valid_clamp {low high : P} (hlow : Scalar.isFinite low)
    (hhigh : Scalar.isFinite high) (h : low < high) : (clamp low high).Valid := by
  have hnot : ¬ high ≤ low := not_le_of_lt hlow hhigh h
  exact valid_twoSided hlow hhigh hlow hhigh hnot hnot

omit [ExactScalar P] in
theorem RangeOp.valid_lowerOnly {minIn minOut : P} (hin : Scalar.isFinite minIn)
    (hout : Scalar.isFinite minOut) :
    ({ minIn := some minIn, minOut := some minOut } : RangeOp P).Valid := by
  refine ⟨rfl, rfl, ?_, nofun, nofun⟩
  intro v hv
  simp only [mem_bounds, Option.mem_def, Option.some.injEq, reduceCtorEq, false_or, or_false] at hv
  rcases hv with rfl | rfl <;> assumption

omit [ExactScalar P] in
theorem RangeOp.valid_upperOnly {maxIn maxOut : P} (hin : Scalar.isFinite maxIn)
    (hout : Scalar.isFinite maxOut) :
    ({ maxIn := some maxIn, maxOut := some maxOut } : RangeOp P).Valid := by
  refine ⟨rfl, rfl, ?_, nofun, nofun⟩
  intro v hv
  simp only [mem_bounds, Option.mem_def, Option.some.injEq, reduceCtorEq, false_or] at hv
  rcases hv with rfl | rfl <;> assumption

omit [ExactScalar P] in
theorem RangeOp.Valid.inputClamp {r : RangeOp P} (h : r.Valid) : r.inputClamp.Valid := by
  refine ⟨rfl, rfl, ?_, h.input, h.input⟩
  intro v hv
  refine h.finite v ?_
  rw [mem_bounds] at hv ⊢
  rcases hv with hv | hv | hv | hv
  · exact .inl hv
  · exact .inr (.inl hv)
  · exact .inl hv
  · exact .inr (.inl hv)

/-- What is written, if anything is, is well-formed. -/
def FusedRange.Valid : FusedRange P → Prop
  | .range r => r.validate = .ok ()
  | .matrix m => m.validate = .ok ()
  | .nothing | .inexpressible => True

/-- A scale above zero, and nothing that is not finite. -/
structure ClampedAffine.WellFormed (a : ClampedAffine P) : Prop where
  scale : ∃ s : ℝ, Is a.scale s ∧ 0 < s
  offset : Scalar.isFinite a.offset
  lower : ∀ lo ∈ a.lower, Scalar.isFinite lo
  upper : ∀ hi ∈ a.upper, Scalar.isFinite hi

/-- Bounds in the right order stand for real numbers in that order. -/
theorem lt_of_not_le {a b : P} {x y : ℝ} (ha : Is a x) (hb : Is b y) (h : ¬ b ≤ a) : x < y := by
  rw [le_iff hb ha] at h
  exact not_le.mp h

/-- A well-formed range is a map with a positive scale, since bounds on both sides are in order. -/
theorem RangeOp.Valid.affine {r : RangeOp P} (h : r.Valid) : r.affine.WellFormed := by
  have hone : ∃ s : ℝ, Is (1 : P) s ∧ 0 < s := ⟨_, ofNat 1, by norm_num⟩
  have hzero : Scalar.isFinite (0 : P) := isFinite_numeral 0
  unfold RangeOp.affine
  split
  · rename_i minIn maxIn minOut maxOut hminIn hmaxIn hminOut hmaxOut
    have hfinite : ∀ {v}, v ∈ r.minOut ∨ v ∈ r.maxOut → Scalar.isFinite v := by
      intro v hv
      exact h.finite v (mem_bounds.mpr (.inr (.inr hv)))
    obtain ⟨x, hx⟩ := (isFinite_iff _).mp (h.finite minIn (mem_bounds.mpr (.inl hminIn)))
    obtain ⟨y, hy⟩ := (isFinite_iff _).mp (h.finite maxIn (mem_bounds.mpr (.inr (.inl hmaxIn))))
    obtain ⟨u, hu⟩ := (isFinite_iff _).mp (hfinite (.inl hminOut))
    obtain ⟨v, hv⟩ := (isFinite_iff _).mp (hfinite (.inr hmaxOut))
    have hin : 0 < y - x := sub_pos.mpr (lt_of_not_le hx hy (h.input _ hminIn _ hmaxIn))
    have hout : 0 < v - u := sub_pos.mpr (lt_of_not_le hu hv (h.output _ hminOut _ hmaxOut))
    have hscale := div (sub hv hu) (sub hy hx) hin.ne'
    refine ⟨⟨_, hscale, div_pos hout hin⟩, ?_, ?_, ?_⟩
    · exact isFinite (sub hu (mul hx hscale))
    · rintro _ ⟨⟩
      exact isFinite hu
    · rintro _ ⟨⟩
      exact isFinite hv
  · rename_i minIn minOut hminIn hminOut _
    have hin := h.finite minIn (mem_bounds.mpr (.inl hminIn))
    have hout := h.finite minOut (mem_bounds.mpr (.inr (.inr (.inl hminOut))))
    refine ⟨hone, isFinite_sub hout hin, ?_, nofun⟩
    rintro _ ⟨⟩
    exact hout
  · rename_i maxIn maxOut hmaxIn hmaxOut _
    have hin := h.finite maxIn (mem_bounds.mpr (.inr (.inl hmaxIn)))
    have hout := h.finite maxOut (mem_bounds.mpr (.inr (.inr (.inr hmaxOut))))
    refine ⟨hone, isFinite_sub hout hin, nofun, ?_⟩
    rintro _ ⟨⟩
    exact hout
  · exact ⟨hone, hzero, nofun, nofun⟩

namespace ClampedAffine

omit [Scalar P] [ExactScalar P] in
theorem tighter_eq_none {choose : P → P → P} {a b : Option P} :
    tighter choose a b = none ↔ a = none ∧ b = none := by
  cases a <;> cases b <;> simp [tighter]

omit [ExactScalar P] in
theorem isFinite_tighter {choose : P → P → P} {a b : Option P}
    (hchoose : ∀ x y, Scalar.isFinite x → Scalar.isFinite y → Scalar.isFinite (choose x y))
    (ha : ∀ v ∈ a, Scalar.isFinite v) (hb : ∀ v ∈ b, Scalar.isFinite v) :
    ∀ v ∈ tighter choose a b, Scalar.isFinite v := by
  unfold tighter
  split
  · rename_i x y
    rintro _ ⟨⟩
    exact hchoose x y (ha x rfl) (hb y rfl)
  · exact ha
  · exact hb

theorem WellFormed.followedBy {a next : ClampedAffine P} (ha : a.WellFormed)
    (hnext : next.WellFormed) : (a.followedBy next).WellFormed := by
  obtain ⟨s, hs, hspos⟩ := ha.scale
  obtain ⟨t, ht, htpos⟩ := hnext.scale
  have hmoved : ∀ v, Scalar.isFinite v → Scalar.isFinite (v * next.scale + next.offset) := by
    intro v hv
    exact isFinite_add (isFinite_mul hv (isFinite ht)) hnext.offset
  have hlimit : ∀ limit : Option P, (∀ v ∈ limit, Scalar.isFinite v) →
      ∀ v ∈ limit.map fun v => v * next.scale + next.offset, Scalar.isFinite v := by
    intro limit hlimit v hv
    obtain ⟨w, hw, rfl⟩ := Option.mem_map.mp hv
    exact hmoved w (hlimit w hw)
  refine ⟨⟨_, mul hs ht, mul_pos hspos htpos⟩, hmoved _ ha.offset, ?_, ?_⟩
  · exact isFinite_tighter (fun _ _ => Scalar.isFinite_maxNum) (hlimit _ ha.lower) hnext.lower
  · exact isFinite_tighter (fun _ _ => Scalar.isFinite_minNum) (hlimit _ ha.upper) hnext.upper

/-- The scale is above zero, so solving for the inputs keeps the limits in order. -/
theorem WellFormed.valid_solved {a : ClampedAffine P} (h : a.WellFormed) {lo hi : P}
    (hlo : Scalar.isFinite lo) (hhi : Scalar.isFinite hi) (hlt : lo < hi) :
    (⟨some ((lo - a.offset) / a.scale), some ((hi - a.offset) / a.scale), some lo, some hi⟩ :
      RangeOp P).Valid := by
  obtain ⟨s, hs, hspos⟩ := h.scale
  obtain ⟨o, ho⟩ := (isFinite_iff _).mp h.offset
  obtain ⟨x, hx⟩ := (isFinite_iff _).mp hlo
  obtain ⟨y, hy⟩ := (isFinite_iff _).mp hhi
  have hlow := div (sub hx ho) hs hspos.ne'
  have hhigh := div (sub hy ho) hs hspos.ne'
  have hxy : x < y := (lt_iff hx hy).mp hlt
  have hsolved : (x - o) / s < (y - o) / s := by gcongr
  refine RangeOp.valid_twoSided (isFinite hlow) (isFinite hhigh) hlo hhi ?_
    (not_le_of_lt hlo hhi hlt)
  rw [le_iff hhigh hlow, not_le]
  exact hsolved

/-- Such a map becomes a range that is well-formed, or none at all. -/
theorem WellFormed.toFused {a : ClampedAffine P} (h : a.WellFormed) : a.toFused.Valid := by
  unfold ClampedAffine.toFused
  extract_lets unitScale
  split
  · rename_i lo hi hlower hupper
    split
    · rename_i hlt
      exact (RangeOp.validate_iff _).mpr
        (h.valid_solved (h.lower lo hlower) (h.upper hi hupper) hlt)
    · trivial
  · rename_i lo hlower _
    have hlo := h.lower lo hlower
    split
    · exact (RangeOp.validate_iff _).mpr (RangeOp.valid_lowerOnly (isFinite_sub hlo h.offset) hlo)
    · trivial
  · rename_i hi _ hupper
    have hhi := h.upper hi hupper
    split
    · exact (RangeOp.validate_iff _).mpr (RangeOp.valid_upperOnly (isFinite_sub hhi h.offset) hhi)
    · trivial
  · split
    · trivial
    · obtain ⟨s, hs, _⟩ := h.scale
      have hscale := isFinite hs
      have hoffset := h.offset
      have hone : Scalar.isFinite (1 : P) := isFinite_numeral 1
      have hzero : Scalar.isFinite (0 : P) := isFinite_numeral 0
      have hdiagonal : Rgba.IsFinite ⟨a.scale, a.scale, a.scale, 1⟩ :=
        ⟨hscale, hscale, hscale, hone⟩
      refine (MatrixOp.validate_iff _).mpr ⟨Matrix4.isFinite_diagonal hdiagonal, ?_⟩
      exact ⟨hoffset, hoffset, hoffset, hzero⟩

end ClampedAffine

theorem RangeOp.fuse_valid {r next : RangeOp P} (hr : r.validate = .ok ())
    (hnext : next.validate = .ok ()) : (r.fuse next).Valid := by
  rw [validate_iff] at hr hnext
  exact (hr.affine.followedBy hnext.affine).toFused

end Ranges

/-! ## Exponents -/

section Exponents

variable [Scalar P] [ExactScalar P]

/-- Exponents fuse only where the products stay within the bounds. -/
theorem ExponentOp.validate_fuse {e next : ExponentOp P} (he : e.validate = .ok ())
    (hnext : next.validate = .ok ()) (hfuses : e.canFuse next) :
    (e.fuse next).validate = .ok () := by
  rw [validate_iff] at he hnext ⊢
  unfold canFuse at hfuses
  rw [Bool.and_eq_true, List.all_eq_true] at hfuses
  have hlowest : Scalar.isFinite (lowest : P) := isFinite (ofDecimal 1 true 2)
  have hhighest : Scalar.isFinite (highest : P) := isFinite_numeral 100
  have hfinite : (e.product next).All fun v => Scalar.isFinite v :=
    he.zipWith (fun _ _ hv hw => isFinite_mul hv.1 hw.1) hnext
  rw [Rgba.all_iff] at hfinite ⊢
  intro v hv
  have hbounds := hfuses.2 v hv
  rw [Bool.and_eq_true, decide_eq_true_iff, decide_eq_true_iff] at hbounds
  exact ⟨hfinite v hv, not_lt_of_le hlowest (hfinite v hv) hbounds.1,
    not_lt_of_le (hfinite v hv) hhighest hbounds.2⟩

end Exponents

/-! ## Tables -/

section Curves

variable [Scalar S] [ExactScalar S]

/-- All samples of the table are finite. -/
def Lut1D.IsFinite (lut : Lut1D S) : Prop := ∀ i c, Scalar.isFinite ((lut.entry i).get c)

/-- Points between zero and one are finite from two samples on, where nothing is divided by zero. -/
theorem Lut1D.gridPoint_isFinite {size i : Nat} (h : 2 ≤ size) :
    Scalar.isFinite (gridPoint size i : S) := by
  have hsize : ((size - 1 : Nat) : ℝ) ≠ 0 := by
    have : size - 1 ≠ 0 := by omega
    exact_mod_cast this
  have hstep : Scalar.isFinite (1 / Scalar.ofNat (size - 1) : S) :=
    isFinite (div (ofNat 1) (ofNat (size - 1)) hsize)
  exact isFinite_mul (isFinite (ofNat i)) hstep

theorem Lut1D.gray_isFinite {size : Nat} (h : 2 ≤ size) (i : Nat) (c : Channel) :
    Scalar.isFinite ((Rgb.gray (gridPoint size i : S)).get c) := by
  rw [Rgb.get_gray]
  exact gridPoint_isFinite h

theorem Curve.isFinite_position {c : Curve S} {v : S} (hv : Scalar.isFinite v) :
    Scalar.isFinite (c.position v) := by
  have hclamp := Scalar.isFinite_clamp hv (isFinite_numeral 0) (isFinite_numeral 1)
  exact isFinite_mul hclamp (isFinite (ofNat (c.size - 1)))

/-- A curve of finite samples is finite everywhere. -/
theorem Curve.isFinite_eval {c : Curve S} (toNearest : Bool) {v : S}
    (hc : ∀ i, Scalar.isFinite (c.sample i)) (hv : Scalar.isFinite v) :
    Scalar.isFinite (c.eval toNearest v) := by
  unfold eval
  split_ifs
  · exact hv
  · exact hc 0
  · exact hc _
  · unfold linear
    extract_lets t i a
    have ht : Scalar.isFinite t := isFinite_position hv
    have hfraction : Scalar.isFinite (t - Scalar.ofNat i) := isFinite_sub ht (isFinite (ofNat i))
    have hrise : Scalar.isFinite (c.sample (i + 1) - a) := isFinite_sub (hc (i + 1)) (hc i)
    exact isFinite_add (hc i) (isFinite_mul hrise hfraction)

theorem Lut1D.IsFinite.apply {lut : Lut1D S} (h : lut.IsFinite) {p : Rgb S}
    (hp : ∀ c, Scalar.isFinite (p.get c)) : ∀ c, Scalar.isFinite ((lut.apply p).get c) := by
  intro c
  unfold Lut1D.apply
  rw [Rgb.get_ofFn]
  exact Curve.isFinite_eval _ (fun i => h i c) (hp c)

theorem Lut1D.isFinite_of_samples {lut : Lut1D S}
    (h : ∀ v ∈ tableNumbers lut.samples, Scalar.isFinite v) : lut.IsFinite := by
  intro i c
  unfold entry
  rw [Array.getD_eq_getD_getElem?]
  cases hi : lut.samples[i]? with
  | none =>
    rw [Option.getD_none, Rgb.get_gray]
    exact isFinite_numeral 0
  | some p =>
    have hp : p ∈ lut.samples := Array.mem_of_getElem? hi
    rw [Option.getD_some]
    refine (Rgb.forall_mem_toList (fun v => Scalar.isFinite v) p).mp ?_ c
    intro v hv
    exact h v (mem_tableNumbers.mpr ⟨p, hp, hv⟩)

omit [ExactScalar S] in
theorem Lut1D.compose_eq_ok (lut next : Lut1D S) {size : Nat} (h : 2 ≤ size) :
    lut.compose next size = .ok
      { samples := Array.ofFn (n := size) fun i =>
          next.apply (lut.apply (Rgb.gray (gridPoint size i)))
        interpolation := lut.interpolation
        depth := next.depth } := by
  unfold compose
  rw [ofFn_eq_ok _ h]
  rfl

/-- Composed tables are forward ones, so nothing is asked of the order of their samples. -/
theorem Lut1DOp.fuse_valid {l next : Lut1DOp S}
    (hl : (l.validate : Except (OpError P) Unit) = .ok ())
    (hnext : (next.validate : Except (OpError P) Unit) = .ok ()) :
    ∃ fused : Lut1DOp S, (l.fuse next : Except (OpError P) (Lut1DOp S)) = .ok fused ∧
      (fused.validate : Except (OpError P) Unit) = .ok () := by
  rw [validate_iff] at hl hnext
  obtain ⟨hsize, hfinite, _⟩ := hl
  obtain ⟨_, hnextFinite, _⟩ := hnext
  have hlong : 2 ≤ max l.lut.size next.lut.size := by omega
  unfold fuse
  rw [Lut1D.compose_eq_ok l.lut next.lut hlong]
  refine ⟨_, rfl, ?_⟩
  rw [validate_iff]
  refine ⟨?_, ?_, nofun⟩
  · simpa [Lut1D.size] using hlong
  · intro v hv
    obtain ⟨p, hp, hv⟩ := mem_tableNumbers.mp hv
    obtain ⟨i, rfl⟩ := Array.mem_ofFn.mp hp
    refine (Rgb.forall_mem_toList (fun v => Scalar.isFinite v) _).mpr ?_ v hv
    have happlied := (Lut1D.isFinite_of_samples hfinite).apply (Lut1D.gray_isFinite hlong i)
    exact (Lut1D.isFinite_of_samples hnextFinite).apply happlied

omit [ExactScalar S] in
/-- The ends of the range that numbers span are among the numbers. -/
theorem Lut1DOp.isFinite_extent {vs : List S} (h : ∀ v ∈ vs, Scalar.isFinite v) {lo hi : S}
    (hextent : extent vs = some (lo, hi)) : Scalar.isFinite lo ∧ Scalar.isFinite hi := by
  unfold extent at hextent
  refine List.foldlRecOn (motive := fun range : Option (S × S) =>
    ∀ r ∈ range, Scalar.isFinite r.1 ∧ Scalar.isFinite r.2) _ _ ?_ ?_ (lo, hi) hextent
  · rintro _ ⟨⟩
  · intro range hrange v hv r hr
    have hfinite := h v (List.mem_of_mem_filter hv)
    rcases range with _ | ⟨lo, hi⟩
    · cases hr
      exact ⟨hfinite, hfinite⟩
    · cases hr
      obtain ⟨hlo, hhi⟩ := hrange _ rfl
      exact ⟨Scalar.isFinite_minNum hlo hfinite, Scalar.isFinite_maxNum hhi hfinite⟩

omit [ExactScalar S] in
/-- A common extent is a range of finite numbers, and it is not empty. -/
theorem Lut1DOp.isFinite_commonExtent {l : Lut1DOp S}
    (h : ∀ v ∈ tableNumbers l.lut.samples, Scalar.isFinite v) {lo hi : S}
    (hextent : l.commonExtent = some (lo, hi)) :
    Scalar.isFinite lo ∧ Scalar.isFinite hi ∧ lo < hi := by
  have hred : ∀ v ∈ l.lut.samples.toList.map fun p => p.get .red, Scalar.isFinite v := by
    intro v hv
    obtain ⟨p, hp, rfl⟩ := List.mem_map.mp hv
    refine (Rgb.forall_mem_toList (fun v => Scalar.isFinite v) p).mp ?_ .red
    intro w hw
    exact h w (mem_tableNumbers.mpr ⟨p, Array.mem_toList_iff.mp hp, hw⟩)
  unfold commonExtent at hextent
  extract_lets channel at hextent
  split at hextent
  · rename_i hchannel _ _
    split_ifs at hextent with hsame
    · cases hextent
      have hfinite := isFinite_extent hred hchannel
      simp only [Bool.and_eq_true, decide_eq_true_eq] at hsame
      exact ⟨hfinite.1, hfinite.2, hsame.1.1.1.1⟩
  · cases hextent

end Curves

/-! ## Any kind of op -/

namespace OpData

variable [Scalar P] [Scalar S] [Precision P S] [ExactScalar P] [ExactScalar S] [ExactPrecision P S]

theorem validate_clampUnit : (RangeOp.clamp 0 1 : RangeOp P).validate = .ok () :=
  (RangeOp.validate_iff _).mpr
    (RangeOp.valid_clamp (isFinite_numeral 0) (isFinite_numeral 1) zero_lt_one)

/-- The limits that take the place of an op are well-formed. -/
theorem validate_replacement {d : OpData P S} (hd : d.validate = .ok ()) {r : RangeOp P}
    (hr : d.replacement = .clamp r) : r.validate = .ok () := by
  unfold replacement at hr
  split at hr
  · rename_i range
    split at hr
    · cases hr
      exact (RangeOp.validate_iff _).mpr ((RangeOp.validate_iff range).mp hd).inputClamp
    · cases hr
  · rename_i table
    unfold Lut1DOp.replacement at hr
    split at hr
    · cases hr
      exact validate_clampUnit
    · split at hr
      · rename_i lo hi hextent
        cases hr
        have hfinite := ((Lut1DOp.validate_iff (P := P) table).mp hd).2.1
        obtain ⟨hlo, hhi, hlt⟩ := Lut1DOp.isFinite_commonExtent hfinite hextent
        obtain ⟨x, hx⟩ := (isFinite_iff lo).mp hlo
        obtain ⟨y, hy⟩ := (isFinite_iff hi).mp hhi
        have hwideLo : Is (Precision.widen lo : P) x := ExactPrecision.widen hx
        have hwideHi : Is (Precision.widen hi : P) y := ExactPrecision.widen hy
        have hwide : (Precision.widen lo : P) < Precision.widen hi := by
          rw [lt_iff hwideLo hwideHi, ← lt_iff hx hy]
          exact hlt
        exact (RangeOp.validate_iff _).mpr
          (RangeOp.valid_clamp (isFinite hwideLo) (isFinite hwideHi) hwide)
      · cases hr
  · unfold Lut3DOp.replacement at hr
    split at hr
    · cases hr
    · cases hr
      exact validate_clampUnit
  · cases hr

omit [Precision P S] [ExactPrecision P S] in
/-- Well-formed ops that fuse do so without an error, into well-formed ops. -/
theorem validate_fuse [Stored P] {a b : OpData P S} (ha : a.validate = .ok ())
    (hb : b.validate = .ok ()) (hfuses : a.canFuse b) :
    ∃ ds, a.fuse b = .ok ds ∧ ∀ d ∈ ds, d.validate = .ok () := by
  unfold canFuse at hfuses
  split at hfuses
  · rename_i m next
    exact ⟨_, rfl, List.forall_mem_singleton.mpr (MatrixOp.validate_followedBy ha hb)⟩
  · rename_i r next
    have hvalid : (r.fuse next).Valid := RangeOp.fuse_valid ha hb
    unfold RangeOp.canFuse at hfuses
    simp only [fuse]
    cases hfused : r.fuse next with
    | nothing => exact ⟨[], rfl, List.forall_mem_nil _⟩
    | range fused =>
      rw [hfused] at hvalid
      exact ⟨[range fused], rfl, List.forall_mem_singleton.mpr hvalid⟩
    | matrix fused =>
      rw [hfused] at hvalid
      exact ⟨[matrix fused], rfl, List.forall_mem_singleton.mpr hvalid⟩
    | inexpressible =>
      rw [hfused] at hfuses
      simp at hfuses
  · rename_i e next
    exact ⟨_, rfl, List.forall_mem_singleton.mpr (ExponentOp.validate_fuse ha hb hfuses)⟩
  · rename_i l next
    obtain ⟨fused, hfused, hvalid⟩ := Lut1DOp.fuse_valid ha hb
    refine ⟨[lut1D fused], ?_, List.forall_mem_singleton.mpr hvalid⟩
    simp only [fuse]
    rw [hfused]
    rfl
  · cases hfuses

end OpData

end ColorPipeline
