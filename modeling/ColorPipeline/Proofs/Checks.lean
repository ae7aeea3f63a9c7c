-- What the checks of ops let pass, said without the order in which they are made
-- and without the errors that they give.
import ColorPipeline.Op.Data

open scoped ColorPipeline.Scalar

namespace ColorPipeline

variable {P S : Type}

/-! ## Checks one after the other -/

theorem unless_eq_ok_iff {ε α : Type} {p : Prop} [Decidable p] {e : ε} {x : Except ε α} {a : α} :
    (if p then (do
      let _ ← (throw e : Except ε PUnit)
      x) else x) = .ok a ↔ ¬ p ∧ x = .ok a := by
  split
  · rename_i hp
    simp [hp, throw, throwThe, MonadExceptOf.throw, bind, Except.bind]
  · rename_i hp
    simp [hp]

/-- Two checks one after the other pass where both pass. -/
theorem seq_eq_ok_iff {ε : Type} {x y : Except ε Unit} :
    (do
      x
      y) = .ok () ↔ x = .ok () ∧ y = .ok () := by
  rcases x with e | u
  · simp [bind, Except.bind]
  · simp [bind, Except.bind]

theorem eq_ok_of_isOk {ε : Type} {x : Except ε Unit} (h : x.isOk) : x = .ok () := by
  cases x with
  | error e => cases h
  | ok u => rfl

/-- All four values have a property. -/
def Rgba.All (p : S → Prop) (v : Rgba S) : Prop := p v.red ∧ p v.green ∧ p v.blue ∧ p v.alpha

theorem Rgba.all_iff (p : S → Prop) (v : Rgba S) : v.All p ↔ ∀ a ∈ v.toList, p a := by
  simp [All, toList]

theorem Rgba.All.zipWith {T U : Type} {p : S → Prop} {q : T → Prop} {r : U → Prop}
    {f : S → T → U} {u : Rgba S} {v : Rgba T} (hu : u.All p) (hf : ∀ a b, p a → q b → r (f a b))
    (hv : v.All q) : (u.zipWith f v).All r :=
  ⟨hf _ _ hu.1 hv.1, hf _ _ hu.2.1 hv.2.1, hf _ _ hu.2.2.1 hv.2.2.1, hf _ _ hu.2.2.2 hv.2.2.2⟩

theorem Rgba.All.map {T : Type} {p : S → Prop} {q : T → Prop} {f : S → T} {v : Rgba S}
    (hv : v.All p) (hf : ∀ a, p a → q (f a)) : (v.map f).All q :=
  ⟨hf _ hv.1, hf _ hv.2.1, hf _ hv.2.2.1, hf _ hv.2.2.2⟩

theorem Rgb.forall_mem_toList (q : S → Prop) (p : Rgb S) :
    (∀ v ∈ p.toList, q v) ↔ ∀ c, q (p.get c) := by
  constructor
  · intro h c
    cases c <;> exact h _ (by simp [toList, get])
  · intro h v hv
    simp only [toList, List.mem_cons, List.not_mem_nil, or_false] at hv
    rcases hv with rfl | rfl | rfl
    · exact h .red
    · exact h .green
    · exact h .blue

def Rgba.IsFinite [Scalar S] (v : Rgba S) : Prop := v.All fun a => Scalar.isFinite a

def Matrix4.IsFinite [Scalar P] (m : Matrix4 P) : Prop := m.All Rgba.IsFinite

/-! ## Kinds of ops -/

theorem RangeOp.mem_bounds {r : RangeOp P} {v : P} :
    v ∈ r.bounds ↔ v ∈ r.minIn ∨ v ∈ r.maxIn ∨ v ∈ r.minOut ∨ v ∈ r.maxOut := by
  simp [bounds, eq_comm]

theorem mem_tableNumbers {entries : Array (Rgb S)} {v : S} :
    v ∈ tableNumbers entries ↔ ∃ p ∈ entries, v ∈ p.toList := by
  simp [tableNumbers]

section Parameters

variable [Scalar P]

theorem MatrixOp.validate_iff (m : MatrixOp P) :
    m.validate = .ok () ↔ Matrix4.IsFinite m.matrix ∧ m.offset.IsFinite := by
  have hnumbers : m.numbers.all Scalar.isFinite ↔
      Matrix4.IsFinite m.matrix ∧ m.offset.IsFinite := by
    unfold Matrix4.IsFinite Rgba.IsFinite
    simp only [numbers, List.all_append, List.all_flatMap, Bool.and_eq_true, List.all_eq_true,
      Rgba.all_iff]
  rw [← hnumbers]
  unfold validate
  split
  · rename_i h
    simp [h]
  · rename_i h
    simp [h]

/-- Both bounds of a pair are set or missing, all are finite, and upper bounds are above
lower ones. -/
structure RangeOp.Valid (r : RangeOp P) : Prop where
  minimum : r.minIn.isSome = r.minOut.isSome
  maximum : r.maxIn.isSome = r.maxOut.isSome
  finite : ∀ v ∈ r.bounds, Scalar.isFinite v
  input : ∀ lo ∈ r.minIn, ∀ hi ∈ r.maxIn, ¬ hi ≤ lo
  output : ∀ lo ∈ r.minOut, ∀ hi ∈ r.maxOut, ¬ hi ≤ lo

omit [Scalar P] in
/-- Bounds that are set together are both missing or both there. -/
theorem RangeOp.both_none_or_some {u v : Option P} (h : u.isSome = v.isSome) :
    u = none ∧ v = none ∨ ∃ x y, u = some x ∧ v = some y := by
  cases u with
  | none => exact .inl ⟨rfl, Option.not_isSome_iff_eq_none.mp (h ▸ nofun)⟩
  | some x => exact .inr ⟨x, v.get h.symm, rfl, (Option.some_get h.symm).symm⟩

theorem RangeOp.checkOrder_eq_ok_iff (side : RangeSide) (low high : Option P) :
    checkOrder side low high = .ok () ↔ ∀ lo ∈ low, ∀ hi ∈ high, ¬ hi ≤ lo := by
  unfold checkOrder
  split
  · rename_i lo hi
    split
    · rename_i h
      simp [h]
    · rename_i h
      simp [h]
  · rename_i hmissing
    simp only [true_iff]
    intro lo hlo hi hhi
    exact absurd hhi (hmissing lo hi hlo)

theorem RangeOp.validate_iff (r : RangeOp P) : r.validate = .ok () ↔ r.Valid := by
  unfold validate
  simp only [unless_eq_ok_iff, seq_eq_ok_iff, checkOrder_eq_ok_iff]
  constructor
  · rintro ⟨hmin, hmax, hfinite, hinput, houtput⟩
    refine ⟨Classical.not_not.mp hmin, Classical.not_not.mp hmax, ?_, hinput, houtput⟩
    simpa using hfinite
  · intro h
    refine ⟨Classical.not_not.mpr h.minimum, Classical.not_not.mpr h.maximum, ?_, h.input, h.output⟩
    simpa using h.finite

/-- The exponent is finite and not outside of what is allowed. -/
def ExponentOp.ValidValue (v : P) : Prop :=
  Scalar.isFinite v ∧ ¬ v < lowest ∧ ¬ highest < v

theorem ExponentOp.checkValue_eq_ok_iff (v : P) : checkValue v = .ok () ↔ ValidValue v := by
  unfold checkValue ValidValue
  split
  · rename_i h
    simp_all
  · split
    · rename_i h
      simp [h]
    · split
      · rename_i h
        simp [h]
      · simp_all

theorem ExponentOp.validate_iff (e : ExponentOp P) :
    e.validate = .ok () ↔ e.value.All ValidValue := by
  unfold validate
  simp only [seq_eq_ok_iff, checkValue_eq_ok_iff]
  rfl

end Parameters

section Tables

variable [Scalar S]

/-- Two samples are enough for a table of a function, whatever the function gives. -/
theorem Lut1D.ofFn_eq_ok {size : Nat} (f : S → Rgb S) (h : 2 ≤ size) :
    ofFn size f = .ok { samples := Array.ofFn (n := size) fun i => f (gridPoint size i) } := by
  have hsize : ¬ size < 2 := by omega
  unfold ofFn ofSamples
  rw [if_neg hsize, Array.size_ofFn, if_neg hsize]

/-- A curve op needs two samples and finite numbers. Only its inverse direction asks that the
samples do not fall. -/
theorem Lut1DOp.validate_iff (l : Lut1DOp S) :
    (l.validate : Except (OpError P) Unit) = .ok () ↔
      2 ≤ l.lut.size ∧ (∀ v ∈ tableNumbers l.lut.samples, Scalar.isFinite v) ∧
        (l.direction = .inverse → l.lut.isNonDecreasing) := by
  have hall : (∀ v ∈ tableNumbers l.lut.samples, Scalar.isFinite v) ↔
      (tableNumbers l.lut.samples).all Scalar.isFinite := List.all_eq_true.symm
  rw [hall]
  unfold validate
  by_cases hsize : l.lut.size < 2
  · have hshort : ¬ 2 ≤ l.lut.size := by omega
    simp [hsize, hshort]
  · have hlong : 2 ≤ l.lut.size := by omega
    rw [if_neg hsize]
    cases (tableNumbers l.lut.samples).all Scalar.isFinite
    · simp
    · cases l.direction <;> cases l.lut.isNonDecreasing <;> simp [hlong]

/-- A grid op is compared with the number of points that the machine counts, which is not that of
all points where the cube of the size does not fit. -/
theorem Lut3DOp.validate_iff (l : Lut3DOp S) :
    (l.validate : Except (OpError P) Unit) = .ok () ↔
      2 ≤ l.lut.size ∧ l.lut.entries.size = sizeCube l.lut.size ∧
        ∀ v ∈ tableNumbers l.lut.entries, Scalar.isFinite v := by
  have hall : (∀ v ∈ tableNumbers l.lut.entries, Scalar.isFinite v) ↔
      (tableNumbers l.lut.entries).all Scalar.isFinite := List.all_eq_true.symm
  rw [hall]
  unfold validate Lut3D.entryCount
  extract_lets size found
  by_cases hsmall : size < 2
  · simp [hsmall, show ¬ 2 ≤ l.lut.size from Nat.not_le.mpr hsmall]
  · rw [if_neg hsmall]
    have htwo : 2 ≤ l.lut.size := Nat.not_lt.mp hsmall
    by_cases hcount : found = sizeCube l.lut.size
    · have hcount' : l.lut.entries.size = sizeCube l.lut.size := hcount
      cases (tableNumbers l.lut.entries).all Scalar.isFinite <;> simp [hcount, hcount', htwo]
    · have hcount' : ¬ l.lut.entries.size = sizeCube l.lut.size := hcount
      simp [hcount, hcount']

end Tables

end ColorPipeline
