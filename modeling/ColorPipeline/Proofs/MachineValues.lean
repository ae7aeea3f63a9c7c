-- Machine numbers as rational numbers. An unpacked number has the value that its pattern stands
-- for, and finite numbers compare as their values do. A parameter is narrowed to the nearest
-- sample, so that it becomes infinite, zero or one from the middles around these numbers on.
import ColorPipeline.Proofs.MachineZeros
import ColorPipeline.Proofs.NearestNumbers

open scoped ColorPipeline.Scalar

namespace ColorPipeline

open Float.Model
open Float.Model.UnpackedFloat hiding pack unpack normalize round add sub mul div neg abs sqrt

/-! ## Unpacked numbers -/

/-- The format of patterns. -/
def binaryFormat (f : Format) : BinaryFormat := ⟨f.exponentBits, f.mantissaBitsWithoutImplicit⟩

/-- The value of an unpacked number. -/
def valueOf (f : Format) : UnpackedFloat → BinaryValue
  | .notANumber => .nan
  | .infinity s => .infinite (s == .negative)
  | .zero s => .finite (s == .negative) 0 (binaryFormat f).lowestExponent
  | .finite s m e _ => .finite (s == .negative) m e

section Unpacked

variable {f : Format}

theorem toNat_unpackExponent (b : BitVec f.numBits) : (unpackExponent b).toNat =
    b.toNat / 2 ^ f.mantissaBitsWithoutImplicit % 2 ^ f.exponentBits := by
  rw [unpackExponent_def, BitVec.extractLsb'_toNat, Nat.shiftRight_eq_div_pow]

theorem toNat_unpackMantissa (b : BitVec f.numBits) : (unpackMantissa b).toNat =
    b.toNat % 2 ^ f.mantissaBitsWithoutImplicit := by
  rw [unpackMantissa_def, BitVec.extractLsb'_toNat, Nat.shiftRight_zero]

theorem sign_unpackSign (b : BitVec f.numBits) :
    (Sign.ofBitVec (unpackSign b) == .negative) =
      (b.toNat / 2 ^ (f.exponentBits + f.mantissaBitsWithoutImplicit) % 2 == 1) := by
  have hbit : (unpackSign b).toNat =
      b.toNat / 2 ^ (f.exponentBits + f.mantissaBitsWithoutImplicit) % 2 := by
    rw [unpackSign_def, BitVec.extractLsb'_toNat, Nat.shiftRight_eq_div_pow,
      Nat.add_comm f.mantissaBitsWithoutImplicit, pow_one]
  rw [← hbit]
  generalize unpackSign b = bit
  revert bit
  decide

theorem lowestExponent_binaryFormat : (binaryFormat f).lowestExponent =
    1 - ((f.exponentBias : ℤ) + f.mantissaBitsWithoutImplicit) := by
  have hpow : 0 < 2 ^ (f.exponentBits - 1) := Nat.two_pow_pos _
  have hlow : (binaryFormat f).lowestExponent =
      2 - (2 ^ (f.exponentBits - 1) : ℕ) - f.mantissaBitsWithoutImplicit := rfl
  unfold Format.exponentBias
  omega

/-- A pattern stands for a number by its three fields. -/
theorem decode_fields (b : BitVec f.numBits) : (binaryFormat f).decode b.toNat =
    if (unpackExponent b).toNat = 2 ^ f.exponentBits - 1 then
      if (unpackMantissa b).toNat = 0 then
        .infinite (Sign.ofBitVec (unpackSign b) == .negative)
      else .nan
    else if (unpackExponent b).toNat = 0 then
      .finite (Sign.ofBitVec (unpackSign b) == .negative) (unpackMantissa b).toNat
        (binaryFormat f).lowestExponent
    else .finite (Sign.ofBitVec (unpackSign b) == .negative)
      (2 ^ f.mantissaBitsWithoutImplicit + (unpackMantissa b).toNat)
      ((binaryFormat f).lowestExponent + ((unpackExponent b).toNat - 1)) := by
  rw [toNat_unpackExponent, toNat_unpackMantissa, sign_unpackSign]
  rfl

/-- An unpacked number has the value that its pattern stands for. -/
theorem decode_eq_valueOf (b : BitVec f.numBits) :
    (binaryFormat f).decode b.toNat = valueOf f (UnpackedFloat.unpack f b) := by
  have hlowest := lowestExponent_binaryFormat (f := f)
  have htop : (unpackExponent b).toNat = 2 ^ f.exponentBits - 1 ↔ unpackExponent b = -1#_ := by
    rw [← BitVec.toNat_inj, BitVec.neg_one_eq_allOnes, BitVec.toNat_allOnes]
  have hzero : ∀ {n : ℕ} (v : BitVec n), v.toNat = 0 ↔ v = 0#n := fun v => by
    rw [← BitVec.toNat_inj, BitVec.toNat_zero]
  rw [decode_fields]
  unfold UnpackedFloat.unpack
  extract_lets mantissaVec exponentVec exponent signVec sign
  simp only [htop, hzero]
  split_ifs with hones hnone hlow hnone
  · rfl
  · rfl
  · exact congrArg (fun m => BinaryValue.finite (sign == .negative) m _) ((hzero _).mpr hnone)
  · have hexp : exponentVec.toNat = 0 := (hzero _).mpr hlow
    have hplace : exponent + 1 = (binaryFormat f).lowestExponent := by omega
    rw [← hplace]
    rfl
  · have hplace : (binaryFormat f).lowestExponent + (exponentVec.toNat - 1) = exponent := by omega
    have hfull : (1#1 ++ mantissaVec).toNat =
        2 ^ f.mantissaBitsWithoutImplicit + mantissaVec.toNat := by
      rw [BitVec.toNat_append, ← Nat.shiftLeft_add_eq_or_of_lt mantissaVec.isLt, Nat.shiftLeft_eq]
      exact congrArg (· + _) (Nat.one_mul _)
    rw [← hfull]
    exact congrArg (BinaryValue.finite _ _) hplace

/-- A pattern that is packed again stands for the same number. -/
theorem unpack_repacked (b : BitVec f.numBits) (hf : 2 ≤ f.exponentBits) :
    UnpackedFloat.unpack f (UnpackedFloat.pack f (UnpackedFloat.unpack f b)) =
      UnpackedFloat.unpack f b := by
  rw [pack_unpack b hf]
  split_ifs with hnan
  · have hparts := of_decide_eq_true hnan
    rw [unpack_packedNaN]
    simp only [UnpackedFloat.unpack, hparts.1, hparts.2, if_true, if_false]
  · rfl

/-- Finite numbers are those with a value. -/
theorem isFinite_iff_toRat? (u : UnpackedFloat) :
    u.isFinite ↔ ∃ x, (valueOf f u).toRat? = some x := by
  cases u with
  | notANumber => exact iff_of_false Bool.false_ne_true fun ⟨_, h⟩ => nomatch h
  | infinity s => exact iff_of_false Bool.false_ne_true fun ⟨_, h⟩ => nomatch h
  | zero s => exact iff_of_true rfl ⟨_, rfl⟩
  | finite s m e hm => exact iff_of_true rfl ⟨_, rfl⟩

/-! ## Comparisons -/

/-- Significands that are as large as they can be compare as their numbers once the exponents are
equal. -/
theorem compare_parts {m n : ℕ} {e k : ℤ} (h : Fits f m e)
    (hfull : e = f.minExponent ∨ 2 ^ f.mantissaBitsWithoutImplicit ≤ m) (h' : Fits f n k)
    (hfull' : k = f.minExponent ∨ 2 ^ f.mantissaBitsWithoutImplicit ≤ n) :
    (compare e k).then (compare m n) = compare ((m : ℚ) * 2 ^ e) (n * 2 ^ k) := by
  have hbits : 2 ^ f.mantissaBits = 2 * 2 ^ f.mantissaBitsWithoutImplicit := by
    rw [Format.mantissaBits, Nat.add_comm, Nat.pow_succ, Nat.mul_comm]
  have hleast := h.least
  have hleast' := h'.least
  rcases lt_trichotomy e k with hlt | rfl | hlt
  · have hvalue : (m : ℚ) * 2 ^ e < n * 2 ^ k :=
      BinaryFormat.mul_two_zpow_lt (hbits ▸ h.lt) (hfull'.resolve_left (by omega)) hlt
    rw [compare_lt_iff_lt.mpr hlt, compare_lt_iff_lt.mpr hvalue]
    rfl
  · have hpos := BinaryFormat.two_zpow_pos e
    rw [compare_eq_iff_eq.mpr rfl]
    rcases lt_trichotomy m n with hlt | rfl | hlt
    · have hvalue := mul_lt_mul_of_pos_right (Nat.cast_lt (α := ℚ).mpr hlt) hpos
      rw [compare_lt_iff_lt.mpr hlt, compare_lt_iff_lt.mpr hvalue]
      rfl
    · rw [compare_eq_iff_eq.mpr rfl, compare_eq_iff_eq.mpr rfl]
      rfl
    · have hvalue := mul_lt_mul_of_pos_right (Nat.cast_lt (α := ℚ).mpr hlt) hpos
      rw [compare_gt_iff_gt.mpr hlt, compare_gt_iff_gt.mpr hvalue]
      rfl
  · have hvalue : (n : ℚ) * 2 ^ k < m * 2 ^ e :=
      BinaryFormat.mul_two_zpow_lt (hbits ▸ h'.lt) (hfull.resolve_left (by omega)) hlt
    rw [compare_gt_iff_gt.mpr hlt, compare_gt_iff_gt.mpr hvalue]
    rfl

theorem compare_neg_neg (x y : ℚ) : compare (-x) (-y) = (compare x y).swap := by
  rcases lt_trichotomy x y with h | rfl | h
  · rw [compare_lt_iff_lt.mpr h, compare_gt_iff_gt.mpr (neg_lt_neg h)]
    rfl
  · rw [compare_eq_iff_eq.mpr rfl, compare_eq_iff_eq.mpr rfl]
    rfl
  · rw [compare_gt_iff_gt.mpr h, compare_lt_iff_lt.mpr (neg_lt_neg h)]
    rfl

theorem toRat?_zero (s : Sign) : (valueOf f (.zero s)).toRat? = some 0 := by
  cases s <;> simp [valueOf, BinaryValue.toRat?]

/-- Finite numbers compare as their values do. -/
theorem compare_unpacked {b c : BitVec f.numBits} {u v : UnpackedFloat} {x y : ℚ}
    (hu : UnpackedFloat.unpack f b = u) (hv : UnpackedFloat.unpack f c = v)
    (hx : (valueOf f u).toRat? = some x) (hy : (valueOf f v).toRat? = some y) :
    UnpackedFloat.compare u v = some (compare x y) := by
  have hpos : ∀ {m : ℕ} {e : ℤ}, 0 < m → (0 : ℚ) < m * 2 ^ e := fun hm =>
    mul_pos (Nat.cast_pos.mpr hm) (BinaryFormat.two_zpow_pos _)
  -- the signs decide, unless both numbers are on the same side of zero
  cases u with
  | notANumber => cases hx
  | infinity s => cases hx
  | zero s =>
    obtain rfl := Option.some.inj ((toRat?_zero s).symm.trans hx)
    cases v with
    | notANumber => cases hy
    | infinity t => cases hy
    | zero t =>
      obtain rfl := Option.some.inj ((toRat?_zero t).symm.trans hy)
      rfl
    | finite t n k hn =>
      obtain rfl := Option.some.inj hy
      cases t with
      | positive => exact congrArg some (compare_lt_iff_lt.mpr (hpos hn)).symm
      | negative => exact congrArg some (compare_gt_iff_gt.mpr (neg_lt_zero.mpr (hpos hn))).symm
  | finite s m e hm =>
    obtain rfl := Option.some.inj hx
    cases v with
    | notANumber => cases hy
    | infinity t => cases hy
    | zero t =>
      obtain rfl := Option.some.inj ((toRat?_zero t).symm.trans hy)
      cases s with
      | positive => exact congrArg some (compare_gt_iff_gt.mpr (hpos hm)).symm
      | negative => exact congrArg some (compare_lt_iff_lt.mpr (neg_lt_zero.mpr (hpos hm))).symm
    | finite t n k hn =>
      obtain rfl := Option.some.inj hy
      obtain ⟨hfits, hfull⟩ := fits_of_unpack hu
      obtain ⟨hfits', hfull'⟩ := fits_of_unpack hv
      have hparts := compare_parts hfits hfull hfits' hfull'
      cases s with
      | positive =>
        cases t with
        | positive => exact congrArg some hparts
        | negative =>
          exact congrArg some (compare_gt_iff_gt.mpr
            ((neg_lt_zero.mpr (hpos hn)).trans (hpos hm))).symm
      | negative =>
        cases t with
        | positive =>
          exact congrArg some (compare_lt_iff_lt.mpr
            ((neg_lt_zero.mpr (hpos hm)).trans (hpos hn))).symm
        | negative =>
          exact congrArg some ((congrArg Ordering.swap hparts).trans (compare_neg_neg _ _).symm)

end Unpacked

/-! ## Machine numbers -/

/-- The rational number that a machine number is, if it is one. -/
def Stored.toRat? {R : Type} [Stored R] (v : R) : Option ℚ := (Stored.value v).toRat?

theorem Stored.toRat?_of_value {R : Type} [Stored R] {v : R} {m : ℕ} {e : ℤ} {x : ℚ}
    (h : Stored.value v = .finite false m e) (hx : m * 2 ^ e = x) :
    Stored.toRat? v = some x := by
  unfold Stored.toRat?
  rw [h, ← hx]
  rfl

/-- Numbers whose patterns are those of unpacked numbers. -/
class LawfulValues (R : Type) [Scalar R] [Stored R] [Packed R] : Prop where
  value_eq (v : R) : Stored.value v = valueOf (Packed.format R) (Packed.unpack v)

instance : LawfulValues Float := ⟨fun v => decode_eq_valueOf (f := .binary64) v.toBits.toBitVec⟩

instance : LawfulValues Float32 := ⟨fun v => decode_eq_valueOf (f := .binary32) v.toBits.toBitVec⟩

namespace LawfulValues

variable {R : Type} [Scalar R] [Stored R] [Packed R] [LawfulValues R] {a b : R} {x y : ℚ}

theorem toRat?_eq (v : R) :
    Stored.toRat? v = (valueOf (Packed.format R) (Packed.unpack v)).toRat? :=
  congrArg BinaryValue.toRat? (value_eq v)

theorem isFinite_iff : Scalar.isFinite a ↔ ∃ x, Stored.toRat? a = some x := by
  rw [Packed.isFinite_eq, toRat?_eq]
  exact isFinite_iff_toRat? _

/-- Machine numbers with values are compared as the values are. -/
theorem compare_eq (ha : Stored.toRat? a = some x) (hb : Stored.toRat? b = some y) :
    UnpackedFloat.compare (Packed.unpack a) (Packed.unpack b) = some (compare x y) := by
  obtain ⟨c, hc⟩ := Packed.exists_bits a
  obtain ⟨d, hd⟩ := Packed.exists_bits b
  rw [toRat?_eq] at ha hb
  exact compare_unpacked hc.symm hd.symm ha hb

theorem lt_iff (ha : Stored.toRat? a = some x) (hb : Stored.toRat? b = some y) :
    a < b ↔ x < y := by
  rw [Packed.lt_iff]
  unfold UnpackedFloat.lt
  rw [compare_eq ha hb, beq_iff_eq, Option.some_inj, compare_lt_iff_lt]

theorem beq_iff (ha : Stored.toRat? a = some x) (hb : Stored.toRat? b = some y) :
    a == b ↔ x = y := by
  rw [Packed.beq_eq]
  unfold UnpackedFloat.beq
  rw [compare_eq ha hb, beq_iff_eq, Option.some_inj, compare_eq_iff_eq]

theorem isNaN_iff : Scalar.isNaN a ↔ Stored.value a = .nan := by
  rw [Packed.isNaN_eq, value_eq]
  cases Packed.unpack a with
  | notANumber => exact iff_of_true rfl rfl
  | infinity s => exact iff_of_false Bool.false_ne_true nofun
  | zero s => exact iff_of_false Bool.false_ne_true nofun
  | finite s m e hm => exact iff_of_false Bool.false_ne_true nofun

theorem not_isNaN_of_isFinite (h : Scalar.isFinite a) : ¬ Scalar.isNaN a := by
  obtain ⟨x, hx⟩ := isFinite_iff.mp h
  intro hnan
  unfold Stored.toRat? at hx
  rw [isNaN_iff.mp hnan] at hx
  cases hx

/-- What lies between two numbers is a number. -/
theorem exists_between {v : R} (ha : Stored.toRat? a = some x) (hb : Stored.toRat? b = some y)
    (hnan : ¬ Scalar.isNaN v) (hlow : ¬ v < a) (hhigh : ¬ b < v) :
    ∃ z, Stored.toRat? v = some z ∧ x ≤ z ∧ z ≤ y := by
  have hfinite : Scalar.isFinite v := by
    have ha' := isFinite_iff.mpr ⟨x, ha⟩
    have hb' := isFinite_iff.mpr ⟨y, hb⟩
    rw [Packed.isFinite_eq] at ha' hb' ⊢
    rw [Packed.isNaN_eq] at hnan
    rw [Packed.lt_iff] at hlow hhigh
    generalize Packed.unpack a = low at ha' hlow
    generalize Packed.unpack b = high at hb' hhigh
    generalize Packed.unpack v = u at hnan hlow hhigh ⊢
    cases u with
    | notANumber => exact absurd rfl hnan
    | infinity s =>
      cases s with
      | positive =>
        refine absurd ?_ hhigh
        cases high <;> first | rfl | cases hb'
      | negative =>
        refine absurd ?_ hlow
        cases low <;> first | rfl | cases ha'
    | zero s => rfl
    | finite s m e hm => rfl
  obtain ⟨z, hz⟩ := isFinite_iff.mp hfinite
  exact ⟨z, hz, not_lt.mp (mt (lt_iff hz ha).mpr hlow), not_lt.mp (mt (lt_iff hb hz).mpr hhigh)⟩

end LawfulValues

/-! ## Narrowing -/

section Narrowing

open BinaryFormat

/-- The parameter as a sample. -/
def narrowed (v : Float) : Float32 := Precision.narrow v

/-- A parameter is narrowed to what is stored of its value. -/
theorem value_narrowed (v : Float) :
    Stored.value (narrowed v) = single.decode (single.encode (Stored.value v)) := by
  have hbits : ∀ x : UInt32, Stored.value (Float32.ofBits x) = single.decode x.toNat := by
    intro x
    rw [LawfulValues.value_eq]
    have hunpack : Packed.unpack (Float32.ofBits x) =
        UnpackedFloat.unpack .binary32 x.toBitVec :=
      unpack_repacked (f := .binary32) x.toBitVec (by decide)
    rw [hunpack]
    exact (decode_eq_valueOf (f := .binary32) x.toBitVec).symm
  have hdef : narrowed v = Float32.ofBits (UInt32.ofNat (single.encode (Stored.value v))) := rfl
  rw [hdef, hbits, UInt32.toNat_ofNat_of_lt']
  exact encode_lt (by decide) _

/-- The parameter is a number that lies below the middle between the largest sample and the next
power of two. -/
def FitsSample (v : Float) : Prop := ∃ x, Stored.toRat? v = some x ∧ |x| < 2 ^ 128 - 2 ^ 103

/-- A number with a sign. -/
def signed (negative : Bool) (q : ℚ) : ℚ := if negative then -q else q

theorem abs_signed (negative : Bool) {q : ℚ} (hq : 0 ≤ q) : |signed negative q| = q := by
  cases negative
  · exact abs_of_nonneg hq
  · exact (abs_neg q).trans (abs_of_nonneg hq)

theorem lt_signed_iff {negative : Bool} {c q : ℚ} (hc : 0 ≤ c) (hq : 0 ≤ q) :
    c < signed negative q ↔ negative = false ∧ c < q := by
  cases negative
  · exact (and_iff_right rfl).symm
  · exact iff_of_false (not_lt.mpr ((neg_nonpos.mpr hq).trans hc)) (by simp)

variable {v : Float} {x y : ℚ} {negative : Bool} {m : ℕ} {e : ℤ}

theorem value_nonneg (m : ℕ) (e : ℤ) : (0 : ℚ) ≤ m * 2 ^ e :=
  mul_nonneg (Nat.cast_nonneg m) (two_zpow_pos e).le

theorem numberAt_nonneg (n : ℕ) : 0 ≤ single.numberAt n := value_nonneg _ _

theorem isFinite_narrowed_iff : Scalar.isFinite (narrowed v) ↔ FitsSample v := by
  have hfinite : Scalar.isFinite (narrowed v) ↔
      ∃ y, (single.decode (single.encode (Stored.value v))).toRat? = some y := by
    rw [LawfulValues.isFinite_iff, ← value_narrowed]
    rfl
  unfold FitsSample Stored.toRat?
  rw [hfinite]
  rcases Stored.value v with _ | s | ⟨negative, m, e⟩
  · exact iff_of_false (fun ⟨_, h⟩ => nomatch h) fun ⟨_, h, _⟩ => nomatch h
  · refine iff_of_false ?_ fun ⟨_, h, _⟩ => nomatch h
    cases s <;> exact fun ⟨_, h⟩ => nomatch h
  · have hvalue : (BinaryValue.finite negative m e).toRat? =
        some (signed negative (m * 2 ^ e)) := rfl
    have habs := abs_signed negative (value_nonneg m e)
    rw [toRat?_decode_encode, hvalue]
    by_cases htop : single.nearestCount m e = single.topField * 2 ^ single.fractionBits
    · have hlarge := nearestCount_single_eq_top.mp htop
      rw [if_pos htop]
      refine iff_of_false (fun ⟨_, h⟩ => nomatch h) ?_
      rintro ⟨x, hx, hlt⟩
      rw [← Option.some.inj hx, habs] at hlt
      exact absurd hlarge (not_le.mpr hlt)
    · have hsmall := not_le.mp (mt nearestCount_single_eq_top.mpr htop)
      rw [if_neg htop]
      exact iff_of_true ⟨_, rfl⟩ ⟨_, rfl, habs.trans_lt hsmall⟩

/-- Rounding makes an infinity at worst. -/
theorem not_isNaN_narrowed (h : Scalar.isFinite v) : ¬ Scalar.isNaN (narrowed v) := by
  obtain ⟨x, hx⟩ := LawfulValues.isFinite_iff.mp h
  rw [LawfulValues.isNaN_iff, value_narrowed]
  unfold Stored.toRat? at hx
  rcases hvalue : Stored.value v with _ | s | ⟨negative, m, e⟩
  · rw [hvalue] at hx
    cases hx
  · rw [hvalue] at hx
    cases hx
  · rw [decode_encode]
    split_ifs <;> exact nofun

/-- A parameter that fits becomes the sample of its nearest count. -/
theorem exists_nearest (h : Stored.toRat? v = some x) (hx : |x| < 2 ^ 128 - 2 ^ 103) :
    ∃ negative, ∃ m : ℕ, ∃ e, x = signed negative (m * 2 ^ e) ∧ Stored.toRat? (narrowed v) =
      some (signed negative (single.numberAt (single.nearestCount m e))) := by
  unfold Stored.toRat? at h ⊢
  rw [value_narrowed]
  rcases hvalue : Stored.value v with _ | s | ⟨negative, m, e⟩
  · rw [hvalue] at h
    cases h
  · rw [hvalue] at h
    cases h
  · rw [hvalue] at h
    obtain rfl : signed negative (m * 2 ^ e) = x := Option.some.inj h
    rw [abs_signed negative (value_nonneg m e), ← not_le, ← nearestCount_single_eq_top] at hx
    refine ⟨negative, m, e, rfl, ?_⟩
    rw [toRat?_decode_encode, if_neg hx]
    rfl

/-- Where a sample is positive and where it is 1, by the parameter that it comes from. -/
structure Rounds (x y : ℚ) : Prop where
  pos_iff : 0 < y ↔ 1 / 2 ^ 150 < x
  one_iff : y = 1 ↔ 1 - 1 / 2 ^ 25 ≤ x ∧ x ≤ 1 + 1 / 2 ^ 24
  gap : 0 < y → y ≠ 1 → y ≤ 1 - 1 / 2 ^ 24 ∨ 1 + 1 / 2 ^ 23 ≤ y

theorem rounds_signed (negative : Bool) (m : ℕ) (e : ℤ) : Rounds (signed negative (m * 2 ^ e))
    (signed negative (single.numberAt (single.nearestCount m e))) := by
  have hmono := numberAt_strictMono single
  have hpos : 0 < single.numberAt (single.nearestCount m e) ↔ 1 / 2 ^ 150 < (m : ℚ) * 2 ^ e := by
    rw [← numberAt_single_zero, hmono.lt_iff_lt, nearestCount_single_pos]
  constructor
  · rw [lt_signed_iff le_rfl (numberAt_nonneg _), lt_signed_iff (by positivity) (value_nonneg m e),
      hpos]
  · cases negative with
    | false =>
      change single.numberAt _ = 1 ↔ _
      rw [← numberAt_single_one, hmono.injective.eq_iff, nearestCount_single_eq_one,
        numberAt_single_one]
      rfl
    | true =>
      have hnumber := numberAt_nonneg (single.nearestCount m e)
      have hvalue := value_nonneg m e
      change -single.numberAt _ = 1 ↔ 1 - 1 / 2 ^ 25 ≤ -((m : ℚ) * 2 ^ e) ∧ _
      refine iff_of_false (by linarith) ?_
      rintro ⟨h, -⟩
      linarith
  · intro h hne
    obtain ⟨rfl, -⟩ := (lt_signed_iff le_rfl (numberAt_nonneg _)).mp h
    exact numberAt_single_next hne

/-- What fits is rounded to the nearest sample. -/
theorem exists_rounds (h : Stored.toRat? v = some x) (hx : |x| < 2 ^ 128 - 2 ^ 103) :
    ∃ y, Stored.toRat? (narrowed v) = some y ∧ Rounds x y := by
  obtain ⟨negative, m, e, rfl, hnarrowed⟩ := exists_nearest h hx
  exact ⟨_, hnarrowed, rounds_signed negative m e⟩

theorem exists_rounds_of_isFinite (hx : Stored.toRat? v = some x)
    (h : Scalar.isFinite (narrowed v)) : |x| < 2 ^ 128 - 2 ^ 103 ∧
      ∃ y, Stored.toRat? (narrowed v) = some y ∧ Rounds x y := by
  obtain ⟨x', hx', hfits⟩ := isFinite_narrowed_iff.mp h
  obtain rfl := Option.some.inj (hx'.symm.trans hx)
  exact ⟨hfits, exists_rounds hx hfits⟩

end Narrowing

end ColorPipeline
