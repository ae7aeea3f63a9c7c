-- Machine numbers show the sign of a zero only where it is divided by. Their operations are
-- those of unpacked numbers, where a zero is a case of its own. Rounding leaves no zero of a
-- number that is not one, since no sum lies below the least number of its format.
import ColorPipeline.Proofs.MachineNumbers
import ColorPipeline.Proofs.ZeroSigns
import Mathlib

open scoped ColorPipeline.Scalar

namespace ColorPipeline

open Float.Model
open Float.Model.UnpackedFloat hiding pack unpack normalize round add sub mul div neg abs sqrt

/-! ## Rounding -/

/-- A significand and an exponent as a format has them, if not in their least form. -/
structure Fits (f : Format) (m : Nat) (e : Int) : Prop where
  pos : 0 < m
  lt : m < 2 ^ f.mantissaBits
  least : f.minExponent ≤ e

/-- Shifted bits are lost from the significand, whatever is remembered of them. -/
theorem mantissa_shiftRight (em : ExtendedMantissa) (n : Nat) :
    (em >>> n).mantissa = em.mantissa / 2 ^ n := by
  change (n.repeat ExtendedMantissa.shiftRightOne em).mantissa = _
  induction n with
  | zero => exact (Nat.div_one _).symm
  | succ n ih =>
    change (n.repeat ExtendedMantissa.shiftRightOne em).mantissa / 2 = _
    rw [ih, Nat.div_div_eq_div_mul, Nat.pow_succ]

theorem mantissa_ofMantissaAndAccuracy (m : Nat) (accuracy : Accuracy) :
    (ExtendedMantissa.ofMantissaAndAccuracy m accuracy).mantissa = m := by
  rcases accuracy with _ | ⟨_ | _ | _⟩ <;> rfl

/-- Rounding never goes below what is kept. -/
theorem le_roundedMantissa (em : ExtendedMantissa) : em.mantissa ≤ em.roundedMantissa := by
  obtain ⟨m, _ | _, _ | _⟩ := em
  · exact le_rfl
  · exact le_rfl
  · exact Nat.le_add_right _ _
  · exact Nat.le_add_right _ _

namespace Fits

variable {f : Format} {m : Nat} {e : Int}

/-- A significand that is moved to its place still fits, and is not lost. -/
theorem shift (accuracy : Accuracy) (hm : 0 < m) (he : f.minExponent ≤ e) :
    Fits f (shiftToTargetExponent f m e accuracy).1.mantissa
      (shiftToTargetExponent f m e accuracy).2 := by
  unfold shiftToTargetExponent shiftToExponent Format.targetExponent totalExponent
  dsimp only
  rw [mantissa_shiftRight, mantissa_ofMantissaAndAccuracy]
  have hbits : 1 ≤ f.mantissaBits := Nat.le_add_right 1 _
  generalize hn : (max ((m.log2 : Int) + 1 + e - f.mantissaBits) f.minExponent - e).toNat = n
  have hle : n ≤ m.log2 := by omega
  have hge : m.log2 + 1 ≤ n + f.mantissaBits := by omega
  refine ⟨Nat.div_pos ?_ (Nat.two_pow_pos n), ?_, by omega⟩
  · exact (Nat.pow_le_pow_right (by decide) hle).trans (Nat.log2_self_le hm.ne')
  · rw [Nat.div_lt_iff_lt_mul (Nat.two_pow_pos n), ← Nat.pow_add, Nat.add_comm]
    exact Nat.lt_log2_self.trans_le (Nat.pow_le_pow_right (by decide) hge)

theorem exists_roundWithAccuracy (s : Sign) (accuracy : Accuracy) (hm : 0 < m)
    (he : f.minExponent ≤ e) : ∃ n k hn,
      roundWithAccuracy f s m e accuracy = .finite s n k hn ∧ Fits f n k := by
  have hfirst := shift accuracy hm he
  have hsecond := shift .exact (hfirst.pos.trans_le (le_roundedMantissa _)) hfirst.least
  refine ⟨_, _, hsecond.pos, ?_, hsecond⟩
  unfold roundWithAccuracy
  dsimp only
  rw [dif_neg hsecond.pos.ne']

/-- Rounding leaves no zero of a number that is not one. -/
theorem exists_round (s : Sign) (hm : 0 < m) (he : f.minExponent ≤ e) : ∃ n k hn,
    UnpackedFloat.round f s m e = .finite s n k hn ∧ Fits f n k := by
  unfold UnpackedFloat.round decreaseExponent
  have htarget : f.minExponent ≤ f.targetExponent (totalExponent m e) := le_max_right _ _
  refine exists_roundWithAccuracy s .exact ?_ (by omega)
  rw [Nat.shiftLeft_eq]
  exact Nat.mul_pos hm (Nat.two_pow_pos _)

theorem exists_normalize {n : Int} (zeroSign : Sign) (hn : n ≠ 0) (he : f.minExponent ≤ e) :
    ∃ s m k hm, UnpackedFloat.normalize f n e zeroSign = .finite s m k hm ∧ Fits f m k := by
  unfold UnpackedFloat.normalize
  rcases hcompare : compare n 0 with _ | _ | _
  · rw [compare_lt_iff_lt] at hcompare
    exact ⟨_, exists_round .negative (by omega) he⟩
  · exact absurd (compare_eq_iff_eq.mp hcompare) hn
  · rw [compare_gt_iff_gt] at hcompare
    exact ⟨_, exists_round .positive (by omega) he⟩

end Fits

/-! ## Packing -/

section Packing

variable {f : Format} {b : BitVec f.numBits} {s t : Sign} {m : Nat} {e : Int} {hm : 0 < m}

/-- A packed finite number fits, and its significand is as large as it can be. -/
theorem fits_of_unpack (h : UnpackedFloat.unpack f b = .finite s m e hm) :
    Fits f m e ∧ (e = f.minExponent ∨ 2 ^ f.mantissaBitsWithoutImplicit ≤ m) := by
  unfold UnpackedFloat.unpack at h
  extract_lets mantissaVec exponentVec exponent signVec sign at h
  have hmantissa := mantissaVec.isLt
  have hmin : f.minExponent = 1 - ((f.exponentBias : Int) + f.mantissaBitsWithoutImplicit) := by
    have hpow : 0 < 2 ^ (f.exponentBits - 1) := Nat.two_pow_pos _
    unfold Format.minExponent Format.exponentBias Format.mantissaBits
    push_cast [Nat.cast_sub hpow]
    ring
  have hbits : 2 ^ f.mantissaBits = 2 ^ f.mantissaBitsWithoutImplicit * 2 := by
    rw [← Nat.pow_succ, Format.mantissaBits, Nat.add_comm]
  split at h
  · split at h <;> cases h
  · split at h
    · rename_i hexponent
      split at h
      · cases h
      · injection h with _ hm' he'
        have hzero : exponentVec.toNat = 0 := congrArg BitVec.toNat hexponent
        exact ⟨⟨hm, by omega, by omega⟩, .inl (by omega)⟩
    · rename_i hexponent
      injection h with _ hm' he'
      have hpos : exponentVec.toNat ≠ 0 := fun hzero =>
        hexponent (BitVec.eq_of_toNat_eq hzero)
      rw [BitVec.toNat_append, ← Nat.shiftLeft_add_eq_or_of_lt hmantissa, Nat.shiftLeft_eq] at hm'
      change 1 * _ + _ = m at hm'
      exact ⟨⟨hm, by omega, by omega⟩, .inr (by omega)⟩

theorem exponent_ne_of_unpack (h : UnpackedFloat.unpack f b = .zero s) :
    unpackExponent b ≠ -1#_ ∧ unpackExponent b = 0#_ ∧ unpackMantissa b = 0#_ := by
  unfold UnpackedFloat.unpack at h
  extract_lets mantissaVec exponentVec exponent signVec sign at h
  split at h
  · split at h <;> cases h
  · rename_i htop
    split at h
    · rename_i hexponent
      split at h
      · rename_i hmantissa
        exact ⟨htop, hexponent, hmantissa⟩
      · cases h
    · cases h

theorem unpack_packedInfinity_ne : UnpackedFloat.unpack f (packedInfinity f s) ≠ .zero t := by
  intro h
  refine (exponent_ne_of_unpack h).1 ?_
  rw [packedInfinity, unpackExponent_packComponents]

theorem unpack_packedNaN_ne : UnpackedFloat.unpack f (packedNaN f) ≠ .zero t := by
  intro h
  refine (exponent_ne_of_unpack h).1 ?_
  rw [packedNaN, unpackExponent_packComponents]

/-- A number that fits is not packed as a zero. -/
theorem Fits.unpack_pack_ne (h : Fits f m e) :
    UnpackedFloat.unpack f (UnpackedFloat.pack f (.finite s m e hm)) ≠ .zero t := by
  have hleast := h.least
  have hlt := h.lt
  have hpow : 0 < 2 ^ (f.exponentBits - 1) := Nat.two_pow_pos _
  unfold Format.minExponent at hleast
  unfold Format.mantissaBits at hleast hlt
  unfold UnpackedFloat.pack
  extract_lets actualMantissaBits biasedExponent
  split
  · exact unpack_packedInfinity_ne
  · split
    · -- A normal number, whose exponent shows.
      intro hzero
      have hexponent := (exponent_ne_of_unpack hzero).2.1
      rw [unpackExponent_packComponents] at hexponent
      have hvalue := congrArg BitVec.toNat hexponent
      rw [BitVec.toNat_ofNat, BitVec.toNat_ofNat, Nat.zero_mod,
        Nat.mod_eq_of_lt (by omega)] at hvalue
      have hbias : biasedExponent = (e + (2 ^ (f.exponentBits - 1) - 1 : Nat) +
        f.mantissaBitsWithoutImplicit).toNat := rfl
      push_cast [Nat.cast_sub hpow] at hbias hleast
      omega
    · -- A subnormal number, whose significand shows.
      rename_i hsubnormal
      intro hzero
      have hmantissa := (exponent_ne_of_unpack hzero).2.2
      rw [unpackMantissa_packComponents] at hmantissa
      have hsmall : m < 2 ^ f.mantissaBitsWithoutImplicit := by
        by_contra hge
        have hlow := (Nat.le_log2 hm.ne').mpr (not_lt.mp hge)
        have hhigh := (Nat.log2_lt hm.ne').mpr hlt
        refine hsubnormal ?_
        change m.log2 + 1 = 1 + _
        omega
      have hvalue := congrArg BitVec.toNat hmantissa
      rw [BitVec.toNat_ofNat, BitVec.toNat_ofNat, Nat.zero_mod, Nat.mod_eq_of_lt hsmall] at hvalue
      omega

/-- A sum that is not zero is not packed as a zero. -/
theorem unpack_pack_normalize_ne {n : Int} (hn : n ≠ 0) (he : f.minExponent ≤ e) :
    UnpackedFloat.unpack f (UnpackedFloat.pack f (UnpackedFloat.normalize f n e s)) ≠ .zero t := by
  obtain ⟨_, _, _, _, hnormalize, hfits⟩ := Fits.exists_normalize s hn he
  rw [hnormalize]
  exact hfits.unpack_pack_ne

/-- A sum that is zero has the sign that is chosen for it. -/
theorem unpack_pack_normalize_plain (n : Int) (he : f.minExponent ≤ e) :
    UnpackedFloat.unpack f (UnpackedFloat.pack f (UnpackedFloat.normalize f n e .positive)) ≠
      .zero .negative := by
  by_cases hn : n = 0
  · rw [hn]
    intro h
    cases unpack_packedZero.symm.trans h
  · exact unpack_pack_normalize_ne hn he

end Packing

/-! ## Signs -/

/-- Without a minus sign. -/
def IsPositive : UnpackedFloat → Prop
  | .notANumber => True
  | .infinity s => s = .positive
  | .zero s => s = .positive
  | .finite s _ _ _ => s = .positive

section Signs

variable {f : Format} {u v : UnpackedFloat}

theorem isPositive_unpack {b : BitVec f.numBits} (h : unpackSign b = 0#1) :
    IsPositive (UnpackedFloat.unpack f b) := by
  unfold UnpackedFloat.unpack
  extract_lets mantissaVec exponentVec exponent signVec sign
  have hsign : sign = .positive := by
    change Sign.ofBitVec (unpackSign b) = _
    rw [h]
    rfl
  rw [hsign]
  split_ifs <;> trivial

theorem IsPositive.unpackSign_pack (h : IsPositive u) :
    unpackSign (UnpackedFloat.pack f u) = 0#1 := by
  cases u with
  | notANumber => exact unpackSign_packComponents _ _ _
  | infinity s => cases h; exact unpackSign_packComponents _ _ _
  | zero s => cases h; exact unpackSign_packComponents _ _ _
  | finite s m e hm =>
    cases h
    unfold UnpackedFloat.pack
    extract_lets actualMantissaBits biasedExponent
    split_ifs <;> exact unpackSign_packComponents _ _ _

theorem IsPositive.unpack_pack (h : IsPositive u) :
    IsPositive (UnpackedFloat.unpack f (UnpackedFloat.pack f u)) :=
  isPositive_unpack h.unpackSign_pack

/-- Rounding keeps the sign, also where it overflows. -/
theorem isPositive_roundWithAccuracy {m : Nat} {e : Int} {accuracy : Accuracy} :
    IsPositive (roundWithAccuracy f .positive m e accuracy) := by
  unfold roundWithAccuracy
  dsimp only
  split <;> rfl

theorem IsPositive.mul (hu : IsPositive u) (hv : IsPositive v) :
    IsPositive (UnpackedFloat.mul f u v) := by
  cases u <;> cases v <;> cases hu <;> cases hv <;>
    first | rfl | trivial | exact isPositive_roundWithAccuracy

theorem IsPositive.div (hu : IsPositive u) (hv : IsPositive v) :
    IsPositive (UnpackedFloat.div f u v) := by
  cases u <;> cases v <;> cases hu <;> cases hv <;>
    first | rfl | trivial | exact isPositive_roundWithAccuracy

theorem isPositive_ofNat {n : Nat} : IsPositive (UnpackedFloat.ofNat f n) := by
  unfold UnpackedFloat.ofNat UnpackedFloat.ofInt UnpackedFloat.normalize
  split
  · rename_i hlt
    rw [compare_lt_iff_lt] at hlt
    omega
  · rfl
  · exact isPositive_roundWithAccuracy

theorem isPositive_ofScientific {m : Nat} {e : Int} :
    IsPositive (UnpackedFloat.ofScientific f m e) := by
  unfold UnpackedFloat.ofScientific
  split_ifs
  · rfl
  · rfl
  · rfl
  · exact IsPositive.mul rfl rfl
  · exact IsPositive.div rfl rfl

end Signs

/-! ## Zeros -/

/-- The same number, or two zeros. -/
def ZerosMatch (u v : UnpackedFloat) : Prop := u = v ∨ ∃ s t, u = .zero s ∧ v = .zero t

namespace ZerosMatch

variable {f : Format} {u v x y : UnpackedFloat}

theorem zero (s t : Sign) : ZerosMatch (.zero s) (.zero t) := .inr ⟨s, t, rfl, rfl⟩

theorem trans {w : UnpackedFloat} (huv : ZerosMatch u v) (hvw : ZerosMatch v w) :
    ZerosMatch u w := by
  rcases huv with rfl | ⟨s, t, rfl, rfl⟩
  · exact hvw
  · rcases hvw with rfl | ⟨_, t', _, rfl⟩
    · exact zero s t
    · exact zero s t'

/-- An operation keeps the match where it does for the signs of one zero at a time. -/
theorem binary (op : UnpackedFloat → UnpackedFloat → UnpackedFloat)
    (hleft : ∀ x s t, ZerosMatch (op (.zero s) x) (op (.zero t) x))
    (hright : ∀ u s t, ZerosMatch (op u (.zero s)) (op u (.zero t)))
    (huv : ZerosMatch u v) (hxy : ZerosMatch x y) : ZerosMatch (op u x) (op v y) := by
  have hfirst : ZerosMatch (op u x) (op v x) := by
    rcases huv with rfl | ⟨s, t, rfl, rfl⟩
    · exact .inl rfl
    · exact hleft x s t
  have hsecond : ZerosMatch (op v x) (op v y) := by
    rcases hxy with rfl | ⟨s, t, rfl, rfl⟩
    · exact .inl rfl
    · exact hright v s t
  exact hfirst.trans hsecond

/-- Sums of numbers that differ in the sign of a zero differ at most in that. The other operations
do as well, one by one. -/
theorem add (huv : ZerosMatch u v) (hxy : ZerosMatch x y) :
    ZerosMatch (UnpackedFloat.add f u x) (UnpackedFloat.add f v y) := by
  refine binary (UnpackedFloat.add f) ?_ ?_ huv hxy
  · intro x s t
    cases x <;> first
      | exact .inl rfl
      | simp only [UnpackedFloat.add]
        split_ifs <;> exact zero _ _
  · intro u s t
    cases u <;> first
      | exact .inl rfl
      | simp only [UnpackedFloat.add]
        split_ifs <;> exact zero _ _

theorem sub (huv : ZerosMatch u v) (hxy : ZerosMatch x y) :
    ZerosMatch (UnpackedFloat.sub f u x) (UnpackedFloat.sub f v y) := by
  refine binary (UnpackedFloat.sub f) ?_ ?_ huv hxy
  · intro x s t
    cases x <;> first
      | exact .inl rfl
      | simp only [UnpackedFloat.sub]
        split_ifs <;> exact zero _ _
  · intro u s t
    cases u <;> first
      | exact .inl rfl
      | simp only [UnpackedFloat.sub]
        split_ifs <;> exact zero _ _

theorem mul (huv : ZerosMatch u v) (hxy : ZerosMatch x y) :
    ZerosMatch (UnpackedFloat.mul f u x) (UnpackedFloat.mul f v y) := by
  refine binary (UnpackedFloat.mul f) ?_ ?_ huv hxy
  · intro x s t
    cases x <;> first | exact .inl rfl | exact zero _ _
  · intro u s t
    cases u <;> first | exact .inl rfl | exact zero _ _

/-- A divisor has to stay as it is, since the sign of a zero shows in an infinity. -/
theorem div (huv : ZerosMatch u v) :
    ZerosMatch (UnpackedFloat.div f u x) (UnpackedFloat.div f v x) := by
  rcases huv with rfl | ⟨s, t, rfl, rfl⟩
  · exact .inl rfl
  · cases x <;> first | exact .inl rfl | exact zero _ _

theorem neg (h : ZerosMatch u v) : ZerosMatch u.neg v.neg := by
  rcases h with rfl | ⟨s, t, rfl, rfl⟩
  · exact .inl rfl
  · exact zero _ _

theorem abs (h : ZerosMatch u v) : ZerosMatch u.abs v.abs := by
  rcases h with rfl | ⟨s, t, rfl, rfl⟩
  · exact .inl rfl
  · exact zero _ _

theorem sqrt (h : ZerosMatch u v) :
    ZerosMatch (UnpackedFloat.sqrt f u) (UnpackedFloat.sqrt f v) := by
  rcases h with rfl | ⟨s, t, rfl, rfl⟩
  · exact .inl rfl
  · exact zero _ _

/-- Comparisons do not see the sign of a zero. -/
theorem compare (huv : ZerosMatch u v) (hxy : ZerosMatch x y) :
    UnpackedFloat.compare u x = UnpackedFloat.compare v y := by
  rcases huv with rfl | ⟨s, t, rfl, rfl⟩ <;> rcases hxy with rfl | ⟨s', t', rfl, rfl⟩
  · rfl
  · rcases u with (_ | _) | _ | _ | ⟨_ | _, m, e, hm⟩ <;> rfl
  · rcases x with (_ | _) | _ | _ | ⟨_ | _, m, e, hm⟩ <;> rfl
  · rfl

end ZerosMatch

/-- A number in its least form has no other with a smaller exponent. -/
theorem Fits.eq_of_shifted {f : Format} {m n : Nat} {e k : Int} (h : Fits f m e)
    (hleast : k = f.minExponent ∨ 2 ^ f.mantissaBitsWithoutImplicit ≤ n) (hek : e ≤ k)
    (hmn : m = n <<< (k - e).toNat) : m = n ∧ e = k := by
  have hlt := h.lt
  have hmin := h.least
  rw [Nat.shiftLeft_eq] at hmn
  unfold Format.mantissaBits at hlt
  rcases hd : (k - e).toNat with _ | d
  · rw [hd, Nat.pow_zero, Nat.mul_one] at hmn
    exact ⟨hmn, by omega⟩
  · have hlarge : 2 ^ f.mantissaBitsWithoutImplicit ≤ n := hleast.resolve_left (by omega)
    have hge : 2 ^ (1 + f.mantissaBitsWithoutImplicit) ≤ m := by
      rw [hmn, hd, Nat.pow_add, Nat.mul_comm]
      exact Nat.mul_le_mul hlarge (Nat.le_self_pow d.succ_ne_zero 2)
    omega

theorem apply_inj {s t : Sign} {m n : Nat} (hm : 0 < m) (hn : 0 < n)
    (h : s.apply m = t.apply n) : s = t ∧ m = n := by
  cases s <;> cases t <;> simp only [Sign.apply] at h <;> first | exact ⟨rfl, by omega⟩ | omega

/-- Nothing is between two numbers that are not the same. -/
theorem zerosMatch_of_sub {f : Format} {u v : UnpackedFloat} {b c : BitVec f.numBits} {s : Sign}
    (hu : u = UnpackedFloat.unpack f b) (hv : v = UnpackedFloat.unpack f c)
    (hfinite : u.isFinite) (hfinite' : v.isFinite)
    (h : UnpackedFloat.unpack f (UnpackedFloat.pack f (UnpackedFloat.sub f u v)) = .zero s) :
    ZerosMatch u v := by
  cases u with
  | notANumber => cases hfinite
  | infinity s => cases hfinite
  | zero s =>
    cases v with
    | notANumber => cases hfinite'
    | infinity s => cases hfinite'
    | zero t => exact .zero s t
    | finite t n k hn => exact absurd h (fits_of_unpack hv.symm).1.unpack_pack_ne
  | finite s m e hm =>
    cases v with
    | notANumber => cases hfinite'
    | infinity s => cases hfinite'
    | zero t => exact absurd h (fits_of_unpack hu.symm).1.unpack_pack_ne
    | finite t n k hn =>
      obtain ⟨hfits, hleast⟩ := fits_of_unpack hu.symm
      obtain ⟨hfits', hleast'⟩ := fits_of_unpack hv.symm
      have hnone :
          s.apply (m <<< (e - min e k).toNat) - t.apply (n <<< (k - min e k).toNat) = 0 := by
        by_contra hsome
        exact unpack_pack_normalize_ne hsome (le_min hfits.least hfits'.least) h
      obtain ⟨rfl, hsame⟩ := apply_inj (by rw [Nat.shiftLeft_eq]; positivity)
        (by rw [Nat.shiftLeft_eq]; positivity) (sub_eq_zero.mp hnone)
      rcases le_total e k with hek | hek
      · rw [min_eq_left hek, sub_self, Int.toNat_zero, Nat.shiftLeft_zero] at hsame
        obtain ⟨rfl, rfl⟩ := hfits.eq_of_shifted hleast' hek hsame
        exact .inl rfl
      · rw [min_eq_right hek, sub_self, Int.toNat_zero, Nat.shiftLeft_zero] at hsame
        obtain ⟨rfl, rfl⟩ := hfits'.eq_of_shifted hleast hek hsame.symm
        exact .inl rfl

/-! ## Machine numbers -/

/-- Numbers whose operations are those of unpacked numbers. -/
class Packed (R : Type) [Scalar R] where
  format : Format
  unpack : R → UnpackedFloat
  pack : UnpackedFloat → R
  pack_unpack (a : R) : pack (unpack a) = a
  unpack_pack (u : UnpackedFloat) :
    unpack (pack u) = UnpackedFloat.unpack format (UnpackedFloat.pack format u)
  exists_bits (a : R) : ∃ b, unpack a = UnpackedFloat.unpack format b
  add_eq (a b : R) : a + b = pack (.add format (unpack a) (unpack b))
  sub_eq (a b : R) : a - b = pack (.sub format (unpack a) (unpack b))
  mul_eq (a b : R) : a * b = pack (.mul format (unpack a) (unpack b))
  div_eq (a b : R) : a / b = pack (.div format (unpack a) (unpack b))
  neg_eq (a : R) : -a = pack (unpack a).neg
  abs_eq (a : R) : Scalar.abs a = pack (unpack a).abs
  sqrt_eq (a : R) : Scalar.sqrt a = pack (.sqrt format (unpack a))
  lt_iff (a b : R) : a < b ↔ (unpack a).lt (unpack b)
  le_iff (a b : R) : a ≤ b ↔ (unpack a).le (unpack b)
  beq_eq (a b : R) : (a == b) = (unpack a).beq (unpack b)
  isNaN_eq (a : R) : Scalar.isNaN a = (unpack a).isNaN
  isFinite_eq (a : R) : Scalar.isFinite a = (unpack a).isFinite
  unpack_zero : unpack 0 = .zero .positive
  isPositive_ofNat (n : Nat) : IsPositive (unpack (Scalar.ofNat n))
  decimal_pos (places : Nat) : places ≤ 10 → (0 : R) < Scalar.ofDecimal 1 true places

instance : Packed Float where
  format := .binary64
  unpack a := a.toModel.unpack
  pack u := ⟨Float.Model.pack u⟩
  pack_unpack a := pack_of_unpack rfl
  unpack_pack u := rfl
  exists_bits a := ⟨_, rfl⟩
  add_eq a b := rfl
  sub_eq a b := rfl
  mul_eq a b := rfl
  div_eq a b := rfl
  neg_eq a := rfl
  abs_eq a := rfl
  sqrt_eq a := rfl
  lt_iff a b := decide_eq_true_iff
  le_iff a b := decide_eq_true_iff
  beq_eq a b := rfl
  isNaN_eq a := rfl
  isFinite_eq a := rfl
  unpack_zero := unpack_zero
  isPositive_ofNat n := by
    change IsPositive (Float.ofScientific n false 0).toModel.unpack
    unfold Float.ofScientific
    have hone : @unpackSign .binary64 (Float.ofBits 0x3FF0000000000000).toBits.toBitVec = 0#1 := by
      decide +kernel
    split
    · exact (isPositive_ofNat.unpack_pack.mul (isPositive_unpack hone)).unpack_pack
    · exact isPositive_ofScientific.unpack_pack
  decimal_pos places h := by
    interval_cases places <;> decide +kernel

instance : Packed Float32 where
  format := .binary32
  unpack a := a.toModel.unpack
  pack u := ⟨Float32.Model.pack u⟩
  pack_unpack a := pack32_of_unpack rfl
  unpack_pack u := rfl
  exists_bits a := ⟨_, rfl⟩
  add_eq a b := rfl
  sub_eq a b := rfl
  mul_eq a b := rfl
  div_eq a b := rfl
  neg_eq a := rfl
  abs_eq a := rfl
  sqrt_eq a := rfl
  lt_iff a b := decide_eq_true_iff
  le_iff a b := decide_eq_true_iff
  beq_eq a b := rfl
  isNaN_eq a := rfl
  isFinite_eq a := rfl
  unpack_zero := by
    change UnpackedFloat.unpack .binary32 (0 : Float32).toBits.toBitVec = _
    rw [show (0 : Float32).toBits = 0 by decide +kernel]
    exact @unpack_packedZero .binary32 .positive
  isPositive_ofNat n := by
    change IsPositive (Float32.ofScientific n false 0).toModel.unpack
    unfold Float32.ofScientific
    have hone : @unpackSign .binary32 (Float32.ofBits 0x3F800000).toBits.toBitVec = 0#1 := by
      decide +kernel
    split
    · exact (isPositive_ofNat.unpack_pack.mul (isPositive_unpack hone)).unpack_pack
    · exact isPositive_ofScientific.unpack_pack
  decimal_pos places h := by
    interval_cases places <;> decide +kernel

namespace Packed

variable {R : Type} [Scalar R] [Packed R] {a b : R} {u v : UnpackedFloat}

theorem unpack_pack_zero (s : Sign) : unpack (pack (.zero s) : R) = .zero s := by
  rw [unpack_pack]
  exact unpack_packedZero

theorem unpack_pack_unpack (a : R) :
    UnpackedFloat.unpack (format R) (UnpackedFloat.pack (format R) (unpack a)) = unpack a := by
  rw [← unpack_pack, pack_unpack]

/-- Both zeros are equal to zero, and nothing else is. -/
theorem beq_zero_iff : (a == 0) = true ↔ ∃ s, unpack a = .zero s := by
  rw [beq_eq, unpack_zero]
  rcases unpack a with (_ | _) | _ | s | ⟨_ | _, m, e, hm⟩ <;>
    simp [UnpackedFloat.beq, UnpackedFloat.compare]

/-- Machine numbers are alike where they match once they are unpacked. -/
theorem alike_iff : Alike a b ↔ ZerosMatch (unpack a) (unpack b) := by
  unfold Alike
  rw [beq_zero_iff, beq_zero_iff]
  constructor
  · rintro (rfl | ⟨⟨s, hs⟩, t, ht⟩)
    · exact .inl rfl
    · exact .inr ⟨s, t, hs, ht⟩
  · rintro (h | ⟨s, t, hs, ht⟩)
    · exact .inl (by rw [← pack_unpack a, h, pack_unpack])
    · exact .inr ⟨⟨s, hs⟩, t, ht⟩

theorem alike_pack (h : ZerosMatch u v) : Alike (pack u : R) (pack v) := by
  rcases h with rfl | ⟨s, t, rfl, rfl⟩
  · exact .refl _
  · exact alike_iff.mpr (.inr ⟨s, t, unpack_pack_zero s, unpack_pack_zero t⟩)

instance : SignlessZeros R where
  alike_of_beq h := by
    rw [beq_eq] at h
    exact alike_iff.mpr (unpacked_of_beq h)
  alike_of_sub {a b} ha hb h := by
    rw [isFinite_eq] at ha hb
    rw [sub_eq, beq_zero_iff, unpack_pack] at h
    obtain ⟨s, h⟩ := h
    obtain ⟨x, hx⟩ := exists_bits a
    obtain ⟨y, hy⟩ := exists_bits b
    exact alike_iff.mpr (zerosMatch_of_sub hx hy ha hb h)
  add_zero h := by
    rw [add_eq, add_eq, unpack_zero]
    rcases alike_iff.mp h with h | ⟨s, t, hs, ht⟩
    · rw [h]
    · rw [hs, ht]
      cases s <;> cases t <;> rfl
  add hab hcd := by
    rw [add_eq, add_eq]
    exact alike_pack ((alike_iff.mp hab).add (alike_iff.mp hcd))
  sub hab hcd := by
    rw [sub_eq, sub_eq]
    exact alike_pack ((alike_iff.mp hab).sub (alike_iff.mp hcd))
  mul hab hcd := by
    rw [mul_eq, mul_eq]
    exact alike_pack ((alike_iff.mp hab).mul (alike_iff.mp hcd))
  div c hab := by
    rw [div_eq, div_eq]
    exact alike_pack (alike_iff.mp hab).div
  neg h := by
    rw [neg_eq, neg_eq]
    exact alike_pack (alike_iff.mp h).neg
  abs h := by
    rw [abs_eq, abs_eq]
    exact alike_pack (alike_iff.mp h).abs
  sqrt h := by
    rw [sqrt_eq, sqrt_eq]
    exact alike_pack (alike_iff.mp h).sqrt
  lt_iff hab hcd := by
    rw [lt_iff, lt_iff]
    unfold UnpackedFloat.lt
    rw [(alike_iff.mp hab).compare (alike_iff.mp hcd)]
  le_iff hab hcd := by
    rw [le_iff, le_iff]
    unfold UnpackedFloat.le
    rw [(alike_iff.mp hab).compare (alike_iff.mp hcd)]
  beq_eq hab hcd := by
    rw [beq_eq, beq_eq]
    unfold UnpackedFloat.beq
    rw [(alike_iff.mp hab).compare (alike_iff.mp hcd)]
  isNaN_eq h := by
    rw [isNaN_eq, isNaN_eq]
    rcases alike_iff.mp h with h | ⟨s, t, hs, ht⟩
    · rw [h]
    · rw [hs, ht]
      rfl
  le_self h := by
    rw [isFinite_eq] at h
    obtain ⟨key, hkey⟩ := exists_equalBy h
    have hbeq := (unpacked_beq_iff _ _).mpr ⟨key, hkey, hkey⟩
    rw [le_iff]
    unfold UnpackedFloat.le
    rw [eq_of_beq hbeq]
    rfl
  abs_zero := by
    rw [abs_eq, unpack_zero]
    exact (congrArg pack unpack_zero.symm).trans (pack_unpack 0)
  decimal_pos := decimal_pos

/-- Only a negative zero is changed by adding zero. -/
theorem isPlain_iff : IsPlain a ↔ unpack a ≠ .zero .negative := by
  unfold IsPlain
  rw [add_eq, unpack_zero]
  constructor
  · intro h hzero
    rw [hzero] at h
    rw [← h] at hzero
    cases (unpack_pack_zero _).symm.trans hzero
  · intro h
    have hsame : UnpackedFloat.add (format R) (unpack a) (.zero .positive) = unpack a := by
      generalize unpack a = u at h ⊢
      rcases u with _ | _ | (_ | _) | ⟨s, m, e, hm⟩
      · rfl
      · rfl
      · exact absurd rfl h
      · rfl
      · rfl
    rw [hsame, pack_unpack]

theorem isPlain_of_isPositive (h : IsPositive (unpack a)) : IsPlain a := by
  rw [isPlain_iff]
  intro hzero
  rw [hzero] at h
  cases h

/-- A sum is a negative zero only where both numbers are. -/
theorem unpack_add_ne (ha : unpack a ≠ .zero .negative) : unpack (a + b) ≠ .zero .negative := by
  have ha' := unpack_pack_unpack a
  have hb' := unpack_pack_unpack b
  obtain ⟨x, hx⟩ := exists_bits a
  obtain ⟨y, hy⟩ := exists_bits b
  rw [add_eq, unpack_pack]
  generalize unpack a = u at *
  generalize unpack b = v at *
  -- a sum is a zero for two zeros or for finite numbers that cancel, whose zero is positive
  cases u with
  | notANumber => exact unpack_packedNaN_ne
  | infinity s =>
    cases v with
    | infinity t =>
      simp only [UnpackedFloat.add]
      split_ifs
      · exact unpack_packedInfinity_ne
      · exact unpack_packedNaN_ne
    | notANumber => exact unpack_packedNaN_ne
    | _ => exact unpack_packedInfinity_ne
  | zero s =>
    cases s with
    | negative => exact absurd rfl ha
    | positive =>
      cases v with
      | notANumber => exact unpack_packedNaN_ne
      | infinity t => exact unpack_packedInfinity_ne
      | zero t =>
        have hsum : UnpackedFloat.add (format R) (.zero .positive) (.zero t) = .zero .positive := by
          cases t <;> rfl
        rw [hsum]
        intro h
        cases unpack_packedZero.symm.trans h
      | finite t n k hn =>
        intro h
        cases hb'.symm.trans h
  | finite s m e hm =>
    cases v with
    | notANumber => exact unpack_packedNaN_ne
    | infinity t => exact unpack_packedInfinity_ne
    | zero t =>
      intro h
      cases ha'.symm.trans h
    | finite t n k hn =>
      have hleast := (fits_of_unpack hx.symm).1.least
      have hleast' := (fits_of_unpack hy.symm).1.least
      exact unpack_pack_normalize_plain _ (le_min hleast hleast')

instance : PlainSums R where
  add_eq {a b c} ha h := by
    rw [isPlain_iff] at ha
    rw [add_eq, add_eq]
    rcases alike_iff.mp h with h | ⟨s, t, hs, ht⟩
    · rw [h]
    · rw [hs, ht]
      congr 1
      generalize unpack a = u at ha ⊢
      rcases u with _ | _ | (_ | _) | ⟨_, m, e, hm⟩
      · rfl
      · rfl
      · exact absurd rfl ha
      · cases s <;> cases t <;> rfl
      · rfl
  isPlain_add b ha := isPlain_iff.mpr (unpack_add_ne (isPlain_iff.mp ha))
  isPlain_ofNat n := isPlain_of_isPositive (isPositive_ofNat n)
  isPlain_mul_inverse m n := by
    apply isPlain_of_isPositive
    rw [mul_eq, unpack_pack]
    refine IsPositive.unpack_pack ((isPositive_ofNat m).mul ?_)
    rw [div_eq, unpack_pack]
    exact ((isPositive_ofNat 1).div (isPositive_ofNat n)).unpack_pack

end Packed

end ColorPipeline
