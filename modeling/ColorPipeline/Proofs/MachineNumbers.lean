-- Machine numbers by their patterns. Adding zero takes the sign from a zero and leaves every
-- other number, and widening a sample loses nothing, so that finite numbers can be told by
-- what is left of their patterns, up to the signs of zeros.
import ColorPipeline.Proofs.Equality
import Mathlib

open scoped ColorPipeline.Scalar

namespace ColorPipeline

/-! ## Patterns that tell numbers apart -/

/-- Finite numbers are equal where the patterns of their images are, once zero is added. -/
structure Patterned {R P : Type} [Scalar R] [Scalar P] [Stored P] (f : R → P) : Prop where
  add_zero_eq {a b : R} : a == b → f a + 0 = f b + 0
  beq_of_bits {a b : R} : Scalar.isFinite a → Scalar.isFinite b →
    Stored.bits (f a + 0) % 2 ^ 64 = Stored.bits (f b + 0) % 2 ^ 64 → a == b

/-- Parameters, and samples widened to parameters, that can be told by their patterns. -/
class LawfulPatterns (P S : Type) [Scalar P] [Scalar S] [Stored P] [Precision P S] : Prop where
  parameter : Patterned (id : P → P)
  sample : Patterned (Precision.widen : S → P)

/-! ## Widening -/

/-- The significand and the exponent of a finite number of single precision. -/
structure IsSingle (m : Nat) (e : Int) : Prop where
  significand : m < 2 ^ 24
  least : -149 ≤ e
  greatest : e ≤ 104
  canonical : e = -149 ∨ 2 ^ 23 ≤ m

namespace BinaryFormat

/-- The parts of a finite number, and its pattern from them. -/
theorem decode_single {n : Nat} (h : n / 2 ^ 23 % 2 ^ 8 ≠ 255) :
    ∃ m e, single.decode n = .finite (n / 2 ^ 31 % 2 == 1) m e ∧ IsSingle m e ∧
      n % 2 ^ 31 = (e + 149).toNat * 2 ^ 23 + m := by
  have hdecode : single.decode n =
      if n / 2 ^ 23 % 2 ^ 8 = 255 then
        if n % 2 ^ 23 = 0 then .infinite (n / 2 ^ 31 % 2 == 1) else .nan
      else if n / 2 ^ 23 % 2 ^ 8 = 0 then .finite (n / 2 ^ 31 % 2 == 1) (n % 2 ^ 23) (-149)
      else .finite (n / 2 ^ 31 % 2 == 1) (2 ^ 23 + n % 2 ^ 23)
        (-149 + ((n / 2 ^ 23 % 2 ^ 8 : Nat) - 1)) := rfl
  rw [hdecode, if_neg h]
  split
  · exact ⟨_, _, rfl, ⟨by omega, by omega, by omega, .inl rfl⟩, by omega⟩
  · exact ⟨_, _, rfl, ⟨by omega, by omega, by omega, by omega⟩, by omega⟩

theorem significand_bounds {m : Nat} (hm : m ≠ 0) (hlog : m.log2 < 24) :
    2 ^ 52 ≤ m * 2 ^ (52 - m.log2) ∧ m * 2 ^ (52 - m.log2) < 2 ^ 53 := by
  constructor
  · calc 2 ^ 52 = 2 ^ m.log2 * 2 ^ (52 - m.log2) := by rw [← Nat.pow_add]; congr 1; omega
      _ ≤ m * 2 ^ (52 - m.log2) := Nat.mul_le_mul_right _ (Nat.log2_self_le hm)
  · calc m * 2 ^ (52 - m.log2) < 2 ^ (m.log2 + 1) * 2 ^ (52 - m.log2) :=
          Nat.mul_lt_mul_of_pos_right Nat.lt_log2_self (Nat.pow_pos (by decide))
      _ = 2 ^ 53 := by rw [← Nat.pow_add]; congr 1; omega

/-- Nothing is rounded when a number of single precision is widened. -/
theorem roundMagnitude_double {m : Nat} {e : Int} (hm : m ≠ 0) (h : IsSingle m e) :
    double.roundMagnitude m e =
      (e + m.log2 + 1022).toNat * 2 ^ 52 + m * 2 ^ (52 - m.log2) := by
  have hlog : m.log2 < 24 := (Nat.log2_lt hm).mpr h.significand
  have hleast := h.least
  have hgreatest := h.greatest
  obtain ⟨_, hhigh⟩ := significand_bounds hm hlog
  have hplace : max (e + m.log2 - double.fractionBits) double.lowestExponent = e + m.log2 - 52 :=
    max_eq_left (by change (-1074 : Int) ≤ e + m.log2 - 52; omega)
  have hshift : (e - (e + m.log2 - 52)).toNat = 52 - m.log2 := by omega
  have hfield : (e + m.log2 - 52 - double.lowestExponent).toNat = (e + m.log2 + 1022).toNat := by
    change (e + m.log2 - 52 - (-1074)).toNat = _
    congr 1
    omega
  unfold roundMagnitude
  rw [hplace]
  dsimp only
  rw [if_neg (by omega), hshift, hfield]
  refine min_eq_left ?_
  change (e + m.log2 + 1022).toNat * 2 ^ 52 + m * 2 ^ (52 - m.log2) ≤ 2047 * 2 ^ 52
  omega

/-- Nothing of single precision overflows in double precision. -/
theorem roundMagnitude_double_lt {m : Nat} {e : Int} (hm : m ≠ 0) (h : IsSingle m e) :
    double.roundMagnitude m e < 1151 * 2 ^ 52 := by
  have hlog : m.log2 < 24 := (Nat.log2_lt hm).mpr h.significand
  have hgreatest := h.greatest
  obtain ⟨_, hhigh⟩ := significand_bounds hm hlog
  rw [roundMagnitude_double hm h]
  omega

theorem roundMagnitude_double_pos {m : Nat} {e : Int} (hm : m ≠ 0) (h : IsSingle m e) :
    0 < double.roundMagnitude m e := by
  have hlog : m.log2 < 24 := (Nat.log2_lt hm).mpr h.significand
  obtain ⟨hlow, _⟩ := significand_bounds hm hlog
  rw [roundMagnitude_double hm h]
  omega

/-- The magnitude tells the significand and the exponent. -/
theorem roundMagnitude_double_inj {m m' : Nat} {e e' : Int} (hm : m ≠ 0) (hm' : m' ≠ 0)
    (h : IsSingle m e) (h' : IsSingle m' e')
    (heq : double.roundMagnitude m e = double.roundMagnitude m' e') : m = m' ∧ e = e' := by
  rw [roundMagnitude_double hm h, roundMagnitude_double hm' h'] at heq
  have hlog : m.log2 < 24 := (Nat.log2_lt hm).mpr h.significand
  have hlog' : m'.log2 < 24 := (Nat.log2_lt hm').mpr h'.significand
  have hleast := h.least
  have hleast' := h'.least
  obtain ⟨hlow, hhigh⟩ := significand_bounds hm hlog
  obtain ⟨hlow', hhigh'⟩ := significand_bounds hm' hlog'
  have hplace : e + m.log2 = e' + m'.log2 := by omega
  have hsignificand : m * 2 ^ (52 - m.log2) = m' * 2 ^ (52 - m'.log2) := by omega
  have hnormal : ∀ {k : Nat}, 2 ^ 23 ≤ k → 23 ≤ k.log2 := fun hk =>
    (Nat.le_log2 (by omega)).mpr hk
  -- A number below the normal ones has the least exponent, so its last place decides.
  have hsame : m.log2 = m'.log2 := by
    rcases h.canonical with he | hk <;> rcases h'.canonical with he' | hk'
    · omega
    · have := hnormal hk'
      omega
    · have := hnormal hk
      omega
    · have := hnormal hk
      have := hnormal hk'
      omega
  rw [hsame] at hsignificand
  exact ⟨Nat.eq_of_mul_eq_mul_right (Nat.pow_pos (by decide)) hsignificand, by omega⟩

/-- The pattern of a widened number without its sign. -/
def widenedMagnitude (m : Nat) (e : Int) : Nat := if m = 0 then 0 else double.roundMagnitude m e

theorem widenedMagnitude_lt {m : Nat} {e : Int} (h : IsSingle m e) :
    widenedMagnitude m e < 1151 * 2 ^ 52 := by
  unfold widenedMagnitude
  split
  · decide
  · rename_i hm
    exact roundMagnitude_double_lt hm h

theorem eq_zero_of_widenedMagnitude {m : Nat} {e : Int} (h : IsSingle m e)
    (hzero : widenedMagnitude m e = 0) : m = 0 := by
  unfold widenedMagnitude at hzero
  split at hzero
  · assumption
  · rename_i hm
    have := roundMagnitude_double_pos hm h
    omega

/-- Widening keeps numbers apart. -/
theorem widenedMagnitude_inj {m m' : Nat} {e e' : Int} (h : IsSingle m e) (h' : IsSingle m' e')
    (heq : widenedMagnitude m e = widenedMagnitude m' e') : m = m' ∧ e = e' := by
  have hcanonical := h.canonical
  have hcanonical' := h'.canonical
  by_cases hm : m = 0
  · have hm' : m' = 0 := eq_zero_of_widenedMagnitude h' (by rw [← heq, hm]; rfl)
    omega
  · by_cases hm' : m' = 0
    · exact absurd (eq_zero_of_widenedMagnitude h (by rw [heq, hm']; rfl)) hm
    · unfold widenedMagnitude at heq
      rw [if_neg hm, if_neg hm'] at heq
      exact roundMagnitude_double_inj hm hm' h h' heq

end BinaryFormat
/-! ## Machine numbers -/

section Machine

open Float.Model

theorem toNat_unpackExponent_double (x : UInt64) :
    (@UnpackedFloat.unpackExponent .binary64 x.toBitVec).toNat =
      x.toNat / 2 ^ 52 % 2 ^ 11 := by
  unfold UnpackedFloat.unpackExponent
  rw [BitVec.toNat_cast, BitVec.extractLsb_toNat, Nat.shiftRight_eq_div_pow]
  rfl

theorem toNat_unpackExponent_single (x : UInt32) :
    (@UnpackedFloat.unpackExponent .binary32 x.toBitVec).toNat =
      x.toNat / 2 ^ 23 % 2 ^ 8 := by
  unfold UnpackedFloat.unpackExponent
  rw [BitVec.toNat_cast, BitVec.extractLsb_toNat, Nat.shiftRight_eq_div_pow]
  rfl

theorem field_ne_of_isFinite {a : Float32} (h : a.isFinite) :
    a.toBits.toNat / 2 ^ 23 % 2 ^ 8 ≠ 255 := by
  intro hfield
  rw [← toNat_unpackExponent_single] at hfield
  have hones : @UnpackedFloat.unpackExponent .binary32 a.toBits.toBitVec = -1#8 :=
    BitVec.eq_of_toNat_eq (hfield.trans (by decide))
  change (UnpackedFloat.unpack .binary32 a.toBits.toBitVec).isFinite = true at h
  unfold UnpackedFloat.unpack at h
  extract_lets mantissaVec exponentVec exponent signVec sign at h
  rw [if_pos hones] at h
  split at h <;> cases h

theorem toBits_ofBits {x : UInt64} (h : x.toNat / 2 ^ 52 % 2 ^ 11 ≠ 2047) :
    (Float.ofBits x).toBits = x := by
  apply UInt64.toBitVec_inj.mp
  refine @UnpackedFloat.pack_unpack_of_valid .binary64 x.toBitVec ⟨fun hones => ?_⟩ (by decide)
  rw [← toNat_unpackExponent_double, hones] at h
  exact absurd (by decide) h

/-! ### Zeros -/

theorem toBits_zero : (0 : Float).toBits = 0 := by decide +kernel

theorem unpack_zero : (0 : Float).toModel.unpack = .zero .positive := by
  change UnpackedFloat.unpack .binary64 (0 : Float).toBits.toBitVec = _
  rw [toBits_zero]
  exact @UnpackedFloat.unpack_packedZero .binary64 .positive

theorem pack_of_unpack {x : Float} {u : UnpackedFloat} (h : x.toModel.unpack = u) :
    (⟨Float.Model.pack u⟩ : Float) = x := by
  subst h
  apply Float.toBits_inj.mp
  apply UInt64.toBitVec_inj.mp
  exact UnpackedFloat.pack_unpack_of_valid x.toModel.valid

theorem pack32_of_unpack {x : Float32} {u : UnpackedFloat} (h : x.toModel.unpack = u) :
    (⟨Float32.Model.pack u⟩ : Float32) = x := by
  subst h
  apply Float32.toBits_inj.mp
  apply UInt32.toBitVec_inj.mp
  exact UnpackedFloat.pack_unpack_of_valid x.toModel.valid

/-- Equal numbers are the same, or both zero. -/
theorem unpacked_of_beq {a b : UnpackedFloat} (h : a.beq b) :
    a = b ∨ ∃ s t, a = .zero s ∧ b = .zero t := by
  obtain ⟨⟨sign, parts⟩, ha, hb⟩ := (unpacked_beq_iff a b).mp h
  cases a with
  | notANumber => cases ha
  | infinity s =>
    cases ha
    cases b with
    | infinity t =>
      cases hb
      exact .inl rfl
    | _ => cases hb
  | zero s =>
    cases ha
    cases b with
    | zero t => exact .inr ⟨s, t, rfl, rfl⟩
    | finite t n f hn =>
      cases hb
      omega
    | _ => cases hb
  | finite s m e hm =>
    cases ha
    cases b with
    | zero t =>
      cases hb
      omega
    | finite t n f hn =>
      cases hb
      exact .inl rfl
    | _ => cases hb

/-- Numbers that compare as equal are equal or both zero. -/
theorem float_of_beq {a b : Float} (h : a == b) :
    a = b ∨ ∃ s t, a.toModel.unpack = .zero s ∧ b.toModel.unpack = .zero t := by
  rcases unpacked_of_beq h with heq | hzero
  · exact .inl ((pack_of_unpack heq).symm.trans (pack_of_unpack rfl))
  · exact .inr hzero

theorem beq_of_zero {a b : Float} {s t : UnpackedFloat.Sign} (ha : a.toModel.unpack = .zero s)
    (hb : b.toModel.unpack = .zero t) : a == b :=
  (float_beq_iff a b).mpr ⟨_, by rw [ha]; rfl, by rw [hb]; rfl⟩

theorem float32_of_beq {a b : Float32} (h : a == b) :
    a = b ∨ ∃ s t, a.toModel.unpack = .zero s ∧ b.toModel.unpack = .zero t := by
  rcases unpacked_of_beq h with heq | hzero
  · exact .inl ((pack32_of_unpack heq).symm.trans (pack32_of_unpack rfl))
  · exact .inr hzero

/-! ### Adding zero -/

theorem add_zero_def (x : Float) : x + 0 =
    ⟨Float.Model.pack (UnpackedFloat.add .binary64 x.toModel.unpack (.zero .positive))⟩ := by
  rw [← unpack_zero]
  rfl

/-- Adding zero drops the sign of a zero and changes nothing else. -/
theorem add_zero_of_zero {x : Float} {s : UnpackedFloat.Sign} (h : x.toModel.unpack = .zero s) :
    x + 0 = (0 : Float) := by
  rw [add_zero_def, h]
  cases s
  · exact pack_of_unpack unpack_zero
  · exact pack_of_unpack unpack_zero

theorem add_zero_of_ne {x : Float} (h : ∀ s, x.toModel.unpack ≠ .zero s) : x + 0 = x := by
  rw [add_zero_def]
  rcases hx : x.toModel.unpack with s | _ | s | ⟨s, m, e, hm⟩
  · exact pack_of_unpack hx
  · exact pack_of_unpack hx
  · exact absurd hx (h s)
  · exact pack_of_unpack hx

/-- What is left of a number tells it, up to the sign of zero. -/
theorem eq_or_zero_of_add_zero {x y : Float} (h : x + 0 = y + 0) :
    x = y ∨ ∃ s t, x.toModel.unpack = .zero s ∧ y.toModel.unpack = .zero t := by
  by_cases hx : ∃ s, x.toModel.unpack = .zero s
  · obtain ⟨s, hs⟩ := hx
    rw [add_zero_of_zero hs] at h
    by_cases hy : ∃ t, y.toModel.unpack = .zero t
    · obtain ⟨t, ht⟩ := hy
      exact .inr ⟨s, t, hs, ht⟩
    · rw [add_zero_of_ne (not_exists.mp hy)] at h
      exact absurd ⟨_, h ▸ unpack_zero⟩ hy
  · rw [add_zero_of_ne (not_exists.mp hx)] at h
    by_cases hy : ∃ t, y.toModel.unpack = .zero t
    · obtain ⟨t, ht⟩ := hy
      rw [add_zero_of_zero ht] at h
      exact absurd ⟨_, h ▸ unpack_zero⟩ hx
    · rw [add_zero_of_ne (not_exists.mp hy)] at h
      exact .inl h

theorem add_zero_eq_of_bits {x y : Float}
    (h : Stored.bits (x + 0) % 2 ^ 64 = Stored.bits (y + 0) % 2 ^ 64) : x + 0 = y + 0 := by
  change (x + 0).toBits.toNat % 2 ^ 64 = (y + 0).toBits.toNat % 2 ^ 64 at h
  rw [Nat.mod_eq_of_lt (UInt64.toNat_lt _), Nat.mod_eq_of_lt (UInt64.toNat_lt _)] at h
  exact Float.toBits_inj.mp (UInt64.toNat_inj.mp h)

/-- The patterns of parameters tell them apart, up to the sign of a zero. -/
theorem patterned_double : Patterned (id : Float → Float) where
  add_zero_eq h := by
    rcases float_of_beq h with rfl | ⟨s, t, hs, ht⟩
    · rfl
    · exact (add_zero_of_zero hs).trans (add_zero_of_zero ht).symm
  beq_of_bits ha _ h := by
    rcases eq_or_zero_of_add_zero (add_zero_eq_of_bits h) with rfl | ⟨s, t, hs, ht⟩
    · exact LawfulEquality.beq_self ha
    · exact beq_of_zero hs ht

/-! ### Samples as parameters -/

/-- The sample as a parameter. -/
def widened (a : Float32) : Float := Precision.widen a

/-- The sign of a widened sample is moved, and its magnitude is that of the number. -/
theorem toNat_toBits_widened {a : Float32} (h : a.isFinite) : ∃ m e, IsSingle m e ∧
    a.toBits.toNat % 2 ^ 31 = (e + 149).toNat * 2 ^ 23 + m ∧
    (widened a).toBits.toNat =
      a.toBits.toNat / 2 ^ 31 % 2 * 2 ^ 63 + BinaryFormat.widenedMagnitude m e := by
  obtain ⟨m, e, hdecode, hsingle, hbits⟩ := BinaryFormat.decode_single (field_ne_of_isFinite h)
  refine ⟨m, e, hsingle, hbits, ?_⟩
  have hsign : (if a.toBits.toNat / 2 ^ 31 % 2 == 1 then 2 ^ 63 else 0) =
      a.toBits.toNat / 2 ^ 31 % 2 * 2 ^ 63 := by
    rcases Nat.mod_two_eq_zero_or_one (a.toBits.toNat / 2 ^ 31) with hbit | hbit <;>
      rw [hbit] <;> rfl
  have hwidened : widened a = Float.ofBits (UInt64.ofNat
      (a.toBits.toNat / 2 ^ 31 % 2 * 2 ^ 63 + BinaryFormat.widenedMagnitude m e)) := by
    change Float.ofBits (UInt64.ofNat
      (BinaryFormat.double.encode (BinaryFormat.single.decode a.toBits.toNat))) = _
    rw [hdecode, ← hsign]
    rfl
  have hsmall := BinaryFormat.widenedMagnitude_lt hsingle
  have hvalue := UInt64.toNat_ofNat_of_lt'
    (n := a.toBits.toNat / 2 ^ 31 % 2 * 2 ^ 63 + BinaryFormat.widenedMagnitude m e)
    (by change _ < 2 ^ 64; omega)
  rw [hwidened, toBits_ofBits (by rw [hvalue]; omega), hvalue]

/-- Widening loses nothing. -/
theorem widened_inj {a b : Float32} (ha : a.isFinite) (hb : b.isFinite)
    (h : widened a = widened b) : a = b := by
  obtain ⟨m, e, hsingle, hbits, hwide⟩ := toNat_toBits_widened ha
  obtain ⟨m', e', hsingle', hbits', hwide'⟩ := toNat_toBits_widened hb
  have hsmall := BinaryFormat.widenedMagnitude_lt hsingle
  have hsmall' := BinaryFormat.widenedMagnitude_lt hsingle'
  rw [h, hwide'] at hwide
  obtain ⟨rfl, rfl⟩ := BinaryFormat.widenedMagnitude_inj hsingle hsingle' (by omega)
  have hlt := UInt32.toNat_lt a.toBits
  have hlt' := UInt32.toNat_lt b.toBits
  exact Float32.toBits_inj.mp (UInt32.toNat_inj.mp (by omega))

theorem toBits_of_zero {x : Float} {s : UnpackedFloat.Sign} (h : x.toModel.unpack = .zero s) :
    x.toBits.toNat % 2 ^ 63 = 0 := by
  rw [← pack_of_unpack h]
  cases s <;> decide

theorem unpack_of_toBits {a : Float32} (h : a.toBits.toNat % 2 ^ 31 = 0) :
    ∃ t, a.toModel.unpack = .zero t := by
  have hlt := UInt32.toNat_lt a.toBits
  have hbits : a.toBits.toNat = (0 : UInt32).toNat ∨
      a.toBits.toNat = (2147483648 : UInt32).toNat := by
    change _ = 0 ∨ _ = 2147483648
    omega
  change ∃ t, UnpackedFloat.unpack .binary32 a.toBits.toBitVec = _
  rcases hbits with hbits | hbits
  · rw [UInt32.toNat_inj.mp hbits]
    exact ⟨_, @UnpackedFloat.unpack_packedZero .binary32 .positive⟩
  · rw [UInt32.toNat_inj.mp hbits]
    exact ⟨_, @UnpackedFloat.unpack_packedZero .binary32 .negative⟩

/-- Only a zero is widened to a zero. -/
theorem unpack_of_widened {a : Float32} (ha : a.isFinite) {s : UnpackedFloat.Sign}
    (h : (widened a).toModel.unpack = .zero s) : ∃ t, a.toModel.unpack = .zero t := by
  obtain ⟨m, e, hsingle, hbits, hwide⟩ := toNat_toBits_widened ha
  have hsmall := BinaryFormat.widenedMagnitude_lt hsingle
  have hzero := toBits_of_zero h
  have hm := BinaryFormat.eq_zero_of_widenedMagnitude hsingle (by omega)
  have hcanonical := hsingle.canonical
  exact unpack_of_toBits (by omega)

theorem widened_of_unpack {a : Float32} {s : UnpackedFloat.Sign}
    (h : a.toModel.unpack = .zero s) : (widened a).toModel.unpack = .zero s := by
  rw [← pack32_of_unpack h]
  change UnpackedFloat.unpack .binary64 (widened ⟨Float32.Model.pack (.zero s)⟩).toBits.toBitVec = _
  have hbits : (widened ⟨Float32.Model.pack (.zero s)⟩).toBits.toBitVec =
      UnpackedFloat.packedZero .binary64 s := by
    cases s <;> decide
  rw [hbits]
  exact UnpackedFloat.unpack_packedZero

/-- Samples are told apart by the patterns of parameters that they become. -/
theorem patterned_widened : Patterned (Precision.widen : Float32 → Float) where
  add_zero_eq h := by
    rcases float32_of_beq h with rfl | ⟨s, t, hs, ht⟩
    · rfl
    · exact (add_zero_of_zero (widened_of_unpack hs)).trans
        (add_zero_of_zero (widened_of_unpack ht)).symm
  beq_of_bits ha hb h := by
    rcases eq_or_zero_of_add_zero (add_zero_eq_of_bits h) with hwide | ⟨s, t, hs, ht⟩
    · rw [widened_inj ha hb hwide]
      obtain ⟨key, hkey⟩ := exists_equalBy hb
      exact (unpacked_beq_iff _ _).mpr ⟨key, hkey, hkey⟩
    · obtain ⟨s', hs'⟩ := unpack_of_widened ha hs
      obtain ⟨t', ht'⟩ := unpack_of_widened hb ht
      exact (unpacked_beq_iff _ _).mpr ⟨_, by rw [hs']; rfl, by rw [ht']; rfl⟩

instance : LawfulPatterns Float Float32 where
  parameter := patterned_double
  sample := patterned_widened

end Machine

end ColorPipeline
