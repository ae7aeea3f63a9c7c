-- The pattern nearest to a number, in rational arithmetic. Without their signs the patterns of a
-- format count its numbers from zero on. A number is rounded beyond a count where it lies above the
-- middle between the number that is counted there and the next one, or on it where the next one is
-- even.
import ColorPipeline.Number.Binary
import Mathlib

namespace ColorPipeline

/-- The rational number that a value is, if it is one. -/
def BinaryValue.toRat? : BinaryValue → Option ℚ
  | .nan => none
  | .infinite _ => none
  | .finite negative m e => some (if negative then -(m * 2 ^ e) else m * 2 ^ e)

namespace BinaryFormat

/-! ## Whole numbers -/

/-- Rounding goes above a number where the number's upper half is passed, or met from an odd one. -/
theorem lt_shiftToNearest_iff (k n s : ℕ) : k < shiftToNearest n s ↔
    (2 * k + 1) * 2 ^ s < 2 * n ∨ (2 * k + 1) * 2 ^ s = 2 * n ∧ k % 2 = 1 := by
  have hdef : shiftToNearest n s =
      if 2 ^ s < 2 * (n % 2 ^ s) then n / 2 ^ s + 1
      else if 2 * (n % 2 ^ s) = 2 ^ s then n / 2 ^ s + n / 2 ^ s % 2
      else n / 2 ^ s := rfl
  have hsplit := Nat.div_add_mod n (2 ^ s)
  have hrest := Nat.mod_lt n (Nat.two_pow_pos s)
  generalize n / 2 ^ s = q at hdef hsplit
  generalize n % 2 ^ s = r at hdef hsplit hrest
  generalize 2 ^ s = unit at hdef hsplit hrest ⊢
  have hbelow : k < q → unit * k + unit ≤ unit * q := fun h => Nat.mul_le_mul_left unit h
  have habove : q < k → unit * q + unit ≤ unit * k := fun h => Nat.mul_le_mul_left unit h
  have hcount : (2 * k + 1) * unit = 2 * (unit * k) + unit := by ring
  rw [hdef, hcount]
  rcases lt_trichotomy k q with h | rfl | h
  · have := hbelow h
    split_ifs <;> omega
  · split_ifs <;> omega
  · have := habove h
    split_ifs <;> omega

/-- The number of units of `2 ^ place` nearest to `m * 2 ^ e`. -/
def units (m : ℕ) (e place : ℤ) : ℕ :=
  if e ≤ place then shiftToNearest m (place - e).toNat else m * 2 ^ (e - place).toNat

theorem two_zpow_pos (e : ℤ) : (0 : ℚ) < 2 ^ e := zpow_pos two_pos e

theorem two_zpow_eq (e : ℤ) : (2 : ℚ) ^ e = 2 * 2 ^ (e - 1) := by
  rw [zpow_sub_one₀ two_ne_zero]
  ring

theorem two_pow_mul_two_zpow (k : ℕ) (e : ℤ) : ((2 ^ k : ℕ) : ℚ) * 2 ^ e = 2 ^ (k + e : ℤ) := by
  rw [zpow_add₀ two_ne_zero, zpow_natCast, Nat.cast_pow, Nat.cast_ofNat]

theorem two_zpow_toNat {e place : ℤ} (h : e ≤ place) :
    (2 : ℚ) ^ place = 2 ^ (place - e).toNat * 2 ^ e := by
  rw [← zpow_natCast, ← zpow_add₀ two_ne_zero, Int.toNat_of_nonneg (sub_nonneg.mpr h),
    sub_add_cancel]

theorem lt_units_iff (k m : ℕ) (e place : ℤ) : k < units m e place ↔
    (2 * k + 1 : ℚ) * 2 ^ (place - 1) < m * 2 ^ e ∨
      (2 * k + 1 : ℚ) * 2 ^ (place - 1) = m * 2 ^ e ∧ k % 2 = 1 := by
  unfold units
  split_ifs with h
  · have hplace : (2 : ℚ) ^ (place - 1) = 2 ^ (place - e).toNat * 2 ^ (e - 1) := by
      rw [two_zpow_toNat (sub_le_sub_right h 1), sub_sub_sub_cancel_right]
    have hvalue : (m : ℚ) * 2 ^ e = 2 * m * 2 ^ (e - 1) := by
      rw [two_zpow_eq e]
      ring
    rw [lt_shiftToNearest_iff, hplace, hvalue, ← mul_assoc,
      mul_lt_mul_iff_left₀ (two_zpow_pos _), mul_left_inj' (two_zpow_pos _).ne']
    norm_cast
  · rw [not_le] at h
    -- a whole number of units is never on the middle between two of them
    have hvalue : (m : ℚ) * 2 ^ e = (2 * (m * 2 ^ (e - place).toNat) : ℕ) * 2 ^ (place - 1) := by
      rw [two_zpow_toNat h.le, two_zpow_eq place]
      push_cast
      ring
    rw [hvalue, mul_lt_mul_iff_left₀ (two_zpow_pos _), mul_left_inj' (two_zpow_pos _).ne']
    norm_cast
    omega

/-! ## Counted numbers -/

/-- The significand of the number that is counted by `n`. -/
def significandAt (f : BinaryFormat) (n : ℕ) : ℕ :=
  if n < 2 ^ f.fractionBits then n else 2 ^ f.fractionBits + n % 2 ^ f.fractionBits

/-- The exponent of the number that is counted by `n`. -/
def exponentAt (f : BinaryFormat) (n : ℕ) : ℤ :=
  f.lowestExponent + (n / 2 ^ f.fractionBits - 1 : ℕ)

/-- The number that is counted by `n`. -/
def numberAt (f : BinaryFormat) (n : ℕ) : ℚ := f.significandAt n * 2 ^ f.exponentAt n

/-- Halfway between the number that is counted by `n` and the next one. -/
def middle (f : BinaryFormat) (n : ℕ) : ℚ :=
  (2 * f.significandAt n + 1) * 2 ^ (f.exponentAt n - 1)

theorem mul_two_zpow_le {a b unit : ℕ} {e k : ℤ} (ha : a ≤ 2 * unit) (hb : unit ≤ b)
    (h : e < k) : (a : ℚ) * 2 ^ e ≤ b * 2 ^ k := by
  calc (a : ℚ) * 2 ^ e ≤ (2 * unit : ℕ) * 2 ^ e :=
        mul_le_mul_of_nonneg_right (Nat.cast_le.mpr ha) (two_zpow_pos e).le
    _ = unit * 2 ^ (e + 1) := by
        rw [zpow_add_one₀ two_ne_zero]
        push_cast
        ring
    _ ≤ unit * 2 ^ k :=
        mul_le_mul_of_nonneg_left (zpow_le_zpow_right₀ one_le_two h) (Nat.cast_nonneg _)
    _ ≤ b * 2 ^ k := mul_le_mul_of_nonneg_right (Nat.cast_le.mpr hb) (two_zpow_pos k).le

/-- Of two numbers with full significands the one with the larger exponent is the larger one. -/
theorem mul_two_zpow_lt {m n unit : ℕ} {e k : ℤ} (hm : m < 2 * unit) (hn : unit ≤ n)
    (h : e < k) : (m : ℚ) * 2 ^ e < n * 2 ^ k := by
  refine lt_of_lt_of_le ?_ (mul_two_zpow_le hm hn h)
  exact mul_lt_mul_of_pos_right (Nat.cast_lt.mpr (Nat.lt_succ_self m)) (two_zpow_pos e)

section Counts

variable (f : BinaryFormat) (n : ℕ)

/-- Numbers of a format are counted by their exponent and their significand. -/
theorem count_eq : (f.exponentAt n - f.lowestExponent).toNat * 2 ^ f.fractionBits +
    f.significandAt n = n := by
  have hfield : (f.exponentAt n - f.lowestExponent).toNat = n / 2 ^ f.fractionBits - 1 := by
    unfold exponentAt
    omega
  rw [hfield]
  unfold significandAt
  have hsplit := Nat.div_add_mod n (2 ^ f.fractionBits)
  split_ifs with h
  · rw [Nat.div_eq_of_lt h]
    omega
  · have hone : 1 ≤ n / 2 ^ f.fractionBits :=
      (Nat.le_div_iff_mul_le (Nat.two_pow_pos _)).mpr (by omega)
    obtain ⟨field, hfield⟩ := Nat.exists_eq_add_of_le' hone
    rw [hfield] at hsplit ⊢
    rw [Nat.add_sub_cancel]
    linarith

theorem significandAt_lt : f.significandAt n < 2 * 2 ^ f.fractionBits := by
  have := Nat.mod_lt n (Nat.two_pow_pos f.fractionBits)
  unfold significandAt
  split_ifs <;> omega

theorem lowestExponent_le : f.lowestExponent ≤ f.exponentAt n :=
  le_add_of_nonneg_right (Int.natCast_nonneg _)

/-- A significand is as large as it can be, but for the least exponent. -/
theorem le_significandAt (h : f.lowestExponent < f.exponentAt n) :
    2 ^ f.fractionBits ≤ f.significandAt n := by
  unfold significandAt
  split_ifs with hsmall
  · unfold exponentAt at h
    rw [Nat.div_eq_of_lt hsmall] at h
    omega
  · exact Nat.le_add_right _ _

theorem exponentAt_mono : Monotone f.exponentAt := by
  intro i j h
  have := Nat.div_le_div_right (c := 2 ^ f.fractionBits) h
  unfold exponentAt
  omega

/-- The count goes up with the numbers. -/
theorem numberAt_strictMono : StrictMono f.numberAt := by
  intro i j h
  unfold numberAt
  rcases (f.exponentAt_mono h.le).eq_or_lt with heq | hlt
  · have hi := f.count_eq i
    have hj := f.count_eq j
    rw [heq] at hi ⊢
    exact mul_lt_mul_of_pos_right (Nat.cast_lt.mpr (by omega)) (two_zpow_pos _)
  · exact mul_two_zpow_lt (f.significandAt_lt i)
      (f.le_significandAt j ((f.lowestExponent_le i).trans_lt hlt)) hlt

end Counts

/-! ## Rounding -/

section Halves

variable (k : ℕ) (place : ℤ)

theorem lt_half_above : (k : ℚ) * 2 ^ place < (2 * k + 1) * 2 ^ (place - 1) := by
  have hpos := two_zpow_pos (place - 1)
  rw [two_zpow_eq place]
  linarith

theorem half_above_lt : (2 * k + 1 : ℚ) * 2 ^ (place - 1) < (k + 1 : ℕ) * 2 ^ place := by
  have hpos := two_zpow_pos (place - 1)
  rw [two_zpow_eq place]
  push_cast
  linarith

end Halves

section Magnitudes

variable {m : ℕ} {e k : ℤ}

theorem lt_two_zpow (h : e + m.log2 < k) : (m : ℚ) * 2 ^ e < 2 ^ k := by
  have hm : (m : ℚ) < 2 ^ (m.log2 + 1) := by exact_mod_cast Nat.lt_log2_self
  calc (m : ℚ) * 2 ^ e < 2 ^ (m.log2 + 1) * 2 ^ e := mul_lt_mul_of_pos_right hm (two_zpow_pos e)
    _ = 2 ^ ((m.log2 + 1 : ℕ) + e : ℤ) := by rw [zpow_add₀ two_ne_zero, zpow_natCast]
    _ ≤ 2 ^ k := zpow_le_zpow_right₀ one_le_two (by push_cast; omega)

theorem two_zpow_le (hm : m ≠ 0) (h : k ≤ e + m.log2) : (2 : ℚ) ^ k ≤ m * 2 ^ e := by
  have hlog : (2 : ℚ) ^ m.log2 ≤ m := by exact_mod_cast Nat.log2_self_le hm
  calc (2 : ℚ) ^ k ≤ 2 ^ ((m.log2 : ℕ) + e : ℤ) := zpow_le_zpow_right₀ one_le_two (by omega)
    _ = 2 ^ m.log2 * 2 ^ e := by rw [zpow_add₀ two_ne_zero, zpow_natCast]
    _ ≤ m * 2 ^ e := mul_le_mul_of_nonneg_right hlog (two_zpow_pos e).le

end Magnitudes

section Rounding

variable {f : BinaryFormat} {n m : ℕ} {e : ℤ}

/-- The exponent of the last place that a number is rounded to. -/
def roundedPlace (f : BinaryFormat) (m : ℕ) (e : ℤ) : ℤ :=
  max (e + m.log2 - f.fractionBits) f.lowestExponent

theorem lowestExponent_le_roundedPlace : f.lowestExponent ≤ f.roundedPlace m e := le_max_right _ _

/-- A number is below the end of the place that it is rounded to. -/
theorem value_lt : (m : ℚ) * 2 ^ e < (2 * 2 ^ f.fractionBits : ℕ) * 2 ^ f.roundedPlace m e := by
  rw [← Nat.pow_succ', two_pow_mul_two_zpow]
  refine lt_two_zpow ?_
  have := le_max_left (e + m.log2 - f.fractionBits) f.lowestExponent
  unfold roundedPlace
  push_cast
  omega

theorem le_value (hm : m ≠ 0) (h : f.lowestExponent < f.roundedPlace m e) :
    (2 ^ f.fractionBits : ℕ) * (2 : ℚ) ^ f.roundedPlace m e ≤ m * 2 ^ e := by
  rw [two_pow_mul_two_zpow]
  refine two_zpow_le hm ?_
  unfold roundedPlace at h ⊢
  omega

/-- Rounding up can reach the next place, where the count goes on. -/
theorem units_le : units m e (f.roundedPlace m e) ≤ 2 * 2 ^ f.fractionBits := by
  by_contra h
  have hmiddle := lt_half_above (2 * 2 ^ f.fractionBits) (f.roundedPlace m e)
  have hvalue := value_lt (f := f) (m := m) (e := e)
  rcases (lt_units_iff _ _ _ _).mp (not_le.mp h) with h | ⟨h, -⟩ <;> linarith

theorem le_units (hm : m ≠ 0) (h : f.lowestExponent < f.roundedPlace m e) :
    2 ^ f.fractionBits ≤ units m e (f.roundedPlace m e) := by
  obtain ⟨k, hk⟩ := Nat.exists_eq_succ_of_ne_zero (Nat.two_pow_pos f.fractionBits).ne'
  rw [hk]
  refine (lt_units_iff _ _ _ _).mpr (.inl ((half_above_lt k _).trans_le ?_))
  rw [← Nat.succ_eq_add_one, ← hk]
  exact le_value hm h

/-- A number is rounded beyond a count where it lies above the middle behind it, or on that middle
where the count has an odd significand. -/
theorem lt_roundMagnitude_iff (hm : m ≠ 0) (hn : n < f.topField * 2 ^ f.fractionBits) :
    n < f.roundMagnitude m e ↔
      f.middle n < m * 2 ^ e ∨ f.middle n = m * 2 ^ e ∧ f.significandAt n % 2 = 1 := by
  have hdef : f.roundMagnitude m e =
      min ((f.roundedPlace m e - f.lowestExponent).toNat * 2 ^ f.fractionBits +
        units m e (f.roundedPlace m e)) (f.topField * 2 ^ f.fractionBits) := rfl
  have hcount := f.count_eq n
  have hsignificand := f.significandAt_lt n
  have hlowest := f.lowestExponent_le n
  have hlowest' := lowestExponent_le_roundedPlace (f := f) (m := m) (e := e)
  have hunits := units_le (f := f) (m := m) (e := e)
  rw [hdef, lt_min_iff, and_iff_left hn]
  rcases lt_trichotomy (f.exponentAt n) (f.roundedPlace m e) with hplace | hplace | hplace
  · -- the number has the larger exponent
    have hfield : (f.exponentAt n - f.lowestExponent).toNat + 1 ≤
        (f.roundedPlace m e - f.lowestExponent).toNat := by omega
    have hcounts := Nat.mul_le_mul_right (2 ^ f.fractionBits) hfield
    have hle := le_units hm (hlowest.trans_lt hplace)
    rw [add_one_mul] at hcounts
    refine iff_of_true (by omega) (.inl ?_)
    calc f.middle n < (f.significandAt n + 1 : ℕ) * 2 ^ f.exponentAt n := half_above_lt _ _
      _ ≤ (2 ^ f.fractionBits : ℕ) * 2 ^ f.roundedPlace m e :=
        mul_two_zpow_le hsignificand le_rfl hplace
      _ ≤ m * 2 ^ e := le_value hm (hlowest.trans_lt hplace)
  · -- with one exponent for both, the units decide
    unfold middle
    rw [hplace, ← lt_units_iff]
    rw [hplace] at hcount
    omega
  · -- the number has the smaller exponent
    have hfield : (f.roundedPlace m e - f.lowestExponent).toNat + 1 ≤
        (f.exponentAt n - f.lowestExponent).toNat := by omega
    have hcounts := Nat.mul_le_mul_right (2 ^ f.fractionBits) hfield
    have hle := f.le_significandAt n (hlowest'.trans_lt hplace)
    rw [add_one_mul] at hcounts
    have hbelow : (m : ℚ) * 2 ^ e < f.middle n :=
      calc (m : ℚ) * 2 ^ e < (2 * 2 ^ f.fractionBits : ℕ) * 2 ^ f.roundedPlace m e := value_lt
        _ ≤ f.significandAt n * 2 ^ f.exponentAt n := mul_two_zpow_le le_rfl hle hplace
        _ < f.middle n := lt_half_above _ _
    refine iff_of_false (by omega) ?_
    rintro (h | ⟨h, -⟩)
    · exact lt_asymm h hbelow
    · exact hbelow.ne' h

end Rounding

/-! ## Patterns -/

section Patterns

variable (f : BinaryFormat)

theorem signWeight_eq : f.signWeight = 2 ^ f.exponentBits * 2 ^ f.fractionBits :=
  Nat.pow_add _ _ _

/-- A pattern is a sign with a count. Beyond the finite numbers it is an infinity or NaN. -/
theorem decode_signed (negative : Bool) {n : ℕ} (hn : n < f.signWeight) :
    f.decode ((if negative then f.signWeight else 0) + n) =
      if n / 2 ^ f.fractionBits = f.topField then
        if n % 2 ^ f.fractionBits = 0 then .infinite negative else .nan
      else .finite negative (f.significandAt n) (f.exponentAt n) := by
  have hdef : ∀ bits, f.decode bits =
      if bits / 2 ^ f.fractionBits % 2 ^ f.exponentBits = f.topField then
        if bits % 2 ^ f.fractionBits = 0 then .infinite (bits / f.signWeight % 2 == 1) else .nan
      else if bits / 2 ^ f.fractionBits % 2 ^ f.exponentBits = 0 then
        .finite (bits / f.signWeight % 2 == 1) (bits % 2 ^ f.fractionBits) f.lowestExponent
      else .finite (bits / f.signWeight % 2 == 1)
        (2 ^ f.fractionBits + bits % 2 ^ f.fractionBits)
        (f.lowestExponent + ((bits / 2 ^ f.fractionBits % 2 ^ f.exponentBits : ℕ) - 1)) :=
    fun _ => rfl
  have hsign : (((if negative then f.signWeight else 0) + n) / f.signWeight % 2 == 1) =
      negative := by
    cases negative
    · rw [if_neg Bool.false_ne_true, zero_add, Nat.div_eq_of_lt hn]
      rfl
    · rw [if_pos rfl, Nat.add_div_left _ (by omega), Nat.div_eq_of_lt hn]
      rfl
  have hfield : ((if negative then f.signWeight else 0) + n) / 2 ^ f.fractionBits %
      2 ^ f.exponentBits = n / 2 ^ f.fractionBits := by
    have hlt : n / 2 ^ f.fractionBits < 2 ^ f.exponentBits :=
      (Nat.div_lt_iff_lt_mul (Nat.two_pow_pos _)).mpr (f.signWeight_eq ▸ hn)
    split_ifs
    · rw [signWeight_eq, Nat.mul_comm, Nat.mul_add_div (Nat.two_pow_pos _), Nat.add_mod_left,
        Nat.mod_eq_of_lt hlt]
    · rw [zero_add, Nat.mod_eq_of_lt hlt]
  have hfraction : ((if negative then f.signWeight else 0) + n) % 2 ^ f.fractionBits =
      n % 2 ^ f.fractionBits := by
    split_ifs
    · rw [signWeight_eq, Nat.mul_add_mod']
    · rw [zero_add]
  rw [hdef, hsign, hfield, hfraction]
  unfold significandAt exponentAt
  by_cases hsmall : n < 2 ^ f.fractionBits
  · rw [if_pos hsmall, Nat.mod_eq_of_lt hsmall, Nat.div_eq_of_lt hsmall, if_pos rfl]
    simp only [Nat.zero_sub, Nat.cast_zero, add_zero]
  · have hpos : n / 2 ^ f.fractionBits ≠ 0 :=
      (Nat.div_pos (not_lt.mp hsmall) (Nat.two_pow_pos _)).ne'
    rw [if_neg hsmall, if_neg hpos, Nat.cast_sub (Nat.one_le_iff_ne_zero.mpr hpos), Nat.cast_one]

/-- The count of the number nearest to `m * 2 ^ e`. -/
def nearestCount (m : ℕ) (e : ℤ) : ℕ := if m = 0 then 0 else f.roundMagnitude m e

variable {f}

/-- The nearest number is above a count where the middle behind the count is passed, or met with an
odd significand. -/
theorem lt_nearestCount_iff {n m : ℕ} {e : ℤ} (hn : n < f.topField * 2 ^ f.fractionBits) :
    n < f.nearestCount m e ↔
      f.middle n < m * 2 ^ e ∨ f.middle n = m * 2 ^ e ∧ f.significandAt n % 2 = 1 := by
  unfold nearestCount
  split_ifs with hm
  · have hmiddle : 0 < f.middle n := mul_pos (by positivity) (two_zpow_pos _)
    rw [hm, Nat.cast_zero, zero_mul]
    refine iff_of_false (Nat.not_lt_zero n) ?_
    rintro (h | ⟨h, -⟩) <;> linarith
  · exact lt_roundMagnitude_iff hm hn

theorem nearestCount_le {m : ℕ} {e : ℤ} : f.nearestCount m e ≤ f.topField * 2 ^ f.fractionBits := by
  unfold nearestCount
  split_ifs
  · exact Nat.zero_le _
  · exact min_le_right _ _

theorem topField_mul_lt : f.topField * 2 ^ f.fractionBits < f.signWeight := by
  have hfield : f.topField < 2 ^ f.exponentBits := Nat.sub_one_lt (Nat.two_pow_pos _).ne'
  rw [signWeight_eq]
  exact Nat.mul_lt_mul_of_pos_right hfield (Nat.two_pow_pos _)

/-- What is stored of a number: the number of its count, or an infinity. -/
theorem decode_encode (negative : Bool) (m : ℕ) (e : ℤ) :
    f.decode (f.encode (.finite negative m e)) =
      if f.nearestCount m e = f.topField * 2 ^ f.fractionBits then .infinite negative
      else .finite negative (f.significandAt (f.nearestCount m e))
        (f.exponentAt (f.nearestCount m e)) := by
  have hle := nearestCount_le (f := f) (m := m) (e := e)
  have hencode : f.encode (.finite negative m e) =
      (if negative then f.signWeight else 0) + f.nearestCount m e := rfl
  rw [hencode, decode_signed f negative (hle.trans_lt topField_mul_lt)]
  by_cases htop : f.nearestCount m e = f.topField * 2 ^ f.fractionBits
  · rw [if_pos htop, htop, Nat.mul_div_cancel _ (Nat.two_pow_pos _), Nat.mul_mod_left,
      if_pos rfl, if_pos rfl]
  · have hfield : f.nearestCount m e / 2 ^ f.fractionBits ≠ f.topField :=
      ((Nat.div_lt_iff_lt_mul (Nat.two_pow_pos _)).mpr (lt_of_le_of_ne hle htop)).ne
    rw [if_neg htop, if_neg hfield]

theorem toRat?_decode_encode (negative : Bool) (m : ℕ) (e : ℤ) :
    (f.decode (f.encode (.finite negative m e))).toRat? =
      if f.nearestCount m e = f.topField * 2 ^ f.fractionBits then none
      else some (if negative then -f.numberAt (f.nearestCount m e)
        else f.numberAt (f.nearestCount m e)) := by
  rw [decode_encode]
  by_cases htop : f.nearestCount m e = f.topField * 2 ^ f.fractionBits
  · rw [if_pos htop, if_pos htop]
    rfl
  · rw [if_neg htop, if_neg htop]
    rfl

theorem encode_lt (hf : f.fractionBits ≠ 0) (v : BinaryValue) : f.encode v < 2 * f.signWeight := by
  have htop := topField_mul_lt (f := f)
  cases v with
  | nan =>
    have hquiet : 2 ^ (f.fractionBits - 1) < 2 ^ f.fractionBits :=
      Nat.pow_lt_pow_right one_lt_two (Nat.sub_one_lt hf)
    have hunit : 2 ^ f.fractionBits ≤ f.signWeight :=
      Nat.pow_le_pow_right two_pos (Nat.le_add_left _ _)
    change f.topField * 2 ^ f.fractionBits + 2 ^ (f.fractionBits - 1) < _
    omega
  | infinite negative =>
    change (if negative then f.signWeight else 0) + f.topField * 2 ^ f.fractionBits < _
    split_ifs <;> omega
  | finite negative m e =>
    have hle := nearestCount_le (f := f) (m := m) (e := e)
    change (if negative then f.signWeight else 0) + f.nearestCount m e < _
    split_ifs <;> omega

end Patterns

/-! ## Single precision -/

section Single

variable {m n s : ℕ} {e k : ℤ}

theorem middle_single_eq (hs : single.significandAt n = s) (hk : single.exponentAt n = k) :
    single.middle n = (2 * s + 1) * 2 ^ (k - 1) := by
  unfold middle
  rw [hs, hk]

theorem numberAt_single_eq (hs : single.significandAt n = s) (hk : single.exponentAt n = k) :
    single.numberAt n = s * 2 ^ k := by
  unfold numberAt
  rw [hs, hk]

/-- The numbers from halfway between the largest number and the next power of two on are stored
as infinities. -/
theorem nearestCount_single_eq_top :
    single.nearestCount m e = single.topField * 2 ^ single.fractionBits ↔
      2 ^ 128 - 2 ^ 103 ≤ (m : ℚ) * 2 ^ e := by
  have htop : single.topField * 2 ^ single.fractionBits = 2139095040 := by decide
  have hmiddle : single.middle 2139095039 = 2 ^ 128 - 2 ^ 103 := by
    rw [middle_single_eq (s := 16777215) (k := 104) (by decide) (by decide)]
    norm_num
  have hodd : single.significandAt 2139095039 % 2 = 1 := by decide
  have hle := nearestCount_le (f := single) (m := m) (e := e)
  have hiff := lt_nearestCount_iff (f := single) (n := 2139095039) (m := m) (e := e)
    (by rw [htop]; decide)
  rw [hmiddle, and_iff_left hodd, ← le_iff_lt_or_eq] at hiff
  rw [← hiff]
  omega

/-- A number of single precision is not lost where it is above half of the least one. -/
theorem nearestCount_single_pos : 0 < single.nearestCount m e ↔ 1 / 2 ^ 150 < (m : ℚ) * 2 ^ e := by
  have hmiddle : single.middle 0 = 1 / 2 ^ 150 := by
    rw [middle_single_eq (s := 0) (k := -149) (by decide) (by decide)]
    norm_num
  have heven : ¬ single.significandAt 0 % 2 = 1 := by decide
  rw [lt_nearestCount_iff (by decide), hmiddle]
  exact or_iff_left fun h => heven h.2

/-- The numbers that are stored as 1. -/
theorem nearestCount_single_eq_one : single.nearestCount m e = 1065353216 ↔
    1 - 1 / 2 ^ 25 ≤ (m : ℚ) * 2 ^ e ∧ (m : ℚ) * 2 ^ e ≤ 1 + 1 / 2 ^ 24 := by
  have hbelow : single.middle 1065353215 = 1 - 1 / 2 ^ 25 := by
    rw [middle_single_eq (s := 16777215) (k := -24) (by decide) (by decide)]
    norm_num
  have habove : single.middle 1065353216 = 1 + 1 / 2 ^ 24 := by
    rw [middle_single_eq (s := 8388608) (k := -23) (by decide) (by decide)]
    norm_num
  have hodd : single.significandAt 1065353215 % 2 = 1 := by decide
  have heven : ¬ single.significandAt 1065353216 % 2 = 1 := by decide
  have hlow := lt_nearestCount_iff (f := single) (n := 1065353215) (m := m) (e := e) (by decide)
  have hhigh := lt_nearestCount_iff (f := single) (n := 1065353216) (m := m) (e := e) (by decide)
  rw [hbelow, and_iff_left hodd, ← le_iff_lt_or_eq] at hlow
  rw [habove, or_iff_left fun h => heven h.2] at hhigh
  rw [← hlow, ← not_lt, ← hhigh]
  omega

theorem numberAt_single_zero : single.numberAt 0 = 0 := by
  rw [numberAt_single_eq (s := 0) (k := -149) (by decide) (by decide), Nat.cast_zero, zero_mul]

theorem numberAt_single_one : single.numberAt 1065353216 = 1 := by
  rw [numberAt_single_eq (s := 8388608) (k := -23) (by decide) (by decide)]
  norm_num

/-- The numbers next to 1. -/
theorem numberAt_single_next (hne : single.numberAt n ≠ 1) :
    single.numberAt n ≤ 1 - 1 / 2 ^ 24 ∨ 1 + 1 / 2 ^ 23 ≤ single.numberAt n := by
  have hbelow : single.numberAt 1065353215 = 1 - 1 / 2 ^ 24 := by
    rw [numberAt_single_eq (s := 16777215) (k := -24) (by decide) (by decide)]
    norm_num
  have habove : single.numberAt 1065353217 = 1 + 1 / 2 ^ 23 := by
    rw [numberAt_single_eq (s := 8388609) (k := -23) (by decide) (by decide)]
    norm_num
  have hmono := (numberAt_strictMono single).monotone
  rw [← hbelow, ← habove]
  rcases lt_trichotomy n 1065353216 with h | rfl | h
  · exact .inl (hmono (by omega))
  · exact absurd numberAt_single_one hne
  · exact .inr (hmono (by omega))

end Single

end BinaryFormat

end ColorPipeline
