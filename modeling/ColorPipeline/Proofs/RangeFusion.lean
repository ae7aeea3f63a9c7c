-- Ranges one after the other, over the real numbers. A range is an affine map with limits. Two of
-- them are one such map, with the tighter limit on each side, as long as its limits do not meet.
-- A side of it is open only where it is open in both ranges, and an open side leaves no scale, so
-- the map is a range again.
import ColorPipeline.Proofs.Rendering
import ColorPipeline.Proofs.Validity

open scoped ColorPipeline.RealScalar

namespace ColorPipeline

/-! ## Limits -/

namespace Renderer

/-- Of two limits on one side the tighter one is left. -/
theorem atLeast_tighter (l m : Option ℝ) (v : ℝ) :
    atLeast (ClampedAffine.tighter Scalar.maxNum l m) v = atLeast m (atLeast l v) := by
  cases l with
  | none => rfl
  | some a =>
    cases m with
    | none => rfl
    | some b => simp [ClampedAffine.tighter, max_assoc]

theorem atMost_tighter (l m : Option ℝ) (v : ℝ) :
    atMost (ClampedAffine.tighter Scalar.minNum l m) v = atMost m (atMost l v) := by
  cases l with
  | none => rfl
  | some a =>
    cases m with
    | none => rfl
    | some b => simp [ClampedAffine.tighter, min_assoc]

section Moved

variable {s : ℝ}

theorem monotone_mul_add (hs : 0 < s) (o : ℝ) : Monotone fun v : ℝ => v * s + o := by
  intro v w h
  simpa using mul_le_mul_of_nonneg_right h hs.le

/-- A limit can be moved along with the values. -/
theorem atLeast_mul_add (hs : 0 < s) (o : ℝ) (l : Option ℝ) (v : ℝ) :
    atLeast l v * s + o = atLeast (l.map fun w => w * s + o) (v * s + o) := by
  cases l with
  | none => rfl
  | some lo =>
    rw [Option.map_some, atLeast_some, atLeast_some]
    exact (monotone_mul_add hs o).map_max

theorem atMost_mul_add (hs : 0 < s) (o : ℝ) (u : Option ℝ) (v : ℝ) :
    atMost u v * s + o = atMost (u.map fun w => w * s + o) (v * s + o) := by
  cases u with
  | none => rfl
  | some hi =>
    rw [Option.map_some, atMost_some, atMost_some]
    exact (monotone_mul_add hs o).map_min

end Moved

/-- It makes no difference which of two limits comes first, as long as they are in order. -/
theorem atLeast_atMost {l u : Option ℝ} (h : ∀ lo ∈ l, ∀ hi ∈ u, lo ≤ hi) (v : ℝ) :
    atLeast l (atMost u v) = atMost u (atLeast l v) := by
  cases l with
  | none => rfl
  | some lo =>
    cases u with
    | none => rfl
    | some hi =>
      have hlimits : max hi lo = hi := max_eq_left (h lo rfl hi rfl)
      simp only [atLeast_some, atMost_some]
      rw [max_min_distrib_right, hlimits]

end Renderer

/-! ## Maps one after the other -/

namespace ClampedAffine

open Renderer

variable {a next : ClampedAffine ℝ}

/-- The lower limit is below the upper one, where both are set. -/
def InOrder (a : ClampedAffine ℝ) : Prop := ∀ lo ∈ a.lower, ∀ hi ∈ a.upper, lo < hi

theorem exists_le_of_mem_tighter {l m : Option ℝ} {lo : ℝ} (h : lo ∈ m) :
    ∃ lo' ∈ tighter Scalar.maxNum l m, lo ≤ lo' := by
  cases h
  cases l with
  | none => exact ⟨lo, rfl, le_rfl⟩
  | some a => exact ⟨_, rfl, by simp⟩

theorem exists_ge_of_mem_tighter {l m : Option ℝ} {hi : ℝ} (h : hi ∈ l) :
    ∃ hi' ∈ tighter Scalar.minNum l m, hi' ≤ hi := by
  cases h
  cases m with
  | none => exact ⟨hi, rfl, le_rfl⟩
  | some b => exact ⟨_, rfl, by simp⟩

/-- Two maps in a row are the one with the moved and tightened limits. -/
theorem onValue_followedBy (hscale : 0 < next.scale) (horder : (a.followedBy next).InOrder)
    (v : ℝ) : (a.followedBy next).onValue v = next.onValue (a.onValue v) := by
  -- the upper limit of the first map comes before the lower one of the next, and may come after it
  have hlimits : ∀ lo ∈ next.lower,
      ∀ hi ∈ a.upper.map fun w => w * next.scale + next.offset, lo ≤ hi := by
    intro lo hlo hi hhi
    obtain ⟨lo', hlo', hle⟩ := exists_le_of_mem_tighter hlo
    obtain ⟨hi', hhi', hge⟩ := exists_ge_of_mem_tighter hhi
    exact hle.trans ((horder lo' hlo' hi' hhi').le.trans hge)
  have hvalue : v * (a.scale * next.scale) + (a.offset * next.scale + next.offset) =
      (v * a.scale + a.offset) * next.scale + next.offset := by ring
  unfold onValue followedBy
  rw [atMost_tighter, atLeast_tighter, atMost_mul_add hscale, atLeast_mul_add hscale,
    atLeast_atMost hlimits]
  exact congrArg (fun w => atMost _ (atMost _ (atLeast _ (atLeast _ w)))) hvalue

/-- What holds of the map of a range: values keep their order, a side can be open only where
there is no scale, and both sides only where there is no offset either. -/
structure OfRange (a : ClampedAffine ℝ) : Prop where
  scale_pos : 0 < a.scale
  scale_of_open : a.lower = none ∨ a.upper = none → a.scale = 1
  offset_of_open : a.lower = none → a.upper = none → a.offset = 0

theorem OfRange.followedBy (ha : a.OfRange) (hnext : next.OfRange) :
    (a.followedBy next).OfRange where
  scale_pos := mul_pos ha.scale_pos hnext.scale_pos
  scale_of_open h := by
    have hsides : (a.lower = none ∨ a.upper = none) ∧
        (next.lower = none ∨ next.upper = none) := by
      rcases h with h | h
      · obtain ⟨hlower, hlower'⟩ := tighter_eq_none.mp h
        exact ⟨.inl (Option.map_eq_none_iff.mp hlower), .inl hlower'⟩
      · obtain ⟨hupper, hupper'⟩ := tighter_eq_none.mp h
        exact ⟨.inr (Option.map_eq_none_iff.mp hupper), .inr hupper'⟩
    have hscale := ha.scale_of_open hsides.1
    have hscale' := hnext.scale_of_open hsides.2
    change a.scale * next.scale = 1
    rw [hscale, hscale', mul_one]
  offset_of_open hlower hupper := by
    obtain ⟨hlower, hlower'⟩ := tighter_eq_none.mp hlower
    obtain ⟨hupper, hupper'⟩ := tighter_eq_none.mp hupper
    have hoffset := ha.offset_of_open (Option.map_eq_none_iff.mp hlower)
      (Option.map_eq_none_iff.mp hupper)
    have hoffset' := hnext.offset_of_open hlower' hupper'
    change a.offset * next.scale + next.offset = 0
    rw [hoffset, hoffset', zero_mul, add_zero]

end ClampedAffine

/-! ## The maps of ranges -/

namespace RangeOp

/-- The ranges that are well-formed: each pair of bounds is set or missing, and where both are
set the upper ones are above the lower ones. -/
inductive Shape : RangeOp ℝ → Prop where
  | unbounded : Shape ⟨none, none, none, none⟩
  | fromBelow (minIn minOut : ℝ) : Shape ⟨some minIn, none, some minOut, none⟩
  | fromAbove (maxIn maxOut : ℝ) : Shape ⟨none, some maxIn, none, some maxOut⟩
  | between {minIn maxIn minOut maxOut : ℝ} (hin : minIn < maxIn) (hout : minOut < maxOut) :
      Shape ⟨some minIn, some maxIn, some minOut, some maxOut⟩

/-- A well-formed range has one of four shapes. -/
theorem validate_iff_shape (r : RangeOp ℝ) :
    r.validate = .ok () ↔ r.Shape := by
  rw [validate_iff]
  constructor
  · rintro ⟨hmin, hmax, _, hinput, houtput⟩
    obtain ⟨minIn, maxIn, minOut, maxOut⟩ := r
    obtain ⟨rfl, rfl⟩ | ⟨minIn, minOut, rfl, rfl⟩ := both_none_or_some hmin
    · obtain ⟨rfl, rfl⟩ | ⟨maxIn, maxOut, rfl, rfl⟩ := both_none_or_some hmax
      · exact .unbounded
      · exact .fromAbove maxIn maxOut
    · obtain ⟨rfl, rfl⟩ | ⟨maxIn, maxOut, rfl, rfl⟩ := both_none_or_some hmax
      · exact .fromBelow minIn minOut
      · exact .between (not_le.mp (hinput minIn rfl maxIn rfl))
          (not_le.mp (houtput minOut rfl maxOut rfl))
  · intro h
    cases h with
    | unbounded => exact ⟨rfl, rfl, fun _ _ => rfl, nofun, nofun⟩
    | fromBelow minIn minOut => exact ⟨rfl, rfl, fun _ _ => rfl, nofun, nofun⟩
    | fromAbove maxIn maxOut => exact ⟨rfl, rfl, fun _ _ => rfl, nofun, nofun⟩
    | between hin hout =>
      refine ⟨rfl, rfl, fun _ _ => rfl, ?_, ?_⟩
      · rintro _ ⟨⟩ _ ⟨⟩
        exact not_le_of_gt hin
      · rintro _ ⟨⟩ _ ⟨⟩
        exact not_le_of_gt hout

variable {r : RangeOp ℝ}

theorem affine_unbounded : (⟨none, none, none, none⟩ : RangeOp ℝ).affine = ⟨1, 0, none, none⟩ := by
  change (⟨((1 : ℕ) : ℝ), ((0 : ℕ) : ℝ), none, none⟩ : ClampedAffine ℝ) = _
  rw [Nat.cast_one, Nat.cast_zero]

theorem affine_fromBelow (minIn minOut : ℝ) :
    (⟨some minIn, none, some minOut, none⟩ : RangeOp ℝ).affine =
      ⟨1, minOut - minIn, some minOut, none⟩ := by
  change (⟨((1 : ℕ) : ℝ), minOut - minIn, some minOut, none⟩ : ClampedAffine ℝ) = _
  rw [Nat.cast_one]

theorem affine_fromAbove (maxIn maxOut : ℝ) :
    (⟨none, some maxIn, none, some maxOut⟩ : RangeOp ℝ).affine =
      ⟨1, maxOut - maxIn, none, some maxOut⟩ := by
  change (⟨((1 : ℕ) : ℝ), maxOut - maxIn, none, some maxOut⟩ : ClampedAffine ℝ) = _
  rw [Nat.cast_one]

theorem affine_between (minIn maxIn minOut maxOut : ℝ) :
    let scale := (maxOut - minOut) / (maxIn - minIn)
    (⟨some minIn, some maxIn, some minOut, some maxOut⟩ : RangeOp ℝ).affine =
      ⟨scale, minOut - minIn * scale, some minOut, some maxOut⟩ := rfl

theorem Shape.ofRange (h : r.Shape) : r.affine.OfRange := by
  cases h with
  | unbounded =>
    rw [affine_unbounded]
    exact ⟨zero_lt_one, fun _ => rfl, fun _ _ => rfl⟩
  | fromBelow minIn minOut =>
    rw [affine_fromBelow]
    exact ⟨zero_lt_one, fun _ => rfl, nofun⟩
  | fromAbove maxIn maxOut =>
    rw [affine_fromAbove]
    exact ⟨zero_lt_one, fun _ => rfl, nofun⟩
  | between hin hout =>
    rw [affine_between]
    exact ⟨div_pos (sub_pos.mpr hout) (sub_pos.mpr hin), by simp, nofun⟩

theorem Shape.inOrder (h : r.Shape) : r.affine.InOrder := by
  cases h with
  | unbounded => exact nofun
  | fromBelow minIn minOut => exact nofun
  | fromAbove maxIn maxOut => exact nofun
  | between hin hout =>
    rintro _ ⟨⟩ _ ⟨⟩
    exact hout

/-- A range without limits has no bounds. -/
theorem Shape.hasBounds_of_open (h : r.Shape) (hlower : r.affine.lower = none)
    (hupper : r.affine.upper = none) : r.hasBounds = false := by
  cases h with
  | unbounded => rfl
  | fromBelow minIn minOut => cases hlower
  | fromAbove maxIn maxOut => cases hupper
  | between hin hout => cases hlower

theorem Shape.inverse (h : r.Shape) : r.inverse.Shape := by
  cases h with
  | unbounded => exact .unbounded
  | fromBelow minIn minOut => exact .fromBelow minOut minIn
  | fromAbove maxIn maxOut => exact .fromAbove maxOut maxIn
  | between hin hout => exact .between hout hin

theorem Shape.inputClamp (h : r.Shape) : r.inputClamp.Shape := by
  cases h with
  | unbounded => exact .unbounded
  | fromBelow minIn minOut => exact .fromBelow minIn minIn
  | fromAbove maxIn maxOut => exact .fromAbove maxIn maxIn
  | between hin hout => exact .between hin hin

/-- A range and the one that undoes it limit the inputs. -/
theorem Shape.affine_followedBy_inverse (h : r.Shape) :
    r.affine.followedBy r.inverse.affine = r.inputClamp.affine := by
  cases h with
  | unbounded =>
    unfold RangeOp.inverse RangeOp.inputClamp
    rw [affine_unbounded]
    simp [ClampedAffine.followedBy, ClampedAffine.tighter]
  | fromBelow minIn minOut =>
    unfold RangeOp.inverse RangeOp.inputClamp
    simp only [affine_fromBelow]
    simp [ClampedAffine.followedBy, ClampedAffine.tighter]
  | fromAbove maxIn maxOut =>
    unfold RangeOp.inverse RangeOp.inputClamp
    simp only [affine_fromAbove]
    simp [ClampedAffine.followedBy, ClampedAffine.tighter]
  | @between minIn maxIn minOut maxOut hin hout =>
    have hin' : maxIn - minIn ≠ 0 := (sub_pos.mpr hin).ne'
    have hout' : maxOut - minOut ≠ 0 := (sub_pos.mpr hout).ne'
    have hlow : minOut * ((maxIn - minIn) / (maxOut - minOut)) +
        (minIn - minOut * ((maxIn - minIn) / (maxOut - minOut))) = minIn := by ring
    have hhigh : maxOut * ((maxIn - minIn) / (maxOut - minOut)) +
        (minIn - minOut * ((maxIn - minIn) / (maxOut - minOut))) = maxIn := by
      field_simp
      ring
    have hscale : (maxOut - minOut) / (maxIn - minIn) * ((maxIn - minIn) / (maxOut - minOut)) =
        (maxIn - minIn) / (maxIn - minIn) := by
      field_simp
    have hoffset : (minOut - minIn * ((maxOut - minOut) / (maxIn - minIn))) *
        ((maxIn - minIn) / (maxOut - minOut)) +
          (minIn - minOut * ((maxIn - minIn) / (maxOut - minOut))) =
        minIn - minIn * ((maxIn - minIn) / (maxIn - minIn)) := by
      field_simp
      ring
    unfold RangeOp.inverse RangeOp.inputClamp
    simp only [affine_between, ClampedAffine.followedBy, ClampedAffine.tighter, Option.map_some,
      hscale, hoffset, hlow, hhigh, RealScalar.maxNum_eq, RealScalar.minNum_eq, max_self, min_self]

end RangeOp

/-! ## Maps as ranges -/

namespace ClampedAffine

variable {a : ClampedAffine ℝ}

/-- Limits that are not in order cannot be written as a range. -/
theorem toFused_of_not_inOrder (h : ¬ a.InOrder) : a.toFused = .inexpressible := by
  unfold InOrder at h
  push Not at h
  obtain ⟨lo, hlo, hi, hhi, hle⟩ := h
  obtain ⟨scale, offset, lower, upper⟩ := a
  cases hlo
  cases hhi
  exact if_neg (not_lt.mpr hle)

theorem tolerance_pos : 0 < (tolerance : ℝ) := by
  have h : (tolerance : ℝ) = _ := RealScalar.ofDecimal_eq 1 9
  rw [h]
  positivity

/-- The test for a scale that is one. -/
theorem unitScale_one : decide (Scalar.abs (1 - ((1 : ℕ) : ℝ)) < (tolerance : ℝ)) = true := by
  change decide (|1 - ((1 : ℕ) : ℝ)| < (tolerance : ℝ)) = true
  rw [Nat.cast_one, sub_self, abs_zero, decide_eq_true_eq]
  exact tolerance_pos

/-- The test for an offset that is zero. -/
theorem offset_zero : decide (Scalar.abs (0 : ℝ) < (tolerance : ℝ)) = true := by
  change decide (|(0 : ℝ)| < (tolerance : ℝ)) = true
  rw [abs_zero, decide_eq_true_eq]
  exact tolerance_pos

/-- The map of a range whose limits are in order is written as nothing if it has no limits, and
else as a range that has this map. -/
theorem OfRange.toFused_of_inOrder (h : a.OfRange) (horder : a.InOrder) :
    a.lower = none ∧ a.upper = none ∧ a.toFused = .nothing ∨
      ∃ r : RangeOp ℝ, a.toFused = .range r ∧ r.affine = a := by
  obtain ⟨hpos, hunit, hzero⟩ := h
  obtain ⟨scale, offset, lower, upper⟩ := a
  cases lower with
  | none =>
    obtain rfl : scale = 1 := hunit (.inl rfl)
    cases upper with
    | none =>
      obtain rfl : offset = 0 := hzero rfl rfl
      exact .inl ⟨rfl, rfl, if_pos ((Bool.and_eq_true _ _).mpr ⟨unitScale_one, offset_zero⟩)⟩
    | some hi =>
      refine .inr ⟨⟨none, some (hi - offset), none, some hi⟩, if_pos unitScale_one, ?_⟩
      rw [RangeOp.affine_fromAbove, sub_sub_cancel]
  | some lo =>
    cases upper with
    | none =>
      obtain rfl : scale = 1 := hunit (.inr rfl)
      refine .inr ⟨⟨some (lo - offset), none, some lo, none⟩, if_pos unitScale_one, ?_⟩
      rw [RangeOp.affine_fromBelow, sub_sub_cancel]
    | some hi =>
      have hlimits : lo < hi := horder lo rfl hi rfl
      have hlimits' : hi - lo ≠ 0 := (sub_pos.mpr hlimits).ne'
      have hscale : (hi - lo) / ((hi - offset) / scale - (lo - offset) / scale) = scale := by
        rw [← sub_div, sub_sub_sub_cancel_right, div_div_cancel₀ hlimits']
      have hoffset : lo - (lo - offset) / scale * scale = offset := by
        rw [div_mul_cancel₀ _ hpos.ne', sub_sub_cancel]
      refine .inr ⟨⟨some ((lo - offset) / scale), some ((hi - offset) / scale), some lo, some hi⟩,
        if_pos hlimits, ?_⟩
      rw [RangeOp.affine_between]
      simp only [hscale, hoffset]

end ClampedAffine

/-! ## Limits that meet -/

namespace ClampedAffine

open Renderer

variable {a next : ClampedAffine ℝ}

theorem mem_of_mem_tighter {choose : ℝ → ℝ → ℝ} (hchoose : ∀ x y, choose x y = x ∨ choose x y = y)
    {l m : Option ℝ} {v : ℝ} (h : v ∈ tighter choose l m) : v ∈ l ∨ v ∈ m := by
  cases l with
  | none => exact .inr h
  | some x =>
    cases m with
    | none => exact .inl h
    | some y =>
      cases h
      rcases hchoose x y with h | h
      · exact .inl (congrArg some h.symm)
      · exact .inr (congrArg some h.symm)

/-- Between limits in order, values are not below the lower one. -/
theorem InOrder.le_onValue (h : a.InOrder) {lo : ℝ} (hlo : lo ∈ a.lower) (v : ℝ) :
    lo ≤ a.onValue v := by
  unfold onValue
  rw [Option.mem_def.mp hlo, atLeast_some]
  cases hupper : a.upper with
  | none => exact le_max_right _ _
  | some hi => exact (atMost_some hi _).symm ▸ le_min (le_max_right _ _) (h lo hlo hi hupper).le

theorem onValue_le {hi : ℝ} (hhi : hi ∈ a.upper) (v : ℝ) : a.onValue v ≤ hi := by
  unfold onValue
  rw [Option.mem_def.mp hhi, atMost_some]
  exact min_le_right _ _

/-- The value of a place between the limits is reached. -/
theorem exists_onValue_eq (hscale : 0 < a.scale) {y : ℝ} (hlower : ∀ lo ∈ a.lower, lo ≤ y)
    (hupper : ∀ hi ∈ a.upper, y ≤ hi) : ∃ v, a.onValue v = y := by
  refine ⟨(y - a.offset) / a.scale, ?_⟩
  unfold onValue
  rw [div_mul_cancel₀ _ hscale.ne', sub_add_cancel]
  have hlow : atLeast a.lower y = y := by
    cases h : a.lower with
    | none => rfl
    | some lo => rw [atLeast_some, max_eq_left (hlower lo h)]
  rw [hlow]
  cases h : a.upper with
  | none => rfl
  | some hi => rw [atMost_some, min_eq_left (hupper hi h)]

/-- There are two places between limits in order. -/
theorem InOrder.exists_lt (h : a.InOrder) :
    ∃ y z : ℝ, y < z ∧ (∀ lo ∈ a.lower, lo ≤ y) ∧ ∀ hi ∈ a.upper, z ≤ hi := by
  cases hlower : a.lower with
  | none =>
    cases hupper : a.upper with
    | none => exact ⟨0, 1, zero_lt_one, nofun, nofun⟩
    | some hi => exact ⟨hi - 1, hi, sub_one_lt hi, nofun, by rintro _ ⟨⟩; exact le_rfl⟩
  | some lo =>
    cases hupper : a.upper with
    | none => exact ⟨lo, lo + 1, lt_add_one lo, by rintro _ ⟨⟩; exact le_rfl, nofun⟩
    | some hi =>
      refine ⟨lo, hi, h lo hlower hi hupper, ?_, ?_⟩
      · rintro _ ⟨⟩
        exact le_rfl
      · rintro _ ⟨⟩
        exact le_rfl

theorem onValue_eq_upper {hi v : ℝ} (hhi : hi ∈ a.upper) (h : hi ≤ v * a.scale + a.offset) :
    a.onValue v = hi := by
  have habove : v * a.scale + a.offset ≤ atLeast a.lower (v * a.scale + a.offset) := by
    cases a.lower with
    | none => exact le_rfl
    | some lo => exact (atLeast_some lo _).symm ▸ le_max_left _ _
  unfold onValue
  rw [Option.mem_def.mp hhi, atMost_some, min_eq_right (h.trans habove)]

theorem InOrder.onValue_eq_lower (horder : a.InOrder) {lo v : ℝ} (hlo : lo ∈ a.lower)
    (h : v * a.scale + a.offset ≤ lo) : a.onValue v = lo := by
  unfold onValue
  rw [Option.mem_def.mp hlo, atLeast_some, max_eq_right h]
  cases hupper : a.upper with
  | none => rfl
  | some hi => rw [atMost_some, min_eq_left (horder lo hlo hi hupper).le]

/-- Where the limits of two maps in a row meet, all values end at one. -/
theorem exists_eq_of_not_inOrder (hscale : 0 < next.scale) (ha : a.InOrder)
    (hnext : next.InOrder) (h : ¬ (a.followedBy next).InOrder) :
    ∃ c, ∀ v, next.onValue (a.onValue v) = c := by
  have hmono := monotone_mul_add hscale next.offset
  unfold InOrder at h
  push Not at h
  obtain ⟨lo, hlo, hi, hhi, hle⟩ := h
  obtain hlo | hlo := mem_of_mem_tighter (fun x y => by simpa using max_choice x y) hlo
  · obtain ⟨lo, hlo', rfl⟩ := Option.mem_map.mp hlo
    obtain hhi | hhi := mem_of_mem_tighter (fun x y => by simpa using min_choice x y) hhi
    · obtain ⟨hi, hhi', rfl⟩ := Option.mem_map.mp hhi
      have hlt : lo * next.scale < hi * next.scale :=
        mul_lt_mul_of_pos_right (ha lo hlo' hi hhi') hscale
      linarith
    · exact ⟨hi, fun v => onValue_eq_upper hhi (hle.trans (hmono (ha.le_onValue hlo' v)))⟩
  · obtain hhi | hhi := mem_of_mem_tighter (fun x y => by simpa using min_choice x y) hhi
    · obtain ⟨hi, hhi', rfl⟩ := Option.mem_map.mp hhi
      exact ⟨lo, fun v => hnext.onValue_eq_lower hlo ((hmono (onValue_le hhi' v)).trans hle)⟩
    · exact absurd (hnext lo hlo hi hhi) (not_lt.mpr hle)

/-- Two maps in a row end at one value where their limits meet, and only there. -/
theorem exists_eq_iff_not_inOrder (ha : a.OfRange) (hnext : next.OfRange) (hlimits : a.InOrder)
    (hlimits' : next.InOrder) :
    (∃ c, ∀ v, next.onValue (a.onValue v) = c) ↔ ¬ (a.followedBy next).InOrder := by
  constructor
  · rintro ⟨c, hc⟩ horder
    have hscale := (ha.followedBy hnext).scale_pos
    have hfused : ∀ v, (a.followedBy next).onValue v = c := by
      intro v
      rw [onValue_followedBy hnext.scale_pos horder, hc]
    obtain ⟨y, z, hyz, hlower, hupper⟩ := horder.exists_lt
    obtain ⟨v, hv⟩ := exists_onValue_eq hscale hlower fun hi hhi => hyz.le.trans (hupper hi hhi)
    obtain ⟨w, hw⟩ := exists_onValue_eq hscale (fun lo hlo => (hlower lo hlo).trans hyz.le) hupper
    exact hyz.ne (by rw [← hv, ← hw, hfused, hfused])
  · exact exists_eq_of_not_inOrder hnext.scale_pos hlimits hlimits'

end ClampedAffine

/-! ## Fusion -/

namespace RangeOp

variable {a b : RangeOp ℝ}

/-- The ops fuse where their limits do not meet. -/
theorem canFuse_iff (ha : a.validate = .ok ()) (hb : b.validate = .ok ()) :
    a.canFuse b = true ↔ (a.affine.followedBy b.affine).InOrder := by
  have hfirst := (a.validate_iff_shape.mp ha).ofRange
  have hfused := hfirst.followedBy (b.validate_iff_shape.mp hb).ofRange
  unfold canFuse fuse
  rw [ha, hb]
  constructor
  · intro h
    by_contra horder
    rw [ClampedAffine.toFused_of_not_inOrder horder] at h
    cases h
  · intro horder
    obtain ⟨_, _, h⟩ | ⟨r, h, _⟩ := hfused.toFused_of_inOrder horder
    · rw [h]
      rfl
    · rw [h]
      rfl

theorem rendered_pair (a b : RangeOp ℝ) (px : Rgba ℝ) :
    OpData.rendered ([.range a, .range b] : List (OpData ℝ ℝ)) px =
      .ok (px.mapRgb fun c => c.map fun v => b.affine.onValue (a.affine.onValue v)) := by
  rw [OpData.rendered_range, OpData.rendered_range]
  rfl

/-- Ranges in a row do what a range does that has their map. -/
theorem sameOnPixels_of_affine_eq {r : RangeOp ℝ} (hscale : 0 < b.affine.scale)
    (horder : (a.affine.followedBy b.affine).InOrder)
    (hr : r.affine = a.affine.followedBy b.affine) :
    OpData.SameOnPixels ([.range a, .range b] : List (OpData ℝ ℝ)) [.range r] := by
  intro px
  refine ⟨_, rendered_pair a b px, ?_⟩
  rw [OpData.rendered_range, hr, funext (ClampedAffine.onValue_followedBy hscale horder)]
  rfl

/-- Ranges that leave no limits in a row do nothing. -/
theorem sameOnPixels_nil (ha : a.Shape) (hb : b.Shape)
    (hlower : (a.affine.followedBy b.affine).lower = none)
    (hupper : (a.affine.followedBy b.affine).upper = none) :
    OpData.SameOnPixels ([.range a, .range b] : List (OpData ℝ ℝ)) [] := by
  have hfused := ha.ofRange.followedBy hb.ofRange
  have horder : (a.affine.followedBy b.affine).InOrder := by
    rintro lo hlo
    rw [hlower] at hlo
    cases hlo
  have hvalue : ∀ v, (a.affine.followedBy b.affine).onValue v = v := by
    intro v
    unfold ClampedAffine.onValue
    rw [hlower, hupper, hfused.scale_of_open (.inl hlower), hfused.offset_of_open hlower hupper]
    simp
  intro px
  refine ⟨_, rendered_pair a b px, ?_⟩
  simp only [← ClampedAffine.onValue_followedBy hb.ofRange.scale_pos horder, hvalue]
  rfl

/-- Ranges take all pixels to one gray where they take all values to one. -/
theorem exists_gray_iff (a b : RangeOp ℝ) :
    (∃ gray : ℝ, ∀ px : Rgba ℝ, OpData.rendered ([.range a, .range b] : List (OpData ℝ ℝ)) px =
      .ok (px.mapRgb fun _ => Rgb.gray gray)) ↔
        ∃ c, ∀ v, b.affine.onValue (a.affine.onValue v) = c := by
  refine exists_congr fun gray => ?_
  constructor
  · intro h v
    have hpx := h (.ofRgb (Rgb.gray v) v)
    rw [rendered_pair] at hpx
    exact congrArg Rgba.red (Except.ok.inj hpx)
  · intro h px
    rw [rendered_pair]
    simp only [h]
    rfl

end RangeOp

/-- Two ranges in a row fuse unless their limits meet, which is where they take all colours to
one gray. What they fuse into is nothing if neither of them has bounds and else a range, and it
does what they do. A range with bounds and the one that undoes it do what the limits do that
take their place. -/
theorem ranges_fuse_unless_their_limits_meet (a b : RangeOp ℝ) (ha : a.validate = .ok ())
    (hb : b.validate = .ok ()) :
    let first : OpData ℝ ℝ := .range a
    let second : OpData ℝ ℝ := .range b
    let fused := a.affine.followedBy b.affine
    (first.canFuse second = false ↔ ∃ lo ∈ fused.lower, ∃ hi ∈ fused.upper, hi ≤ lo) ∧
      (first.canFuse second = false ↔ ∃ gray, ∀ px : Rgba ℝ,
        OpData.rendered [first, second] px = .ok (px.mapRgb fun _ => Rgb.gray gray)) ∧
      (first.canFuse second = true → ∃ ds, first.fuse second = .ok ds ∧
        (ds = [] ∧ a.hasBounds = false ∧ b.hasBounds = false ∨
          ∃ r, ds = [.range r] ∧ r.validate = .ok ()) ∧
        OpData.SameOnPixels [first, second] ds) ∧
      (a.hasBounds = true → ∃ limits : RangeOp ℝ, ∃ undoing : OpData ℝ ℝ,
        first.replacement = .clamp limits ∧ first.inverse = .ok undoing ∧
          OpData.SameOnPixels [first, undoing] [.range limits]) := by
  intro first second fused
  have hfirst := a.validate_iff_shape.mp ha
  have hsecond := b.validate_iff_shape.mp hb
  have hfuses : first.canFuse second = true ↔ fused.InOrder := RangeOp.canFuse_iff ha hb
  have hmeet : first.canFuse second = false ↔ ¬ fused.InOrder := by
    rw [← hfuses, Bool.not_eq_true]
  refine ⟨?_, ?_, ?_, ?_⟩
  · rw [hmeet]
    unfold ClampedAffine.InOrder
    push Not
    rfl
  · rw [hmeet, RangeOp.exists_gray_iff]
    exact (ClampedAffine.exists_eq_iff_not_inOrder hfirst.ofRange hsecond.ofRange hfirst.inOrder
      hsecond.inOrder).symm
  · intro hcan
    have horder := hfuses.mp hcan
    obtain ⟨hlower, hupper, hfused⟩ | ⟨r, hfused, hr⟩ :=
      (hfirst.ofRange.followedBy hsecond.ofRange).toFused_of_inOrder horder
    · obtain ⟨hlower₁, hlower₂⟩ := ClampedAffine.tighter_eq_none.mp hlower
      obtain ⟨hupper₁, hupper₂⟩ := ClampedAffine.tighter_eq_none.mp hupper
      have hopen := hfirst.hasBounds_of_open (Option.map_eq_none_iff.mp hlower₁)
        (Option.map_eq_none_iff.mp hupper₁)
      have hopen' := hsecond.hasBounds_of_open hlower₂ hupper₂
      refine ⟨[], ?_, .inl ⟨rfl, hopen, hopen'⟩,
        RangeOp.sameOnPixels_nil hfirst hsecond hlower hupper⟩
      change a.fuse b = .nothing at hfused
      simp only [first, second, OpData.fuse, hfused]
    · change a.fuse b = .range r at hfused
      refine ⟨[.range r], ?_, .inr ⟨r, rfl, ?_⟩,
        RangeOp.sameOnPixels_of_affine_eq hsecond.ofRange.scale_pos horder hr⟩
      · simp only [first, second, OpData.fuse, hfused]
      · have hvalid := RangeOp.fuse_valid ha hb
        rwa [hfused] at hvalid
  · intro hbounds
    have hreplacement : first.replacement = .clamp a.inputClamp := if_pos hbounds
    have hundone := hfirst.affine_followedBy_inverse
    refine ⟨a.inputClamp, .range a.inverse, hreplacement, rfl, ?_⟩
    refine RangeOp.sameOnPixels_of_affine_eq hfirst.inverse.ofRange.scale_pos ?_ hundone.symm
    rw [hundone]
    exact hfirst.inputClamp.inOrder

/-- A range that doubles and one that has a lower limit inside of it. -/
theorem doubled_values_have_a_lower_limit :
    let double : RangeOp ℝ := ⟨some 0, some 1, some 0, some 2⟩
    let floor : RangeOp ℝ := ⟨some (1 / 2), none, some (1 / 4), none⟩
    double.validate = .ok () ∧
      floor.validate = .ok () ∧
      (OpData.range double : OpData ℝ ℝ).canFuse (.range floor) = true ∧
      (∃ r : RangeOp ℝ, (OpData.range double : OpData ℝ ℝ).fuse (.range floor) = .ok [.range r] ∧
        r.validate = .ok () ∧
        OpData.SameOnPixels [.range double, .range floor] ([.range r] : List (OpData ℝ ℝ))) ∧
      OpData.SameOnPixels [.range double, .range double.inverse]
        ([.range (RangeOp.clamp 0 1)] : List (OpData ℝ ℝ)) := by
  intro double floor
  have hdouble := double.validate_iff_shape.mpr (.between zero_lt_one two_pos)
  have hfloor := floor.validate_iff_shape.mpr (.fromBelow (1 / 2) (1 / 4))
  obtain ⟨hmeet, _, hfuse, hundo⟩ :=
    ranges_fuse_unless_their_limits_meet double floor hdouble hfloor
  have hcan : (OpData.range double : OpData ℝ ℝ).canFuse (.range floor) = true := by
    rw [← Bool.not_eq_false, hmeet, RangeOp.affine_between, RangeOp.affine_fromBelow]
    rintro ⟨_, ⟨⟩, _, ⟨⟩, hle⟩
    rw [RealScalar.maxNum_eq] at hle
    norm_num at hle
  obtain ⟨ds, hds, hempty | ⟨r, rfl, hr⟩, hsame⟩ := hfuse hcan
  · cases hempty.2.1
  · obtain ⟨limits, undoing, hlimits, hundoing, hsame'⟩ := hundo rfl
    cases hlimits
    cases hundoing
    exact ⟨hdouble, hfloor, hcan, ⟨r, hds, hr, hsame⟩, hsame'⟩

end ColorPipeline
