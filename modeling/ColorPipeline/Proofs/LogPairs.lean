-- A logarithm and the power that undoes it, over the real numbers. A logarithm knows no value
-- below the smallest normal sample, so the two together limit a pixel. The optimizer drops them
-- without a limit in their place, which is right only for pixels that the limit leaves alone.
import ColorPipeline.Proofs.Exact
import ColorPipeline.Proofs.Walks
import ColorPipeline.Render.Renderer

open scoped ColorPipeline.RealScalar

namespace ColorPipeline

/-! ## Bases -/

namespace LogOp

/-- Over the real numbers a base is well-formed where it is positive and not 1. -/
theorem validate_iff (l : LogOp ℝ) :
    (l.validate : Except (OpError ℝ) Unit) = .ok () ↔ 0 < l.base ∧ l.base ≠ 1 := by
  have hdef : (l.validate : Except (OpError ℝ) Unit) =
      if !true || decide (l.base ≤ ((0 : ℕ) : ℝ)) then
        .error (.invalid .log (.baseNotPositive l.base))
      else if decide (l.base = ((1 : ℕ) : ℝ)) then .error (.invalid .log .baseIsOne)
      else .ok () := rfl
  rw [hdef]
  by_cases hpos : 0 < l.base
  · have hnot : decide (l.base ≤ ((0 : ℕ) : ℝ)) = false := by simpa using hpos
    rw [hnot]
    by_cases hone : l.base = 1 <;> simp [hpos, hone]
  · simp [hpos, not_lt.mp hpos]

theorem isInverse_inverse (l : LogOp ℝ) : l.isInverse l.inverse := by
  unfold isInverse inverse
  cases l.direction <;> simp [Direction.flip]

end LogOp

/-! ## Single values -/

namespace Renderer

theorem smallestNormal_eq : (smallestNormal : ℝ) = 1 / 2 ^ 126 := by
  have hdef : (smallestNormal : ℝ) = ((1 : ℕ) : ℝ) / ((Nat.pow 2 126 : ℕ) : ℝ) := rfl
  rw [hdef, Nat.pow_eq]
  norm_num

theorem smallestNormal_pos : 0 < (smallestNormal : ℝ) := by
  rw [smallestNormal_eq]
  positivity

end Renderer

namespace LogOp

open Renderer (smallestNormal smallestNormal_pos)

/-- The value after the op. -/
noncomputable def onValue (l : LogOp ℝ) (v : ℝ) : ℝ :=
  match l.direction with
  | .forward => Real.logb l.base (max v smallestNormal)
  | .inverse => l.base ^ v

/-- The op and the one that undoes it find their way back from a value that no limit moves:
the value itself, or the power of it, is not below the smallest normal sample. -/
def Keeps (l : LogOp ℝ) (v : ℝ) : Prop :=
  match l.direction with
  | .forward => smallestNormal ≤ v
  | .inverse => smallestNormal ≤ l.base ^ v

variable {l : LogOp ℝ}

/-- A logarithm loses what lies below the least normal number. -/
theorem onValue_inverse_onValue_iff (hpos : 0 < l.base) (hone : l.base ≠ 1) (v : ℝ) :
    l.inverse.onValue (l.onValue v) = v ↔ l.Keeps v := by
  rcases l with ⟨base, direction⟩
  cases direction with
  | forward =>
    change base ^ Real.logb base (max v smallestNormal) = v ↔ smallestNormal ≤ v
    have hlimited : 0 < max v smallestNormal := lt_max_of_lt_right smallestNormal_pos
    rw [Real.rpow_logb hpos hone hlimited]
    exact max_eq_left_iff
  | inverse =>
    change Real.logb base (max (base ^ v) smallestNormal) = v ↔ smallestNormal ≤ base ^ v
    have hlimited : 0 < max (base ^ v) smallestNormal := lt_max_of_lt_right smallestNormal_pos
    rw [Real.logb_eq_iff_rpow_eq hpos hone hlimited, eq_comm]
    exact max_eq_left_iff

theorem ofData_log (l : LogOp ℝ) : ∃ renderer : Renderer ℝ,
    Renderer.ofData (.log l : OpData ℝ ℝ) = .ok renderer ∧
      ∀ px, renderer.apply px = px.mapRgb fun c => c.map l.onValue := by
  rcases l with ⟨base, direction⟩
  cases direction with
  | forward =>
    refine ⟨_, rfl, ?_⟩
    intro px
    have hvalue : ∀ v : ℝ, Real.log (Scalar.maxNum v smallestNormal) *
        (((1 : ℕ) : ℝ) / Real.log base) = Real.logb base (max v smallestNormal) := by
      intro v
      rw [RealScalar.maxNum_eq, Nat.cast_one, mul_one_div]
      rfl
    change (px.mapRgb fun c => c.map fun v => Real.log (Scalar.maxNum v smallestNormal) *
        (((1 : ℕ) : ℝ) / Real.log base)) = _
    simp only [hvalue]
    rfl
  | inverse => exact ⟨_, rfl, fun _ => rfl⟩

end LogOp

/-! ## Pairs -/

namespace Pipeline

theorem cancelRule_log (l : LogOp ℝ) (i j : Option String) :
    cancelRule (⟨.log l, i⟩ : Op ℝ ℝ) ⟨.log l.inverse, j⟩ = .ok .drop :=
  (cancelRule_eq_drop_iff _ _).mpr ⟨l.isInverse_inverse, rfl, rfl⟩

theorem mapRgb_map_eq_iff (f : ℝ → ℝ) (px : Rgba ℝ) :
    (px.mapRgb fun c => c.map f) = px ↔ ∀ ch, f (px.rgb.get ch) = px.rgb.get ch := by
  rcases px with ⟨red, green, blue, alpha⟩
  constructor
  · intro h ch
    have hrgb := congrArg (fun q => q.rgb.get ch) h
    cases ch <;> exact hrgb
  · intro h
    have hred : f red = red := h .red
    have hgreen : f green = green := h .green
    have hblue : f blue = blue := h .blue
    simp [Rgba.mapRgb, Rgba.ofRgb, Rgba.rgb, Rgb.map, hred, hgreen, hblue]

/-- The optimizer drops a logarithm and the power that undoes it, in either order. The two
leave a pixel as it is where no channel is moved by the limit of the logarithm, and only
there. -/
theorem a_logarithm_and_its_power_leave_a_pixel_iff (l : LogOp ℝ) {i j : Option String}
    (hvalid : (l.validate : Except (OpError ℝ) Unit) = .ok ()) :
    cancelRule (⟨.log l, i⟩ : Op ℝ ℝ) ⟨.log l.inverse, j⟩ = .ok .drop ∧
      ∃ first second : Renderer ℝ,
        Renderer.ofData (.log l : OpData ℝ ℝ) = .ok first ∧
        Renderer.ofData (.log l.inverse : OpData ℝ ℝ) = .ok second ∧
        ∀ px, second.apply (first.apply px) = px ↔ ∀ ch, l.Keeps (px.rgb.get ch) := by
  obtain ⟨hpos, hone⟩ := l.validate_iff.mp hvalid
  obtain ⟨first, hfirst, happly⟩ := l.ofData_log
  obtain ⟨second, hsecond, happly'⟩ := l.inverse.ofData_log
  refine ⟨cancelRule_log l i j, first, second, hfirst, hsecond, ?_⟩
  intro px
  have hboth : second.apply (first.apply px) =
      px.mapRgb fun c => c.map fun v => l.inverse.onValue (l.onValue v) := by
    rw [happly, happly']
    rfl
  rw [hboth, mapRgb_map_eq_iff]
  simp only [LogOp.onValue_inverse_onValue_iff hpos hone]

/-- Powers of two of the numbers around zero are well above the limit. -/
theorem a_small_gray_survives_a_power_of_two :
    ((⟨2, .inverse⟩ : LogOp ℝ).validate : Except (OpError ℝ) Unit) = .ok () ∧
      ∃ first second : Renderer ℝ,
        Renderer.ofData (.log ⟨2, .inverse⟩ : OpData ℝ ℝ) = .ok first ∧
        Renderer.ofData (.log ⟨2, .forward⟩ : OpData ℝ ℝ) = .ok second ∧
        second.apply (first.apply (.ofRgb (Rgb.gray (-1)) 1)) = .ofRgb (Rgb.gray (-1)) 1 := by
  have hvalid := (LogOp.validate_iff ⟨2, .inverse⟩).mpr (by norm_num)
  obtain ⟨_, first, second, hfirst, hsecond, hiff⟩ :=
    a_logarithm_and_its_power_leave_a_pixel_iff ⟨2, .inverse⟩ (i := none) (j := none) hvalid
  refine ⟨hvalid, first, second, hfirst, hsecond, (hiff _).mpr ?_⟩
  intro ch
  have hgray : (Rgba.ofRgb (Rgb.gray (-1)) 1 : Rgba ℝ).rgb.get ch = -1 := by cases ch <;> rfl
  change Renderer.smallestNormal ≤ (2 : ℝ) ^ (_ : ℝ)
  rw [hgray, Renderer.smallestNormal_eq, Real.rpow_neg_one]
  norm_num

/-- A negative gray has no logarithm: the one that the limit has in its place leads back to
the limit, but dropping the two keeps the gray. -/
theorem a_negative_gray_is_lost_in_a_logarithm :
    ((⟨2, .forward⟩ : LogOp ℝ).validate : Except (OpError ℝ) Unit) = .ok () ∧
      cancelRule (⟨.log ⟨2, .forward⟩, none⟩ : Op ℝ ℝ) ⟨.log ⟨2, .inverse⟩, none⟩ = .ok .drop ∧
      ∃ first second : Renderer ℝ,
        Renderer.ofData (.log ⟨2, .forward⟩ : OpData ℝ ℝ) = .ok first ∧
        Renderer.ofData (.log ⟨2, .inverse⟩ : OpData ℝ ℝ) = .ok second ∧
        second.apply (first.apply (.ofRgb (Rgb.gray (-1)) 1)) =
          .ofRgb (Rgb.gray (1 / 2 ^ 126)) 1 ∧
        second.apply (first.apply (.ofRgb (Rgb.gray (-1)) 1)) ≠ .ofRgb (Rgb.gray (-1)) 1 := by
  have hvalid := (LogOp.validate_iff ⟨2, .forward⟩).mpr (by norm_num)
  obtain ⟨first, hfirst, happly⟩ := LogOp.ofData_log ⟨2, .forward⟩
  obtain ⟨second, hsecond, happly'⟩ := LogOp.ofData_log ⟨2, .inverse⟩
  have hvalue : (⟨2, .inverse⟩ : LogOp ℝ).onValue ((⟨2, .forward⟩ : LogOp ℝ).onValue (-1)) =
      1 / 2 ^ 126 := by
    have hpos := Renderer.smallestNormal_pos
    change (2 : ℝ) ^ Real.logb 2 (max (-1) Renderer.smallestNormal) = _
    rw [max_eq_right (by linarith), Real.rpow_logb (by norm_num) (by norm_num) hpos,
      Renderer.smallestNormal_eq]
  have hboth : second.apply (first.apply (.ofRgb (Rgb.gray (-1)) 1)) =
      .ofRgb (Rgb.gray (1 / 2 ^ 126)) 1 := by
    rw [happly, happly', ← hvalue]
    rfl
  refine ⟨hvalid, cancelRule_log _ _ _, first, second, hfirst, hsecond, hboth, ?_⟩
  rw [hboth]
  intro hsame
  have hred : (1 / 2 ^ 126 : ℝ) = -1 := congrArg (fun px => px.red) hsame
  norm_num at hred

end Pipeline

end ColorPipeline
