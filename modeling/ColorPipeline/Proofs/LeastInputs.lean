-- The inverse of a curve over the real numbers. The search ends between two samples that differ,
-- sorted or not, so nothing outside the table is read and no division is by zero. Where the curve
-- never falls, the result is the least input whose value is not below the one asked for.
import ColorPipeline.Lut.Lut1D
import ColorPipeline.Proofs.Curves
import ColorPipeline.Proofs.SignlessTables
import Mathlib.Order.GaloisConnection.Basic

open scoped ColorPipeline.RealScalar

namespace ColorPipeline

namespace Curve

/-! ## Reads and divisions that can fail -/

/-- A quotient, if the divisor is not zero. -/
noncomputable def quotient? (a b : ℝ) : Option ℝ := if b = 0 then none else some (a / b)

/-- The search for the first sample that is not below `y`, with reads that can fail. -/
noncomputable def firstNotBelow? (read : Nat → Option ℝ) (y : ℝ) (lo hi : Nat) : Option Nat :=
  if lo < hi then
    let middle := (lo + hi) / 2
    match read middle with
    | none => none
    | some v =>
      if v < y then firstNotBelow? read y (middle + 1) hi else firstNotBelow? read y lo middle
  else some lo
termination_by hi - lo

/-- The inversion of a curve with reads and divisions that can fail. -/
noncomputable def invert? (size : Nat) (read : Nat → Option ℝ) (v : ℝ) : Option ℝ :=
  if size < 2 then some (min (max v 0) 1)
  else do
    let first ← read 0
    let last ← read (size - 1)
    let y := min (max v first) last
    let i ← firstNotBelow? read y 0 size
    if i = 0 then some 0
    else if size ≤ i then some 1
    else
      let below ← read (i - 1)
      let above ← read i
      let fraction ← quotient? (y - below) (above - below)
      quotient? (((i - 1 : ℕ) : ℝ) + fraction) ((size - 1 : ℕ) : ℝ)

variable {c : Curve ℝ}

theorem firstNotBelow?_eq {read : Nat → Option ℝ} (hread : ∀ i < c.size, read i = some (c.sample i))
    (y : ℝ) {lo hi : Nat} (hhi : hi ≤ c.size) :
    firstNotBelow? read y lo hi = some (c.firstNotBelow y lo hi) := by
  fun_induction c.firstNotBelow y lo hi with
  | case1 lo hi hlt middle hbelow ih =>
    rw [firstNotBelow?, if_pos hlt]
    simp only [hread ((lo + hi) / 2) (by omega)]
    rw [if_pos hbelow]
    exact ih hhi
  | case2 lo hi hlt middle hnot ih =>
    rw [firstNotBelow?, if_pos hlt]
    simp only [hread ((lo + hi) / 2) (by omega)]
    rw [if_neg hnot]
    exact ih (by omega)
  | case3 lo hi hge => rw [firstNotBelow?, if_neg hge]

/-- The search ends before all samples, behind all of them, or between one that is below the
value and one that is not. -/
theorem firstNotBelow_cases (c : Curve ℝ) (y : ℝ) :
    let i := c.firstNotBelow y 0 c.size
    i = 0 ∨ i ≠ 0 ∧ c.size ≤ i ∨
      i ≠ 0 ∧ i < c.size ∧ c.sample (i - 1) < y ∧ y ≤ c.sample i := by
  intro i
  obtain ⟨hbelow, hnot⟩ := firstNotBelow_bounds c y (Nat.zero_le c.size)
    (fun h => absurd h (Nat.lt_irrefl 0)) (fun h => absurd h (Nat.lt_irrefl c.size))
  by_cases hfirst : i = 0
  · exact .inl hfirst
  · rcases Nat.lt_or_ge i c.size with hi | hend
    · exact .inr (.inr
        ⟨hfirst, hi, hbelow (Nat.pos_of_ne_zero hfirst), not_lt.mp (hnot hi)⟩)
    · exact .inr (.inl ⟨hfirst, hend⟩)

/-- How far a value has come on the way from a sample below it to one that is not. -/
theorem fraction_bounds {below above y : ℝ} (hlow : below < y) (hhigh : y ≤ above) :
    0 < (y - below) / (above - below) ∧ (y - below) / (above - below) ≤ 1 := by
  have hrise : 0 < above - below := by linarith
  refine ⟨div_pos (by linarith) hrise, ?_⟩
  rw [div_le_one hrise]
  linarith

/-- On a curve of two samples or more, the inversion reads only samples that are there, and
never divides by zero. -/
theorem invert?_eq (hsize : 2 ≤ c.size) {read : Nat → Option ℝ}
    (hread : ∀ i < c.size, read i = some (c.sample i)) (v : ℝ) :
    invert? c.size read v = some (c.invert v) := by
  have hlast : c.size - 1 < c.size := by omega
  have hsteps : ((c.size - 1 : ℕ) : ℝ) ≠ 0 := ne_of_gt (cast_size_sub_one_pos hsize)
  have hcases := firstNotBelow_cases c (c.withinSamples v)
  rw [invert_def hsize, invert?, if_neg (by omega)]
  simp only [hread 0 (by omega), hread _ hlast, ← withinSamples_eq,
    firstNotBelow?_eq hread _ le_rfl, Option.bind_eq_bind, Option.bind_some]
  generalize c.firstNotBelow (c.withinSamples v) 0 c.size = i at hcases ⊢
  rcases hcases with hfirst | ⟨hfirst, hend⟩ | ⟨hfirst, hi, hbelow, habove⟩
  · simp [hfirst]
  · simp [hfirst, hend]
  · have hstep : c.sample i - c.sample (i - 1) ≠ 0 := ne_of_gt (by linarith)
    simp only [hfirst, not_le.mpr hi, if_false, hread _ hi, hread (i - 1) (by omega),
      Option.bind_some, quotient?, hstep, hsteps]

/-- The inverse of a curve has its values between 0 and 1, whatever the samples. -/
theorem invert_mem (hsize : 2 ≤ c.size) (v : ℝ) : c.invert v ∈ Set.Icc 0 1 := by
  have hcases := firstNotBelow_cases c (c.withinSamples v)
  rw [invert_def hsize]
  simp only
  generalize c.firstNotBelow (c.withinSamples v) 0 c.size = i at hcases ⊢
  rcases hcases with hfirst | ⟨hfirst, hend⟩ | ⟨hfirst, hi, hbelow, habove⟩
  · simp [hfirst]
  · simp [hfirst, hend]
  · obtain ⟨hfraction, hfraction'⟩ := fraction_bounds hbelow habove
    have hplace : ((i - 1 : ℕ) : ℝ) + 1 ≤ ((c.size - 1 : ℕ) : ℝ) := by
      exact_mod_cast (by omega : i - 1 + 1 ≤ c.size - 1)
    rw [if_neg hfirst, if_neg (not_le.mpr hi)]
    constructor
    · positivity
    · rw [div_le_one (cast_size_sub_one_pos hsize)]
      linarith

/-! ## Curves that never fall -/

/-- A line between two samples stays between them. -/
theorem linear_mem (hc : c.NonDecreasing) {k : Nat} {f v : ℝ} (hk : k + 1 < c.size) (hf : 0 ≤ f)
    (hf' : f ≤ 1) (h : c.position v = k + f) :
    c.sample k ≤ c.linear v ∧ c.linear v ≤ c.sample (k + 1) := by
  have hrise : 0 ≤ c.sample (k + 1) - c.sample k := by
    have := hc k hk
    linarith
  have hlow := mul_nonneg hrise hf
  have hhigh := mul_le_of_le_one_right hrise hf'
  rw [linear_eq hk hf hf' h]
  constructor <;> linarith

theorem linear_mem_samples (hsize : 2 ≤ c.size) (hc : c.NonDecreasing) (v : ℝ) :
    c.linear v ∈ Set.Icc (c.sample 0) (c.sample (c.size - 1)) := by
  obtain ⟨k, f, hk, hf, hf', hposition⟩ := exists_position hsize v
  obtain ⟨hlow, hhigh⟩ := linear_mem hc hk hf hf' hposition
  exact ⟨(hc.le (Nat.zero_le k) (by omega)).trans hlow, hhigh.trans (hc.le (by omega) (by omega))⟩

/-- The inverse of a value comes no later than an input where the value of the input reaches
that value. -/
theorem invert_le_iff (hsize : 2 ≤ c.size) (hc : c.NonDecreasing) {x y : ℝ} (hx : x ∈ Set.Icc 0 1)
    (hy : y ∈ Set.Icc (c.sample 0) (c.sample (c.size - 1))) :
    c.invert y ≤ x ↔ y ≤ c.linear x := by
  obtain ⟨m, f, hm, hf, hf', hposition⟩ := exists_position hsize x
  obtain ⟨hlow, hhigh⟩ := linear_mem hc hm hf hf' hposition
  rcases exists_line hsize hy.1 hy.2 with hfirst | ⟨k, hk, hbelow, habove⟩
  · rw [hfirst, invert_of_le hsize hc le_rfl]
    exact iff_of_true hx.1 (linear_mem_samples hsize hc x).1
  · have hrise : 0 < c.sample (k + 1) - c.sample k := by linarith
    have hinput : x * ((c.size - 1 : ℕ) : ℝ) = m + f := by
      rw [← hposition, position_eq, max_eq_left hx.1, min_eq_left hx.2]
    obtain ⟨hfraction, hfraction'⟩ := fraction_bounds hbelow habove
    rw [invert_eq hsize hc hk hbelow habove, div_le_iff₀ (cast_size_sub_one_pos hsize), hinput]
    -- the input lies on a line before that of the value, on the same one, or on a later one
    rcases lt_trichotomy m k with hmk | rfl | hkm
    · have hcast : (m : ℝ) + 1 ≤ k := by exact_mod_cast hmk
      have hsample := hc.le (Nat.succ_le_of_lt hmk) (by omega)
      exact iff_of_false (by linarith) (by linarith)
    · rw [linear_eq hm hf hf' hposition, add_le_add_iff_left, div_le_iff₀ hrise, mul_comm f]
      constructor <;> intro h <;> linarith
    · have hcast : (k : ℝ) + 1 ≤ m := by exact_mod_cast hkm
      have hsample := hc.le (Nat.succ_le_of_lt hkm) (by omega)
      exact iff_of_true (by linarith) (by linarith)

/-- Inverting and evaluating are the two sides of a Galois connection between the values of the
curve and its inputs. -/
theorem galoisConnection (hsize : 2 ≤ c.size) (hc : c.NonDecreasing) :
    GaloisConnection
      (fun y : Set.Icc (c.sample 0) (c.sample (c.size - 1)) =>
        (⟨c.invert y, invert_mem hsize y⟩ : Set.Icc (0 : ℝ) 1))
      (fun x => ⟨c.linear x, linear_mem_samples hsize hc x⟩) :=
  fun y x => invert_le_iff hsize hc x.2 y.2

theorem position_limited (c : Curve ℝ) (v : ℝ) :
    c.position (min (max v 0) 1) = c.position v := by
  have hlow : 0 ≤ min (max v 0) 1 := le_min (le_max_right v 0) zero_le_one
  rw [position_eq, position_eq, max_eq_left hlow, min_eq_left (min_le_right _ _)]

/-- An input beyond the ends has the value of the nearer end. -/
theorem linear_limited (c : Curve ℝ) (v : ℝ) : c.linear (min (max v 0) 1) = c.linear v := by
  unfold linear
  rw [position_limited]

theorem limited_mem (v : ℝ) : min (max v 0) 1 ∈ Set.Icc (0 : ℝ) 1 :=
  ⟨le_min (le_max_right v 0) zero_le_one, min_le_right _ _⟩

theorem monotone_linear (hsize : 2 ≤ c.size) (hc : c.NonDecreasing) : Monotone c.linear := by
  intro u v huv
  rw [← linear_limited c u, ← linear_limited c v]
  have hlimited : min (max u 0) 1 ≤ min (max v 0) 1 := min_le_min_right 1 (max_le_max_right 0 huv)
  exact (galoisConnection hsize hc).monotone_u
    (a := ⟨_, limited_mem u⟩) (b := ⟨_, limited_mem v⟩) hlimited

theorem monotone_invert (hsize : 2 ≤ c.size) (hc : c.NonDecreasing) : Monotone c.invert := by
  intro u v huv
  have hwithin : c.withinSamples u ≤ c.withinSamples v := by
    rw [withinSamples_eq, withinSamples_eq]
    exact min_le_min_right _ (max_le_max_right _ huv)
  rw [← invert_withinSamples hsize hc u, ← invert_withinSamples hsize hc v]
  exact (galoisConnection hsize hc).monotone_l
    (a := ⟨_, withinSamples_mem hsize hc u⟩) (b := ⟨_, withinSamples_mem hsize hc v⟩) hwithin

/-- Of all inputs with one value, the inverse leads back to the least. -/
theorem isLeast_invert_linear (hsize : 2 ≤ c.size) (hc : c.NonDecreasing) (x : ℝ) :
    IsLeast {u | u ∈ Set.Icc 0 1 ∧ c.linear u = c.linear x} (c.invert (c.linear x)) := by
  have hvalue := linear_mem_samples hsize hc x
  refine ⟨⟨invert_mem hsize _, ?_⟩, ?_⟩
  · rw [linear_invert hsize hc, withinSamples_of_mem hvalue.1 hvalue.2]
  · rintro u ⟨hu, hsame⟩
    exact (invert_le_iff hsize hc hu hvalue).mpr (le_of_eq hsame.symm)

end Curve

/-! ## Tables -/

namespace Lut1D

variable {lut : Lut1D ℝ}

/-- The `i`-th sample of a channel, if the table has it. -/
def sample? (lut : Lut1D ℝ) (ch : Channel) (i : Nat) : Option ℝ :=
  (lut.samples[i]?).map fun p => p.get ch

theorem sample?_eq (ch : Channel) {i : Nat} (hi : i < lut.size) :
    lut.sample? ch i = some ((lut.curve ch).sample i) := by
  have hsample : (lut.curve ch).sample i =
      (lut.samples.getD i (Rgb.gray ((0 : ℕ) : ℝ))).get ch := rfl
  unfold sample?
  rw [hsample, Array.getD_eq_getD_getElem?, Array.getElem?_eq_getElem hi]
  rfl

theorem get_applyInverse (lut : Lut1D ℝ) (p : Rgb ℝ) (ch : Channel) :
    (lut.applyInverse p).get ch = (lut.curve ch).invert (p.get ch) := Rgb.get_ofFn _ ch

theorem get_apply_of_lines (hsize : 2 ≤ lut.size) (hlines : lut.interpolation.onCurve = .linear)
    (p : Rgb ℝ) (ch : Channel) : (lut.apply p).get ch = (lut.curve ch).linear (p.get ch) := by
  unfold apply
  rw [Rgb.get_ofFn, Curve.eval_eq hsize, hlines]
  rfl

/-- Inverting a table of two samples or more reads only samples that are there, never divides
by zero, and gives inputs between 0 and 1. In a channel of lines that never falls, the inverse
of a value is the least input that reaches it: the inverse and the table are the two sides of a
Galois connection, each undoes the other as far as that can be, and both are monotone. -/
theorem the_inverse_of_a_value_is_the_least_input_that_reaches_it (lut : Lut1D ℝ) (ch : Channel)
    (hsize : 2 ≤ lut.size) :
    let first := (lut.entry 0).get ch
    let last := (lut.entry (lut.size - 1)).get ch
    (∀ q : Rgb ℝ,
      Curve.invert? lut.size (lut.sample? ch) (q.get ch) = some ((lut.applyInverse q).get ch) ∧
        (lut.applyInverse q).get ch ∈ Set.Icc 0 1) ∧
    (lut.interpolation.onCurve = .linear → (lut.curve ch).NonDecreasing →
      (∀ p q : Rgb ℝ, p.get ch ∈ Set.Icc 0 1 → q.get ch ∈ Set.Icc first last →
        ((lut.applyInverse q).get ch ≤ p.get ch ↔ q.get ch ≤ (lut.apply p).get ch)) ∧
      (∀ q : Rgb ℝ,
        (lut.apply (lut.applyInverse q)).get ch = min (max (q.get ch) first) last) ∧
      (∀ p : Rgb ℝ, IsLeast
        {x | x ∈ Set.Icc 0 1 ∧ (lut.apply (Rgb.gray x)).get ch = (lut.apply p).get ch}
        ((lut.applyInverse (lut.apply p)).get ch)) ∧
      (∀ p q : Rgb ℝ, p.get ch ≤ q.get ch → (lut.apply p).get ch ≤ (lut.apply q).get ch) ∧
      ∀ p q : Rgb ℝ, p.get ch ≤ q.get ch →
        (lut.applyInverse p).get ch ≤ (lut.applyInverse q).get ch) := by
  intro first last
  refine ⟨?_, ?_⟩
  · intro q
    rw [get_applyInverse]
    exact ⟨Curve.invert?_eq hsize (fun i hi => sample?_eq ch hi) _, Curve.invert_mem hsize _⟩
  · intro hlines hc
    simp only [get_applyInverse, get_apply_of_lines hsize hlines, Rgb.get_gray]
    refine ⟨?_, ?_, ?_, ?_, ?_⟩
    · intro p q hp hq
      exact Curve.invert_le_iff hsize hc hp hq
    · intro q
      rw [Curve.linear_invert hsize hc, Curve.withinSamples_eq]
      rfl
    · intro p
      exact Curve.isLeast_invert_linear hsize hc _
    · intro p q hpq
      exact Curve.monotone_linear hsize hc hpq
    · intro p q hpq
      exact Curve.monotone_invert hsize hc hpq

/-- A table that rises to 1 and stays there. -/
noncomputable def plateau : Lut1D ℝ := { samples := #[Rgb.gray 0, Rgb.gray 1, Rgb.gray 1] }

theorem two_le_size_plateau : 2 ≤ plateau.size := by
  change 2 ≤ 3
  decide

theorem nonDecreasing_plateau (ch : Channel) : (plateau.curve ch).NonDecreasing := by
  intro i hi
  change i + 1 < 3 at hi
  obtain rfl | rfl : i = 0 ∨ i = 1 := by omega
  · cases ch <;> exact zero_le_one
  · cases ch <;> exact le_rfl

/-- White is reached where the plateau begins, in the middle of the inputs. -/
theorem white_is_reached_where_a_plateau_begins :
    2 ≤ plateau.size ∧ plateau.interpolation.onCurve = .linear ∧
      (plateau.curve .red).NonDecreasing ∧
      (plateau.applyInverse (Rgb.gray 1)).red = 1 / 2 ∧
      ∀ x ∈ Set.Icc (0 : ℝ) 1, 1 / 2 ≤ x ↔ 1 ≤ (plateau.apply (Rgb.gray x)).red := by
  have hsize := two_le_size_plateau
  have hrises := nonDecreasing_plateau .red
  have hmiddle : (plateau.applyInverse (Rgb.gray 1)).red = 1 / 2 := by
    have hline := Curve.invert_eq hsize hrises (k := 0) (v := 1) (by change 1 < 3; decide)
      zero_lt_one le_rfl
    have hzero : (plateau.curve .red).sample 0 = 0 := rfl
    have hone : (plateau.curve .red).sample (0 + 1) = 1 := rfl
    have hsteps : (((plateau.curve .red).size - 1 : ℕ) : ℝ) = 2 := by
      change ((2 : ℕ) : ℝ) = 2
      norm_num
    rw [hzero, hone, hsteps] at hline
    change (plateau.curve .red).invert 1 = _
    rw [hline]
    norm_num
  obtain ⟨_, hconnection⟩ :=
    the_inverse_of_a_value_is_the_least_input_that_reaches_it plateau .red hsize
  obtain ⟨hiff, _⟩ := hconnection rfl hrises
  refine ⟨hsize, rfl, hrises, hmiddle, ?_⟩
  intro x hx
  have hinverse : (plateau.applyInverse (Rgb.gray 1)).get .red = 1 / 2 := hmiddle
  have := hiff (Rgb.gray x) (Rgb.gray 1) hx ⟨zero_le_one, le_rfl⟩
  rwa [hinverse] at this

end Lut1D

end ColorPipeline
