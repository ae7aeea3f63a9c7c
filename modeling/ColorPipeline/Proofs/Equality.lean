-- Equality of numbers. Machine numbers are equal by what they stand for, so only
-- NaN differs from itself, and two zeros are equal whatever their signs.
import ColorPipeline.Number.Stored
import Mathlib.Order.Basic

namespace ColorPipeline

/-- Numbers that are equal to themselves where they are finite, and whose equality goes both
ways and from one to the next. -/
class LawfulEquality (R : Type) [Scalar R] : Prop extends PartialEquivBEq R where
  beq_self {a : R} : Scalar.isFinite a → a == a

namespace LawfulEquality

variable {R : Type} [Scalar R] [LawfulEquality R]

/-- To equal numbers the same numbers are equal. -/
theorem beq_left_eq {a b : R} (h : a == b) : (fun v => a == v) = fun v => b == v := by
  funext v
  rw [Bool.eq_iff_iff]
  exact ⟨PartialEquivBEq.trans (PartialEquivBEq.symm h), PartialEquivBEq.trans h⟩

theorem beq_iff {a b : R} (hb : Scalar.isFinite b) :
    a == b ↔ (fun v => a == v) = fun v => b == v := by
  refine ⟨beq_left_eq, ?_⟩
  intro h
  have hv : (a == b) = (b == b) := congrFun h b
  rw [hv]
  exact beq_self hb

end LawfulEquality

/-! ## Machine numbers -/

section Machine

open Float.Model

/-- What two machine numbers have in common that are equal: nothing where one is NaN. -/
def equalBy : UnpackedFloat → Option (UnpackedFloat.Sign × Option (Nat × Int))
  | .notANumber => none
  | .infinity s => some (s, none)
  | .zero _ => some (.positive, some (0, 0))
  | .finite s m e _ => some (s, some (m, e))

/-- Equal numbers have one key, in which the zeros are one number and NaN has none. -/
theorem unpacked_beq_iff (a b : UnpackedFloat) :
    a.beq b ↔ ∃ key, equalBy a = some key ∧ equalBy b = some key := by
  unfold UnpackedFloat.beq UnpackedFloat.compare equalBy
  rcases a with (_ | _) | _ | (_ | _) | ⟨_ | _, m, e, hm⟩ <;>
    rcases b with (_ | _) | _ | (_ | _) | ⟨_ | _, n, f, hn⟩ <;>
    simp [compare, compareOfLessAndEq_eq_eq, Ordering.then_eq_eq, Ordering.swap_eq_eq] <;> omega

theorem float_beq_iff (a b : Float) :
    a == b ↔ ∃ key, equalBy a.toModel.unpack = some key ∧ equalBy b.toModel.unpack = some key :=
  unpacked_beq_iff a.toModel.unpack b.toModel.unpack

theorem exists_equalBy {a : UnpackedFloat} (h : a.isFinite) : ∃ key, equalBy a = some key := by
  cases a with
  | infinity s => cases h
  | notANumber => cases h
  | zero s => exact ⟨_, rfl⟩
  | finite s m e hm => exact ⟨_, rfl⟩

instance : LawfulEquality Float where
  symm h := by
    obtain ⟨key, ha, hb⟩ := (float_beq_iff _ _).mp h
    exact (float_beq_iff _ _).mpr ⟨key, hb, ha⟩
  trans hab hbc := by
    obtain ⟨key, ha, hb⟩ := (float_beq_iff _ _).mp hab
    obtain ⟨other, hb', hc⟩ := (float_beq_iff _ _).mp hbc
    obtain rfl : key = other := Option.some.inj (hb.symm.trans hb')
    exact (float_beq_iff _ _).mpr ⟨key, ha, hc⟩
  beq_self h := by
    obtain ⟨key, ha⟩ := exists_equalBy h
    exact (float_beq_iff _ _).mpr ⟨key, ha, ha⟩

end Machine

end ColorPipeline
