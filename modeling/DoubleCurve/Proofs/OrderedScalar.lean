import DoubleCurve.Proofs.ExactScalar
import Mathlib.Data.Prod.Lex

/-!
# The order of scalars

Scalars are compared with one another, and what is not a number compares with nothing, itself
included: a scalar is a number if it is at most itself (`Scalar.IsNumber`). An `OrderedScalar` has
its numbers in a linear order, up to scalars that are equal without being the same.

Double precision numbers are such scalars. They are compared by sign, exponent and mantissa, which is
the order of their ranks (`Unpacked.compare_eq`), and only `NaN` is not a number
(`isNumber_float_iff`). Exact scalars are all numbers.
-/

namespace DoubleCurve

/-- Whether a scalar is a number: one that is not is not at most itself. -/
def Scalar.IsNumber {α : Type} [Scalar α] (a : α) : Prop := a ≤ a

instance {α : Type} [Scalar α] (a : α) : Decidable (Scalar.IsNumber a) :=
  inferInstanceAs (Decidable (a ≤ a))

/-- Scalars whose numbers are in a linear order. -/
class OrderedScalar (α : Type) [Scalar α] : Prop where
  isNumber_of_le {a b : α} : a ≤ b → Scalar.IsNumber a ∧ Scalar.IsNumber b
  le_trans {a b c : α} : a ≤ b → b ≤ c → a ≤ c
  le_total {a b : α} : Scalar.IsNumber a → Scalar.IsNumber b → a ≤ b ∨ b ≤ a
  lt_iff_le_not_ge {a b : α} : a < b ↔ a ≤ b ∧ ¬ b ≤ a

instance {α : Type} [ExactScalar α] : OrderedScalar α where
  isNumber_of_le _ := ⟨le_refl _, le_refl _⟩
  le_trans := le_trans
  le_total _ _ := le_total _ _
  lt_iff_le_not_ge := lt_iff_le_not_ge

/-! ## Double precision -/

namespace Unpacked

open Float.Model (UnpackedFloat)
open Float.Model.UnpackedFloat (Sign)

variable {u v : UnpackedFloat}

/-- The place of a number among all numbers. -/
def rank : UnpackedFloat → ℤ ×ₗ ℤ ×ₗ ℤ
  | .notANumber | .zero _ => toLex (0, toLex (0, 0))
  | .infinity s => toLex (s.apply 2, toLex (0, 0))
  | .finite s m e _ => toLex (s.apply 1, toLex (s.apply e, s.apply m))

theorem compare_natCast (m m' : Nat) : compare (m : ℤ) m' = compare m m' := by
  rw [Nat.compare_eq_ite_lt, Int.compare_eq_ite_lt]
  simp only [Int.ofNat_lt]

theorem compare_neg (a b : ℤ) : compare (-a) (-b) = (compare a b).swap := by
  rw [Int.compare_swap, Int.compare_eq_ite_lt, Int.compare_eq_ite_lt]
  simp only [Int.neg_lt_neg_iff]

/-- Numbers compare as their ranks do. -/
theorem compare_eq (hu : u.isNaN = false) (hv : v.isNaN = false) :
    u.compare v = some (compare (rank u) (rank v)) := by
  cases u with
  | notANumber => cases hu
  | infinity s =>
    cases v with
    | notANumber => cases hv
    | infinity s' => cases s <;> cases s' <;> rfl
    | zero s' => cases s <;> rfl
    | finite s' m' e' h' => cases s <;> cases s' <;> rfl
  | zero s =>
    cases v with
    | notANumber => cases hv
    | infinity s' => cases s' <;> rfl
    | zero s' => rfl
    | finite s' m' e' h' => cases s' <;> rfl
  | finite s m e h =>
    cases v with
    | notANumber => cases hv
    | infinity s' => cases s <;> cases s' <;> rfl
    | zero s' => cases s <;> rfl
    | finite s' m' e' h' =>
      cases s <;> cases s'
      case negative.positive => rfl
      case positive.negative => rfl
      case positive.positive =>
        show some ((compare e e').then (compare m m')) =
          some ((compare e e').then (compare (m : ℤ) m'))
        rw [compare_natCast]
      case negative.negative =>
        show some ((compare e e').then (compare m m')).swap =
          some ((compare (-e) (-e')).then (compare (-(m : ℤ)) (-m')))
        rw [compare_neg, compare_neg, compare_natCast, Ordering.swap_then]

theorem compare_of_isNaN (h : ¬(u.isNaN = false ∧ v.isNaN = false)) : u.compare v = none := by
  cases u with
  | notANumber => rfl
  | _ =>
    cases v with
    | notANumber => rfl
    | _ => exact absurd ⟨rfl, rfl⟩ h

theorem le_iff : u.le v = true ↔ (u.isNaN = false ∧ v.isNaN = false) ∧ rank u ≤ rank v := by
  rw [UnpackedFloat.le]
  by_cases h : u.isNaN = false ∧ v.isNaN = false
  · rw [compare_eq h.1 h.2, Option.any_some, ← compare_le_iff_le, Ordering.isLE_iff_ne_gt]
    exact (and_iff_right h).symm
  · rw [compare_of_isNaN h]
    exact iff_of_false Bool.false_ne_true fun hle => h hle.1

theorem lt_iff : u.lt v = true ↔ (u.isNaN = false ∧ v.isNaN = false) ∧ rank u < rank v := by
  rw [UnpackedFloat.lt, beq_iff_eq]
  by_cases h : u.isNaN = false ∧ v.isNaN = false
  · rw [compare_eq h.1 h.2, Option.some_inj, compare_lt_iff_lt]
    exact (and_iff_right h).symm
  · rw [compare_of_isNaN h]
    exact iff_of_false nofun fun hlt => h hlt.1

end Unpacked

section

variable {a b : Float}

theorem float_le_iff : a ≤ b ↔ (a.isNaN = false ∧ b.isNaN = false) ∧
    Unpacked.rank a.toModel.unpack ≤ Unpacked.rank b.toModel.unpack :=
  decide_eq_true_iff.trans Unpacked.le_iff

theorem float_lt_iff : a < b ↔ (a.isNaN = false ∧ b.isNaN = false) ∧
    Unpacked.rank a.toModel.unpack < Unpacked.rank b.toModel.unpack :=
  decide_eq_true_iff.trans Unpacked.lt_iff

theorem isNumber_float_iff : Scalar.IsNumber a ↔ a.isNaN = false :=
  float_le_iff.trans ⟨fun h => h.1.1, fun h => ⟨⟨h, h⟩, le_refl _⟩⟩

end

instance : OrderedScalar Float where
  isNumber_of_le h := ⟨isNumber_float_iff.2 (float_le_iff.1 h).1.1,
    isNumber_float_iff.2 (float_le_iff.1 h).1.2⟩
  le_trans hab hbc := by
    obtain ⟨⟨ha, -⟩, hab⟩ := float_le_iff.1 hab
    obtain ⟨⟨-, hc⟩, hbc⟩ := float_le_iff.1 hbc
    exact float_le_iff.2 ⟨⟨ha, hc⟩, hab.trans hbc⟩
  le_total ha hb := by
    rw [isNumber_float_iff] at ha hb
    exact (le_total _ _).imp (fun h => float_le_iff.2 ⟨⟨ha, hb⟩, h⟩)
      fun h => float_le_iff.2 ⟨⟨hb, ha⟩, h⟩
  lt_iff_le_not_ge := by
    refine ⟨fun h => ?_, fun ⟨hle, hge⟩ => ?_⟩
    · obtain ⟨hnum, hlt⟩ := float_lt_iff.1 h
      exact ⟨float_le_iff.2 ⟨hnum, hlt.le⟩, fun hge => (float_le_iff.1 hge).2.not_gt hlt⟩
    · obtain ⟨hnum, hle⟩ := float_le_iff.1 hle
      refine float_lt_iff.2 ⟨hnum, lt_of_not_ge fun hrank => ?_⟩
      exact hge (float_le_iff.2 ⟨hnum.symm, hrank⟩)

end DoubleCurve
