import Mathlib.Algebra.Order.Ring.Abs
import Mathlib.Tactic.LinearCombination
import DoubleCurve.Proofs.RealScalar

/-!
# Arithmetic without rounding

An `ExactScalar` is a scalar of an ordered field that has square roots, with a sine
and a cosine whose squares add up to one. The operations are those of the field, and
nothing more is asked of the sine and the cosine. The real numbers are one.

Over exact scalars a vector has a direction, which is one long, unless it is
negligible (`Vec3.unit_eq_zero_or`), what is left of a vector without its part along
a direction is perpendicular to that (`Vec3.dot_reject`), and the vector that is
chosen to be perpendicular to a unit vector is a perpendicular unit vector
(`Vec3.perpendicular_spec`).
-/

namespace DoubleCurve

/-- Scalars of an ordered field with square roots, and functions that are a sine and a cosine as far
as their squares go. -/
class ExactScalar (α : Type) extends Scalar α, Field α, LinearOrder α, IsStrictOrderedRing α where
  beq_iff {a b : α} : (a == b) = true ↔ a = b
  ofScientific_eq (digits : Nat) (negative : Bool) (exponent : Nat) :
    (OfScientific.ofScientific digits negative exponent : α) =
      ((OfScientific.ofScientific digits negative exponent : ℚ) : α)
  abs_eq (a : α) : Scalar.abs a = |a|
  sqrt_nonneg (a : α) : 0 ≤ Scalar.sqrt a
  sqrt_mul_sqrt {a : α} : 0 ≤ a → Scalar.sqrt a * Scalar.sqrt a = a
  sin_mul_sin_add_cos_mul_cos (a : α) : Scalar.sin a * Scalar.sin a + Scalar.cos a * Scalar.cos a = 1
  unitSign_mul_unitSign (a : α) : Scalar.unitSign a * Scalar.unitSign a = 1
  unitSign_mul_self (a : α) : Scalar.unitSign a * a = |a|

noncomputable instance : ExactScalar ℝ where
  __ := (inferInstance : Field ℝ)
  __ := (inferInstance : LinearOrder ℝ)
  __ := (inferInstance : IsStrictOrderedRing ℝ)
  __ := (inferInstance : Scalar ℝ)
  beq_iff := beq_iff_eq
  ofScientific_eq _ _ _ := (Rat.cast_ofScientific ..).symm
  abs_eq _ := rfl
  sqrt_nonneg := Real.sqrt_nonneg
  sqrt_mul_sqrt := Real.mul_self_sqrt
  sin_mul_sin_add_cos_mul_cos a := by
    rw [← pow_two, ← pow_two]
    exact Real.sin_sq_add_cos_sq a
  unitSign_mul_unitSign a := by
    show (if a < 0 then (-1 : ℝ) else 1) * (if a < 0 then (-1 : ℝ) else 1) = 1
    split <;> norm_num
  unitSign_mul_self a := by
    show (if a < 0 then (-1 : ℝ) else 1) * a = |a|
    split
    case isTrue h => rw [abs_of_neg h, neg_one_mul]
    case isFalse h => rw [abs_of_nonneg (not_lt.1 h), one_mul]

namespace Vec3

variable {α : Type} [ExactScalar α] {u v w : Vec3 α}

instance : LawfulBEq (Vec3 α) where
  eq_of_beq h := by
    obtain ⟨hx, hy, hz⟩ := beq_iff.1 h
    exact Vec3.ext (ExactScalar.beq_iff.1 hx) (ExactScalar.beq_iff.1 hy) (ExactScalar.beq_iff.1 hz)
  rfl := beq_iff.2 ⟨ExactScalar.beq_iff.2 rfl, ExactScalar.beq_iff.2 rfl, ExactScalar.beq_iff.2 rfl⟩

/-! ## Coordinates -/

theorem add_x (v w : Vec3 α) : (v + w).x = v.x + w.x := rfl
theorem add_y (v w : Vec3 α) : (v + w).y = v.y + w.y := rfl
theorem add_z (v w : Vec3 α) : (v + w).z = v.z + w.z := rfl
theorem sub_x (v w : Vec3 α) : (v - w).x = v.x - w.x := rfl
theorem sub_y (v w : Vec3 α) : (v - w).y = v.y - w.y := rfl
theorem sub_z (v w : Vec3 α) : (v - w).z = v.z - w.z := rfl

theorem scale_one (v : Vec3 α) : v.scale 1 = v := by
  ext <;> exact mul_one _

theorem add_scale_zero (v w : Vec3 α) : v + w.scale 0 = v := by
  ext <;> simp only [add_x, add_y, add_z, scale, mul_zero, add_zero]

/-! ## Products -/

theorem lengthSq_eq (v : Vec3 α) : v.lengthSq = v.x * v.x + v.y * v.y + v.z * v.z := rfl

theorem lengthSq_zero : (zero : Vec3 α).lengthSq = 0 := by
  simp [lengthSq_eq, zero]

theorem lengthSq_scale (v : Vec3 α) (s : α) : (v.scale s).lengthSq = v.lengthSq * (s * s) := by
  simp only [lengthSq_eq, scale]
  ring

theorem lengthSq_nonneg (v : Vec3 α) : 0 ≤ v.lengthSq :=
  add_nonneg (add_nonneg (mul_self_nonneg _) (mul_self_nonneg _)) (mul_self_nonneg _)

theorem dot_comm (v w : Vec3 α) : v.dot w = w.dot v := by
  simp only [dot]
  ring

theorem add_dot (u v w : Vec3 α) : (u + v).dot w = u.dot w + v.dot w := by
  simp only [dot, add_x, add_y, add_z]
  ring

theorem scale_dot (v w : Vec3 α) (s : α) : (v.scale s).dot w = v.dot w * s := by
  simp only [dot, scale]
  ring

/-- The square of the vector product is what the square of the inner product leaves of the product
of the squares. -/
theorem lengthSq_cross (v w : Vec3 α) :
    (v.cross w).lengthSq = v.lengthSq * w.lengthSq - v.dot w * v.dot w := by
  simp only [lengthSq, dot, cross]
  ring

theorem dot_cross_self (v w : Vec3 α) : w.dot (v.cross w) = 0 := by
  simp only [dot, cross]
  ring

/-- A unit vector turned twice about an axis across it. -/
theorem cross_cross_self (hv : v.lengthSq = 1) (h : v.dot w = 0) : v.cross (w.cross v) = w := by
  simp only [lengthSq, dot] at hv h
  ext
  · simp only [cross]
    linear_combination w.x * hv - v.x * h
  · simp only [cross]
    linear_combination w.y * hv - v.y * h
  · simp only [cross]
    linear_combination w.z * hv - v.z * h

/-! ## Directions -/

theorem negligible_pos : (0 : α) < negligible := by
  rw [negligible, ExactScalar.ofScientific_eq]
  norm_num

theorem negligible_lt_one : (negligible : α) < 1 := by
  rw [negligible, ExactScalar.ofScientific_eq]
  norm_num

theorem length_nonneg (v : Vec3 α) : 0 ≤ v.length := ExactScalar.sqrt_nonneg _

theorem length_mul_length (v : Vec3 α) : v.length * v.length = v.lengthSq :=
  ExactScalar.sqrt_mul_sqrt (lengthSq_nonneg v)

theorem length_eq_one_iff : v.length = 1 ↔ v.lengthSq = 1 := by
  rw [← length_mul_length, mul_self_eq_one_iff]
  exact ⟨.inl, fun h => h.resolve_right fun hneg => by linarith [length_nonneg v]⟩

theorem length_zero : (zero : Vec3 α).length = 0 :=
  mul_self_eq_zero.1 ((length_mul_length zero).trans lengthSq_zero)

theorem length_axisX : (axisX : Vec3 α).length = 1 :=
  length_eq_one_iff.2 (by simp [lengthSq_eq, axisX])

theorem length_axisY : (axisY : Vec3 α).length = 1 :=
  length_eq_one_iff.2 (by simp [lengthSq_eq, axisY])

theorem length_axisZ : (axisZ : Vec3 α).length = 1 :=
  length_eq_one_iff.2 (by simp [lengthSq_eq, axisZ])

theorem lengthSq_shrink (v : Vec3 α) (s : α) : (v.shrink s).lengthSq = v.lengthSq / (s * s) := by
  simp only [lengthSq, dot, shrink]
  ring

theorem unit_of_lt (h : negligible < v.length) : v.unit = v.shrink v.length := by
  rw [unit, unitAndLength, if_pos h]

theorem unit_of_le (h : v.length ≤ negligible) : v.unit = zero := by
  rw [unit, unitAndLength, if_neg (not_lt.2 h)]

theorem unit_zero : (zero : Vec3 α).unit = zero :=
  unit_of_le (length_zero.trans_le negligible_pos.le)

theorem lengthSq_unit (h : negligible < v.length) : v.unit.lengthSq = 1 := by
  have hne : v.length ≠ 0 := (negligible_pos.trans h).ne'
  rw [unit_of_lt h, lengthSq_shrink, length_mul_length]
  exact div_self (by rw [← length_mul_length]; exact mul_ne_zero hne hne)

theorem ne_zero_of_lengthSq_eq_one (h : v.lengthSq = 1) : v ≠ zero := by
  rintro rfl
  exact zero_ne_one (lengthSq_zero.symm.trans h)

/-- A vector has a direction or none. -/
theorem unit_eq_zero_or (v : Vec3 α) : v.unit = zero ∨ v.unit.length = 1 := by
  rcases le_or_gt v.length negligible with h | h
  · exact .inl (unit_of_le h)
  · exact .inr (length_eq_one_iff.2 (lengthSq_unit h))

theorem unit_of_length_eq_one (h : v.length = 1) : v.unit = v := by
  rw [unit_of_lt (h ▸ negligible_lt_one), h]
  ext <;> simp only [shrink, div_one]

theorem dot_unit (h : v.dot w = 0) : v.unit.dot w = 0 := by
  rcases le_or_gt v.length negligible with hv | hv
  · rw [unit_of_le hv]
    simp only [dot, zero, zero_mul, add_zero]
  · rw [unit_of_lt hv]
    simp only [dot, shrink] at h ⊢
    linear_combination h / v.length

theorem dot_reject (h : 0 < w.lengthSq) (v : Vec3 α) : (v.reject w).dot w = 0 := by
  rw [reject, if_pos h]
  have hw : v.dot w / w.lengthSq * w.lengthSq = v.dot w := div_mul_cancel₀ _ h.ne'
  generalize v.dot w / w.lengthSq = s at hw ⊢
  simp only [lengthSq, dot, sub_x, sub_y, sub_z, scale] at hw ⊢
  linear_combination -hw

theorem reject_of_lengthSq_eq_one (hw : w.lengthSq = 1) (v : Vec3 α) :
    v.reject w = v - w.scale (v.dot w) := by
  rw [reject, if_pos (one_pos.trans_eq hw.symm), hw, div_one]

theorem lengthSq_reject (hw : w.lengthSq = 1) (v : Vec3 α) :
    (v.reject w).lengthSq = v.lengthSq - v.dot w * v.dot w := by
  rw [reject_of_lengthSq_eq_one hw]
  simp only [lengthSq, dot, sub_x, sub_y, sub_z, scale] at hw ⊢
  linear_combination (v.x * w.x + v.y * w.y + v.z * w.z) ^ 2 * hw

/-- Nothing is taken from a unit vector along one that is perpendicular to it. -/
theorem length_reject_of_dot_eq_zero (hv : v.length = 1) (hw : w.length = 1) (h : v.dot w = 0) :
    (v.reject w).length = 1 := by
  rw [length_eq_one_iff] at hv hw ⊢
  rw [lengthSq_reject hw, hv, h, mul_zero, sub_zero]

/-! ## Perpendicular vectors -/

/-- A scalar is not its sign reversed. -/
theorem unitSign_add_ne_zero (a : α) : Scalar.unitSign a + a ≠ 0 := by
  intro hzero
  have habs : 0 ≤ Scalar.unitSign a * a := ExactScalar.unitSign_mul_self a ▸ abs_nonneg a
  have hsign := ExactScalar.unitSign_mul_unitSign a
  have : Scalar.unitSign a * (Scalar.unitSign a + a) = 0 := by rw [hzero, mul_zero]
  linarith

theorem perpendicular_spec (h : v.lengthSq = 1) :
    v.perpendicular.lengthSq = 1 ∧ v.perpendicular.dot v = 0 := by
  have hsign := ExactScalar.unitSign_mul_unitSign v.z
  have ha : -1 / (Scalar.unitSign v.z + v.z) * (Scalar.unitSign v.z + v.z) = -1 :=
    div_mul_cancel₀ _ (unitSign_add_ne_zero v.z)
  simp only [perpendicular, lengthSq, dot] at h ⊢
  generalize -1 / (Scalar.unitSign v.z + v.z) = a at ha ⊢
  generalize Scalar.unitSign v.z = s at ha hsign ⊢
  constructor
  · linear_combination v.y ^ 2 * a ^ 2 * h + (1 - v.y ^ 2 * a ^ 2) * hsign +
      v.y ^ 2 * (a * (s - v.z) + 1) * ha
  · linear_combination v.y * a * h - v.y * a * hsign + v.y * (s - v.z) * ha

end Vec3

end DoubleCurve
