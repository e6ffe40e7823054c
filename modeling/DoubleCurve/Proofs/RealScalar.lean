import DoubleCurve.Proofs.LawfulScalar
import Mathlib.Analysis.SpecialFunctions.Complex.Arg

/-!
# Exact scalars

The real numbers are scalars that do not round, with exact roots, cosines and
sines. On them a rotation about the vertical axis is `Vec3.turned` by an angle:
rotations add up (`Vec3.turned_turned`), and a half turn can be moved from one of
two points to the other without changing whether they match
(`Vec3.near_turned_pi`).
-/

namespace DoubleCurve

-- This stands before the instance, so that the division is the one the library of real numbers knows.
/-- The angle of copy `r` of `order`. -/
noncomputable def Segments.angle (order r : Nat) : ℝ := 2 * Real.pi * r / order

/-- Real numbers, with nothing rounded. The integer part is cut off toward zero and kept within 32
bits, and there is no negative zero. -/
noncomputable instance : Scalar ℝ where
  toZero := inferInstance
  toOne := inferInstance
  toNeg := inferInstance
  toAdd := inferInstance
  toSub := inferInstance
  toMul := inferInstance
  toDiv := inferInstance
  toNatCast := inferInstance
  toOfScientific := inferInstance
  toBEq := instBEqOfDecidableEq
  toLT := inferInstance
  toLE := inferInstance
  decidableLT := inferInstance
  decidableLE := inferInstance
  abs x := |x|
  sqrt := Real.sqrt
  sin := Real.sin
  cos := Real.cos
  atan2 y x := Complex.arg ⟨x, y⟩
  turn := 2 * Real.pi
  unitSign x := if x < 0 then -1 else 1
  isFinite _ := true
  toInt32 x := .ofInt (max (-0x80000000) (min 0x7fffffff (if x < 0 then ⌈x⌉ else ⌊x⌋)))

instance : LawfulDigits ℝ where
  abs_sub_of_beq h := by rw [eq_of_beq h]
  abs_sub_comm := abs_sub_comm
  sub_mul_sub_comm a b := by ring
  beq_trans h h' := by rw [eq_of_beq h, eq_of_beq h', beq_self_eq_true]
  toInt32_mul_of_beq scale h := by rw [eq_of_beq h]

namespace Vec3

variable {p q : Vec3 ℝ} {tolerance : ℝ}

instance : LawfulBEq (Vec3 ℝ) where
  eq_of_beq h := by
    obtain ⟨hx, hy, hz⟩ := beq_iff.1 h
    exact Vec3.ext (eq_of_beq hx) (eq_of_beq hy) (eq_of_beq hz)
  rfl := beq_iff.2 ⟨beq_self_eq_true _, beq_self_eq_true _, beq_self_eq_true _⟩

theorem near_iff : p.near tolerance q = true ↔
    |p.x - q.x| < tolerance ∧ |p.y - q.y| < tolerance ∧ |p.z - q.z| < tolerance := by
  rw [near, Bool.and_eq_true, Bool.and_eq_true, decide_eq_true_iff, decide_eq_true_iff,
    decide_eq_true_iff, and_assoc]
  rfl

/-- The point `p` turned about the vertical axis by the angle `θ`. -/
noncomputable def turned (p : Vec3 ℝ) (θ : ℝ) : Vec3 ℝ := p.rotateZ (Real.cos θ) (Real.sin θ)

theorem turned_eq (p : Vec3 ℝ) (θ : ℝ) : p.turned θ =
    ⟨p.x * Real.cos θ - p.y * Real.sin θ, p.x * Real.sin θ + p.y * Real.cos θ, p.z⟩ := rfl

@[simp] theorem turned_zero (p : Vec3 ℝ) : p.turned 0 = p := by
  ext <;> simp [turned_eq]

theorem turned_turned (p : Vec3 ℝ) (θ φ : ℝ) : (p.turned θ).turned φ = p.turned (θ + φ) := by
  simp only [turned_eq, Real.cos_add, Real.sin_add]
  ext <;> ring

theorem turned_pi (p : Vec3 ℝ) : p.turned Real.pi = ⟨-p.x, -p.y, p.z⟩ := by
  simp [turned_eq]

theorem turned_add_pi (p : Vec3 ℝ) (θ : ℝ) :
    p.turned (θ + Real.pi) = (⟨-p.x, -p.y, p.z⟩ : Vec3 ℝ).turned θ := by
  rw [add_comm, ← turned_turned, turned_pi]

theorem near_self (h : 0 < tolerance) (p : Vec3 ℝ) : p.near tolerance p = true := by
  simpa [near_iff] using h

/-- Nothing matches within no tolerance. -/
theorem near_eq_false (h : tolerance ≤ 0) (p q : Vec3 ℝ) : p.near tolerance q = false := by
  rw [Bool.eq_false_iff, ne_eq, near_iff]
  exact fun hnear => absurd (hnear.1.trans_le h) (abs_nonneg _).not_gt

/-- Two points match after a half turn of the one exactly if they do after a half turn of the other. -/
theorem near_turned_pi (tolerance : ℝ) (p q : Vec3 ℝ) :
    p.near tolerance (q.turned Real.pi) = (p.turned Real.pi).near tolerance q := by
  have hneg (a b : ℝ) : |a - -b| = |-a - b| := by
    rw [← abs_neg, neg_sub, sub_eq_add_neg, add_comm]
    ring_nf
  rw [Bool.eq_iff_iff, near_iff, near_iff, turned_pi, turned_pi, hneg, hneg]

end Vec3

end DoubleCurve
