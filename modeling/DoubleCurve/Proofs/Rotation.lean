import Mathlib.LinearAlgebra.UnitaryGroup
import DoubleCurve.Proofs.ExactScalar
import DoubleCurve.Rotation

/-!
# Rotations over exact scalars

Two perpendicular unit vectors and their product give every vector its coordinates
(`Vec3.along`, `Vec3.Orthonormal.along_dot`), and a turn in the plane of the two mixes
the first two coordinates and keeps the third (`Mat3.apply_inPlane_along`). So it is a
rotation: it keeps inner products and vector products (`Mat3.IsRotation`), and its
entries are an orthogonal matrix of determinant one (`Mat3.IsRotation.entries_mem`).

Two vectors are `Mat3.Resolved` if they have directions, and these are equal, opposite
or so far apart that the part of the second across the first has a direction. The
rotation between them is then a turn by their angle in a plane that contains both,
however that plane was found (`Mat3.Resolved.exists_inPlane`). What it does follows
from that alone, and `Mat3.geodesic_turns` says all of it.
-/

namespace DoubleCurve

variable {α : Type} [ExactScalar α]

namespace Vec3

variable {a e v : Vec3 α} {p q r p' q' r' : α}

/-- The product of two triple products is the determinant of the inner products. -/
theorem cross_dot_mul_cross_dot (a e v w : Vec3 α) :
    (a.cross e).dot v * (a.cross e).dot w =
      a.lengthSq * (e.lengthSq * v.dot w - e.dot w * e.dot v) -
        a.dot e * (a.dot e * v.dot w - e.dot w * a.dot v) +
          a.dot w * (a.dot e * e.dot v - e.lengthSq * a.dot v) := by
  simp only [lengthSq, dot, cross]
  ring

/-- The vector with these coordinates along `a`, `e` and their product. -/
def along (a e : Vec3 α) (p q r : α) : Vec3 α := a.scale p + e.scale q + (a.cross e).scale r

theorem along_zero_zero (a e : Vec3 α) (p : α) : a.along e p 0 0 = a.scale p := by
  rw [along, add_scale_zero, add_scale_zero]

/-- Two perpendicular unit vectors. -/
structure Orthonormal (a e : Vec3 α) : Prop where
  lengthSq_left : a.lengthSq = 1
  lengthSq_right : e.lengthSq = 1
  dot_eq : a.dot e = 0

namespace Orthonormal

variable (h : a.Orthonormal e)

include h

theorem lengthSq_cross : (a.cross e).lengthSq = 1 := by
  rw [Vec3.lengthSq_cross, h.lengthSq_left, h.lengthSq_right, h.dot_eq, mul_zero, sub_zero, mul_one]

theorem dot_eq_add (v w : Vec3 α) : v.dot w =
    a.dot v * a.dot w + e.dot v * e.dot w + (a.cross e).dot v * (a.cross e).dot w := by
  rw [cross_dot_mul_cross_dot, h.lengthSq_left, h.lengthSq_right, h.dot_eq]
  ring

/-- Every vector is given by its coordinates. -/
theorem along_dot (v : Vec3 α) : a.along e (a.dot v) (e.dot v) ((a.cross e).dot v) = v := by
  have hx := h.dot_eq_add v axisX
  have hy := h.dot_eq_add v axisY
  have hz := h.dot_eq_add v axisZ
  simp only [dot, axisX, axisY, axisZ, mul_one, mul_zero, add_zero, zero_add] at hx hy hz
  ext
  all_goals simp only [along, add_x, add_y, add_z, scale, dot]
  · linear_combination -hx
  · linear_combination -hy
  · linear_combination -hz

theorem dot_along : a.dot (a.along e p q r) = p ∧ e.dot (a.along e p q r) = q := by
  have hp : a.dot (a.along e p q r) = a.lengthSq * p + a.dot e * q := by
    simp only [along, lengthSq, dot, add_x, add_y, add_z, scale, cross]
    ring
  have hq : e.dot (a.along e p q r) = a.dot e * p + e.lengthSq * q := by
    simp only [along, lengthSq, dot, add_x, add_y, add_z, scale, cross]
    ring
  rw [hp, hq, h.lengthSq_left, h.lengthSq_right, h.dot_eq]
  constructor <;> ring

theorem along_dot_along :
    (a.along e p q r).dot (a.along e p' q' r') = p * p' + q * q' + r * r' :=
  calc (a.along e p q r).dot (a.along e p' q' r')
    _ = a.lengthSq * (p * p') + a.dot e * (p * q' + q * p') + e.lengthSq * (q * q') +
          (a.cross e).lengthSq * (r * r') := by
        simp only [along, lengthSq, dot, add_x, add_y, add_z, scale, cross]
        ring
    _ = p * p' + q * q' + r * r' := by
        rw [h.lengthSq_cross, h.lengthSq_left, h.lengthSq_right, h.dot_eq]
        ring

theorem along_cross_along : (a.along e p q r).cross (a.along e p' q' r') =
    a.along e (q * r' - r * q') (r * p' - p * r') (p * q' - q * p') := by
  obtain ⟨ha, he, hae⟩ := h
  simp only [lengthSq, dot] at ha he hae
  ext
  all_goals simp only [along, add_x, add_y, add_z, scale, cross]
  · linear_combination (p * r' - r * p') * (a.x * hae - e.x * ha) +
      (q * r' - r * q') * (a.x * he - e.x * hae)
  · linear_combination (p * r' - r * p') * (a.y * hae - e.y * ha) +
      (q * r' - r * q') * (a.y * he - e.y * hae)
  · linear_combination (p * r' - r * p') * (a.z * hae - e.z * ha) +
      (q * r' - r * q') * (a.z * he - e.z * hae)

end Orthonormal

/-- The direction of what is left of a vector without its part along a unit vector is across that,
in a plane with the vector. -/
theorem orthonormal_unit_reject (ha : a.lengthSq = 1) (h : negligible < (v.reject a).length) :
    a.Orthonormal (v.reject a).unit ∧ (a.cross (v.reject a).unit).dot v = 0 := by
  have hacross : (v.reject a).unit.dot a = 0 := dot_unit (dot_reject (one_pos.trans_eq ha.symm) v)
  have hplane : (v.reject a).unit.dot (v.cross a) = 0 := by
    refine dot_unit ?_
    rw [reject_of_lengthSq_eq_one ha]
    simp only [dot, cross, sub_x, sub_y, sub_z, scale]
    ring
  refine ⟨⟨ha, lengthSq_unit h, (dot_comm _ _).trans hacross⟩, ?_⟩
  rw [← hplane]
  simp only [dot, cross]
  ring

/-- Nothing is left of a multiple of a unit vector without its part along that. -/
theorem unit_reject_scale (ha : a.lengthSq = 1) (s : α) : ((a.scale s).reject a).unit = zero := by
  have hzero : (a.scale s).reject a = zero := by
    rw [reject_of_lengthSq_eq_one ha, scale_dot, ← lengthSq, ha, one_mul]
    ext <;> exact sub_self _
  rw [hzero, unit_zero]

end Vec3

namespace Mat3

variable {m n : Mat3 α} {a e v : Vec3 α} {c s p q r : α}

/-! ## Matrices -/

theorem add_col₀ (m n : Mat3 α) : (m + n).col₀ = m.col₀ + n.col₀ := rfl
theorem add_col₁ (m n : Mat3 α) : (m + n).col₁ = m.col₁ + n.col₁ := rfl
theorem add_col₂ (m n : Mat3 α) : (m + n).col₂ = m.col₂ + n.col₂ := rfl
theorem sub_col₀ (m n : Mat3 α) : (m - n).col₀ = m.col₀ - n.col₀ := rfl
theorem sub_col₁ (m n : Mat3 α) : (m - n).col₁ = m.col₁ - n.col₁ := rfl
theorem sub_col₂ (m n : Mat3 α) : (m - n).col₂ = m.col₂ - n.col₂ := rfl

theorem apply_axisX (m : Mat3 α) : m.apply .axisX = m.col₀ := by
  ext <;> simp [apply, Vec3.axisX, Vec3.scale, Vec3.add_x, Vec3.add_y, Vec3.add_z]

theorem apply_axisY (m : Mat3 α) : m.apply .axisY = m.col₁ := by
  ext <;> simp [apply, Vec3.axisY, Vec3.scale, Vec3.add_x, Vec3.add_y, Vec3.add_z]

theorem apply_axisZ (m : Mat3 α) : m.apply .axisZ = m.col₂ := by
  ext <;> simp [apply, Vec3.axisZ, Vec3.scale, Vec3.add_x, Vec3.add_y, Vec3.add_z]

theorem apply_identity (v : Vec3 α) : identity.apply v = v := by
  ext <;> simp [apply, identity, Vec3.axisX, Vec3.axisY, Vec3.axisZ, Vec3.scale, Vec3.add_x,
    Vec3.add_y, Vec3.add_z]

theorem apply_add (r : Mat3 α) (v w : Vec3 α) : r.apply (v + w) = r.apply v + r.apply w := by
  ext
  all_goals
    simp only [apply, Vec3.add_x, Vec3.add_y, Vec3.add_z, Vec3.scale]
    ring

theorem apply_sub (r : Mat3 α) (v w : Vec3 α) : r.apply (v - w) = r.apply v - r.apply w := by
  ext
  all_goals
    simp only [apply, Vec3.add_x, Vec3.add_y, Vec3.add_z, Vec3.sub_x, Vec3.sub_y, Vec3.sub_z,
      Vec3.scale]
    ring

theorem apply_scale (r : Mat3 α) (v : Vec3 α) (s : α) :
    r.apply (v.scale s) = (r.apply v).scale s := by
  ext
  all_goals
    simp only [apply, Vec3.add_x, Vec3.add_y, Vec3.add_z, Vec3.scale]
    ring

theorem ext_apply (h : ∀ v, m.apply v = n.apply v) : m = n := by
  have hx := h .axisX
  have hy := h .axisY
  have hz := h .axisZ
  rw [apply_axisX, apply_axisX] at hx
  rw [apply_axisY, apply_axisY] at hy
  rw [apply_axisZ, apply_axisZ] at hz
  obtain ⟨col₀, col₁, col₂⟩ := m
  obtain rfl : col₀ = n.col₀ := hx
  obtain rfl : col₁ = n.col₁ := hy
  obtain rfl : col₂ = n.col₂ := hz
  rfl

/-- The entries of the matrix, row by row. -/
def entries (m : Mat3 α) : Matrix (Fin 3) (Fin 3) α :=
  !![m.col₀.x, m.col₁.x, m.col₂.x;
    m.col₀.y, m.col₁.y, m.col₂.y;
    m.col₀.z, m.col₁.z, m.col₂.z]

theorem transpose_mul_entries (m : Mat3 α) : m.entries.transpose * m.entries =
    !![m.col₀.dot m.col₀, m.col₀.dot m.col₁, m.col₀.dot m.col₂;
      m.col₁.dot m.col₀, m.col₁.dot m.col₁, m.col₁.dot m.col₂;
      m.col₂.dot m.col₀, m.col₂.dot m.col₁, m.col₂.dot m.col₂] := by
  ext i j
  fin_cases i <;> fin_cases j <;> simp [entries, Matrix.mul_apply, Fin.sum_univ_three, Vec3.dot]

theorem det_entries (m : Mat3 α) : m.entries.det = m.col₂.dot (m.col₀.cross m.col₁) := by
  simp only [entries, Matrix.det_fin_three, Vec3.dot, Vec3.cross, Matrix.of_apply, Matrix.cons_val]
  ring

/-! ## Rotations -/

/-- Whether the matrix keeps inner products and vector products. -/
structure IsRotation (m : Mat3 α) : Prop where
  dot_apply (v w : Vec3 α) : (m.apply v).dot (m.apply w) = v.dot w
  cross_apply (v w : Vec3 α) : (m.apply v).cross (m.apply w) = m.apply (v.cross w)

/-- The columns of a rotation are perpendicular unit vectors, and the last is the product of the
others. -/
theorem IsRotation.columns (h : m.IsRotation) :
    m.col₀.Orthonormal m.col₁ ∧ m.col₂ = m.col₀.cross m.col₁ := by
  have hxx := h.dot_apply .axisX .axisX
  have hyy := h.dot_apply .axisY .axisY
  have hxy := h.dot_apply .axisX .axisY
  have hcross := h.cross_apply .axisX .axisY
  have hz : (Vec3.axisX : Vec3 α).cross .axisY = .axisZ := by
    ext <;> simp [Vec3.cross, Vec3.axisX, Vec3.axisY, Vec3.axisZ]
  rw [hz, apply_axisX, apply_axisY, apply_axisZ] at hcross
  rw [apply_axisX] at hxx hxy
  rw [apply_axisY] at hyy hxy
  refine ⟨⟨hxx.trans ?_, hyy.trans ?_, hxy.trans ?_⟩, hcross.symm⟩
  all_goals simp [Vec3.dot, Vec3.axisX, Vec3.axisY]

/-- The matrix of a rotation is orthogonal and has the determinant one. -/
theorem IsRotation.entries_mem (h : m.IsRotation) :
    m.entries ∈ Matrix.specialOrthogonalGroup (Fin 3) α := by
  obtain ⟨hortho, hlast⟩ := h.columns
  have h₂₂ : m.col₂.lengthSq = 1 := hlast ▸ hortho.lengthSq_cross
  obtain ⟨h₀₀, h₁₁, h₀₁⟩ := hortho
  have h₁₂ : m.col₁.dot m.col₂ = 0 := by rw [hlast, Vec3.dot_cross_self]
  have h₀₂ : m.col₀.dot m.col₂ = 0 := by
    rw [hlast]
    simp only [Vec3.dot, Vec3.cross]
    ring
  rw [Vec3.lengthSq] at h₀₀ h₁₁ h₂₂
  rw [Matrix.mem_specialOrthogonalGroup_iff, Matrix.mem_orthogonalGroup_iff']
  constructor
  · show m.entries.transpose * m.entries = 1
    rw [transpose_mul_entries, Matrix.one_fin_three, Vec3.dot_comm m.col₁ m.col₀,
      Vec3.dot_comm m.col₂ m.col₀, Vec3.dot_comm m.col₂ m.col₁, h₀₀, h₁₁, h₂₂, h₀₁, h₀₂, h₁₂]
  · rw [det_entries, ← hlast, h₂₂]

/-! ## Turns in a plane -/

theorem apply_inPlane (a e v : Vec3 α) (c s : α) : (inPlane a e c s).apply v =
    v + a.scale (a.dot v * (c - 1) - e.dot v * s) + e.scale (e.dot v * (c - 1) + a.dot v * s) := by
  ext
  all_goals
    simp only [apply, inPlane, identity, outer, scale, add_col₀, add_col₁, add_col₂, sub_col₀,
      sub_col₁, sub_col₂, Vec3.add_x, Vec3.add_y, Vec3.add_z, Vec3.sub_x, Vec3.sub_y, Vec3.sub_z,
      Vec3.scale, Vec3.dot, Vec3.axisX, Vec3.axisY, Vec3.axisZ]
    ring

/-- A turn mixes the coordinates in its plane. -/
theorem apply_inPlane_along (h : a.Orthonormal e) :
    (inPlane a e c s).apply (a.along e p q r) = a.along e (p * c - q * s) (p * s + q * c) r := by
  rw [apply_inPlane, h.dot_along.1, h.dot_along.2]
  ext
  all_goals
    simp only [Vec3.along, Vec3.add_x, Vec3.add_y, Vec3.add_z, Vec3.scale]
    ring

/-- A turn in the plane of two perpendicular unit vectors is a rotation. -/
theorem isRotation_inPlane (h : a.Orthonormal e) (hcircle : c * c + s * s = 1) :
    (inPlane a e c s).IsRotation where
  dot_apply v w := by
    rw [← h.along_dot v, ← h.along_dot w, apply_inPlane_along h, apply_inPlane_along h,
      h.along_dot_along, h.along_dot_along]
    linear_combination (a.dot v * a.dot w + e.dot v * e.dot w) * hcircle
  cross_apply v w := by
    rw [← h.along_dot v, ← h.along_dot w, apply_inPlane_along h, apply_inPlane_along h,
      h.along_cross_along, h.along_cross_along, apply_inPlane_along h]
    congr 1
    · ring
    · ring
    · linear_combination (a.dot v * e.dot w - e.dot v * a.dot w) * hcircle

theorem inPlane_one_zero (a e : Vec3 α) : inPlane a e 1 0 = identity := by
  refine ext_apply fun v => ?_
  rw [apply_inPlane, apply_identity, sub_self, mul_zero, mul_zero, sub_zero, add_zero,
    Vec3.add_scale_zero, Vec3.add_scale_zero]

/-- A half turn leaves what is along its axis and reverses what is across it. -/
theorem apply_inPlane_neg_one (h : a.Orthonormal e) (v : Vec3 α) :
    (inPlane a e (-1) 0).apply v = (a.cross e).scale (2 * (a.cross e).dot v) - v :=
  calc (inPlane a e (-1) 0).apply v
    _ = (inPlane a e (-1) 0).apply (a.along e (a.dot v) (e.dot v) ((a.cross e).dot v)) := by
        rw [h.along_dot]
    _ = (a.cross e).scale (2 * (a.cross e).dot v) -
          a.along e (a.dot v) (e.dot v) ((a.cross e).dot v) := by
        rw [apply_inPlane_along h]
        ext
        all_goals
          simp only [Vec3.along, Vec3.add_x, Vec3.add_y, Vec3.add_z, Vec3.sub_x, Vec3.sub_y,
            Vec3.sub_z, Vec3.scale]
          ring
    _ = (a.cross e).scale (2 * (a.cross e).dot v) - v := by rw [h.along_dot]

/-- Two half turns about the same axis change nothing. -/
theorem apply_inPlane_neg_one_twice (h : a.Orthonormal e) (v : Vec3 α) :
    (inPlane a e (-1) 0).apply ((inPlane a e (-1) 0).apply v) = v :=
  calc (inPlane a e (-1) 0).apply ((inPlane a e (-1) 0).apply v)
    _ = a.along e (a.dot v) (e.dot v) ((a.cross e).dot v) := by
        nth_rewrite 1 [← h.along_dot v]
        rw [apply_inPlane_along h, apply_inPlane_along h]
        congr 1 <;> ring
    _ = v := h.along_dot v

/-! ## The vector across that a direction is turned over with -/

theorem steepness_pos : (0 : α) < steepness := by
  rw [steepness, ExactScalar.ofScientific_eq]
  norm_num

theorem negligible_lt_steepness : (Vec3.negligible : α) < steepness := by
  rw [Vec3.negligible, steepness, ExactScalar.ofScientific_eq, ExactScalar.ofScientific_eq]
  norm_num

theorem steepness_mul_self_le : (steepness * steepness : α) ≤ 1 - steepness * steepness := by
  rw [steepness, ExactScalar.ofScientific_eq]
  norm_num

/-- The axis in a plane with which a direction is turned onto its opposite. -/
def seed (a : Vec3 α) : Vec3 α := if Scalar.abs a.x < steepness then .axisX else .axisY

theorem lengthSq_seed (a : Vec3 α) : (seed a).lengthSq = 1 := by
  rw [seed]
  split
  · exact Vec3.length_eq_one_iff.1 Vec3.length_axisX
  · exact Vec3.length_eq_one_iff.1 Vec3.length_axisY

/-- A unit vector is well away from its seed. -/
theorem seed_dot_mul_self_le (ha : a.lengthSq = 1) :
    (seed a).dot a * (seed a).dot a ≤ 1 - steepness * steepness := by
  rw [Vec3.lengthSq_eq] at ha
  rw [seed, ExactScalar.abs_eq]
  split
  case isTrue hx =>
    have hdot : Vec3.axisX.dot a = a.x := by simp [Vec3.dot, Vec3.axisX]
    have hsquare := mul_self_le_mul_self (abs_nonneg a.x) hx.le
    rw [abs_mul_abs_self] at hsquare
    rw [hdot]
    exact hsquare.trans steepness_mul_self_le
  case isFalse hx =>
    have hdot : Vec3.axisY.dot a = a.y := by simp [Vec3.dot, Vec3.axisY]
    have hsquare := mul_self_le_mul_self steepness_pos.le (not_lt.1 hx)
    rw [abs_mul_abs_self] at hsquare
    rw [hdot]
    linarith [mul_self_nonneg a.z]

/-- The vector sideways of a unit vector is a unit vector across it, in a plane with the seed. -/
theorem orthonormal_sideways (ha : a.lengthSq = 1) :
    a.Orthonormal (sideways a) ∧ (a.cross (sideways a)).dot (seed a) = 0 := by
  have hlength : Vec3.negligible < ((seed a).reject a).length := by
    refine negligible_lt_steepness.trans_le
      (nonneg_le_nonneg_of_sq_le_sq (Vec3.length_nonneg _) ?_)
    rw [Vec3.length_mul_length, Vec3.lengthSq_reject ha, lengthSq_seed]
    linarith [seed_dot_mul_self_le ha]
  exact Vec3.orthonormal_unit_reject ha hlength

/-! ## The rotation from one direction to another -/

section Geodesic

variable {p q : Vec3 α}

theorem geodesic_eq (ha : p.unit.lengthSq = 1) (hb : q.unit.lengthSq = 1) : geodesic p q =
    if (q.unit.reject p.unit).unit == Vec3.zero then
      if 0 ≤ p.unit.dot q.unit then identity
      else inPlane p.unit (sideways p.unit) (p.unit.dot q.unit) ((sideways p.unit).dot q.unit)
    else inPlane p.unit (q.unit.reject p.unit).unit (p.unit.dot q.unit)
      ((q.unit.reject p.unit).unit.dot q.unit) := by
  have hne : (p.unit == Vec3.zero || q.unit == Vec3.zero) = false := by
    rw [Bool.or_eq_false_iff, beq_eq_false_iff_ne, beq_eq_false_iff_ne]
    exact ⟨Vec3.ne_zero_of_lengthSq_eq_one ha, Vec3.ne_zero_of_lengthSq_eq_one hb⟩
  rw [geodesic, hne, if_neg Bool.false_ne_true]

theorem geodesic_of_eq (ha : p.unit.lengthSq = 1) (h : q.unit = p.unit) :
    geodesic p q = identity := by
  have hzero : (q.unit.reject p.unit).unit = .zero := by
    rw [h]
    simpa only [Vec3.scale_one] using Vec3.unit_reject_scale ha 1
  have hdot : 0 ≤ p.unit.dot q.unit := by
    rw [h]
    exact Vec3.lengthSq_nonneg _
  rw [geodesic_eq ha (h ▸ ha), if_pos (beq_iff_eq.2 hzero), if_pos hdot]

theorem geodesic_of_opposite (ha : p.unit.lengthSq = 1) (h : q.unit = p.unit.scale (-1)) :
    geodesic p q = inPlane p.unit (sideways p.unit) (-1) 0 := by
  have hb : q.unit.lengthSq = 1 := by
    rw [h, Vec3.lengthSq_scale, ha]
    norm_num
  have hzero : (q.unit.reject p.unit).unit = .zero := h ▸ Vec3.unit_reject_scale ha (-1)
  have hcos : p.unit.dot q.unit = -1 := by
    rw [h, Vec3.dot_comm, Vec3.scale_dot, ← Vec3.lengthSq, ha, one_mul]
  have hsin : (sideways p.unit).dot q.unit = 0 := by
    rw [h, Vec3.dot_comm, Vec3.scale_dot, (orthonormal_sideways ha).1.dot_eq, zero_mul]
  rw [geodesic_eq ha hb, if_pos (beq_iff_eq.2 hzero), hcos, hsin, if_neg (by norm_num)]

theorem geodesic_of_apart (ha : p.unit.lengthSq = 1) (hb : q.unit.lengthSq = 1)
    (h : Vec3.negligible < (q.unit.reject p.unit).length) : geodesic p q =
      inPlane p.unit (q.unit.reject p.unit).unit (p.unit.dot q.unit)
        ((q.unit.reject p.unit).unit.dot q.unit) := by
  have hne : (q.unit.reject p.unit).unit ≠ .zero :=
    Vec3.ne_zero_of_lengthSq_eq_one (Vec3.lengthSq_unit h)
  rw [geodesic_eq ha hb, if_neg (mt beq_iff_eq.1 hne)]

/-- Whether two vectors have directions that are equal, opposite, or so far apart that the part of
the second across the first has a direction. -/
structure Resolved (p q : Vec3 α) : Prop where
  left : Vec3.negligible < p.length
  right : Vec3.negligible < q.length
  cases : q.unit = p.unit ∨ q.unit = p.unit.scale (-1) ∨
    Vec3.negligible < (q.unit.reject p.unit).length

namespace Resolved

variable (h : Resolved p q)

include h

/-- The rotation is a turn by the angle of the directions in a plane that contains them. -/
theorem exists_inPlane : ∃ e c s, p.unit.Orthonormal e ∧ c * c + s * s = 1 ∧
    p.unit.along e c s 0 = q.unit ∧ geodesic p q = inPlane p.unit e c s := by
  have ha := Vec3.lengthSq_unit h.left
  have hb := Vec3.lengthSq_unit h.right
  obtain ⟨hside, -⟩ := orthonormal_sideways ha
  rcases h.cases with heq | hopposite | hapart
  · refine ⟨sideways p.unit, 1, 0, hside, by norm_num, ?_, ?_⟩
    · rw [Vec3.along_zero_zero, Vec3.scale_one, heq]
    · rw [geodesic_of_eq ha heq, inPlane_one_zero]
  · refine ⟨sideways p.unit, -1, 0, hside, by norm_num, ?_, geodesic_of_opposite ha hopposite⟩
    rw [Vec3.along_zero_zero, hopposite]
  · obtain ⟨hortho, hplane⟩ := Vec3.orthonormal_unit_reject ha hapart
    refine ⟨_, _, _, hortho, ?_, ?_, geodesic_of_apart ha hb hapart⟩
    · have hsum := hortho.dot_eq_add q.unit q.unit
      rw [hplane, mul_zero, add_zero, ← Vec3.lengthSq, hb] at hsum
      exact hsum.symm
    · rw [← hplane]
      exact hortho.along_dot _

theorem isRotation : (geodesic p q).IsRotation := by
  obtain ⟨e, c, s, hortho, hcircle, -, hgeodesic⟩ := h.exists_inPlane
  rw [hgeodesic]
  exact isRotation_inPlane hortho hcircle

theorem apply_unit : (geodesic p q).apply p.unit = q.unit := by
  obtain ⟨e, c, s, hortho, -, hq, hgeodesic⟩ := h.exists_inPlane
  calc (geodesic p q).apply p.unit
    _ = (inPlane p.unit e c s).apply (p.unit.along e 1 0 0) := by
        rw [hgeodesic, Vec3.along_zero_zero, Vec3.scale_one]
    _ = p.unit.along e c s 0 := by
        rw [apply_inPlane_along hortho]
        congr 1 <;> ring
    _ = q.unit := hq

/-- What is across both directions stays as it is, unless the directions are opposite. -/
theorem apply_of_dot_eq_zero (hne : q.unit ≠ p.unit.scale (-1)) (hp : v.dot p.unit = 0)
    (hq : v.dot q.unit = 0) : (geodesic p q).apply v = v := by
  obtain ⟨e, c, s, -, hcircle, hb, hgeodesic⟩ := h.exists_inPlane
  have hes : e.dot v = 0 ∨ s = 0 := by
    rw [← hb, Vec3.dot_comm, Vec3.along, Vec3.add_dot, Vec3.add_dot, Vec3.scale_dot, Vec3.scale_dot,
      Vec3.scale_dot, Vec3.dot_comm, hp, zero_mul, zero_add, mul_zero, add_zero] at hq
    exact mul_eq_zero.1 hq
  have hturn : (geodesic p q).apply v = v + e.scale (e.dot v * (c - 1)) := by
    rw [hgeodesic, apply_inPlane, Vec3.dot_comm, hp, mul_eq_zero.2 hes, zero_mul, zero_mul, sub_zero,
      add_zero, Vec3.add_scale_zero]
  have hstays : e.dot v * (c - 1) = 0 := by
    rcases hes with hev | rfl
    · rw [hev, zero_mul]
    · -- A turn without a sine is none or a half turn, and that is for opposite directions.
      rw [mul_zero, add_zero] at hcircle
      rcases mul_self_eq_one_iff.1 hcircle with rfl | rfl
      · rw [sub_self, mul_zero]
      · rw [Vec3.along_zero_zero] at hb
        exact absurd hb.symm hne
  rw [hturn, hstays, Vec3.add_scale_zero]

end Resolved

end Geodesic

/-- The rotation from one direction to another is orthogonal with determinant one, takes the first
direction to the second and, unless they are opposite, leaves what is across both. For equal
directions it changes nothing. For opposite ones it is the half turn about the axis across the
direction and its seed. -/
theorem geodesic_turns {p q : Vec3 α} (hp : Vec3.negligible < p.length)
    (hq : Vec3.negligible < q.length)
    (h : q.unit = p.unit ∨ q.unit = p.unit.scale (-1) ∨
      Vec3.negligible < (q.unit.reject p.unit).length) :
    (geodesic p q).entries ∈ Matrix.specialOrthogonalGroup (Fin 3) α ∧
      (geodesic p q).apply p.unit = q.unit ∧
      (q.unit ≠ p.unit.scale (-1) → ∀ v : Vec3 α, v.dot p.unit = 0 → v.dot q.unit = 0 →
        (geodesic p q).apply v = v) ∧
      (q.unit = p.unit → geodesic p q = identity) ∧
      (q.unit = p.unit.scale (-1) →
        (∀ v, (geodesic p q).apply ((geodesic p q).apply v) = v) ∧
        ∃ n : Vec3 α, n.length = 1 ∧ n.dot p.unit = 0 ∧ n.dot (seed p.unit) = 0 ∧
          ∀ v, (geodesic p q).apply v = n.scale (2 * n.dot v) - v) := by
  have hresolved : Resolved p q := ⟨hp, hq, h⟩
  have ha := Vec3.lengthSq_unit hp
  refine ⟨hresolved.isRotation.entries_mem, hresolved.apply_unit,
    fun hne v => hresolved.apply_of_dot_eq_zero hne, geodesic_of_eq ha, fun hopposite => ?_⟩
  obtain ⟨hortho, hseed⟩ := orthonormal_sideways ha
  rw [geodesic_of_opposite ha hopposite]
  refine ⟨apply_inPlane_neg_one_twice hortho, _, Vec3.length_eq_one_iff.2 hortho.lengthSq_cross, ?_,
    hseed, apply_inPlane_neg_one hortho⟩
  simp only [Vec3.dot, Vec3.cross]
  ring

/-- The vertical axis and the first one are turned over by half turns, and the first axis is turned
onto the second, in real numbers. -/
theorem geodesic_turns_axes :
    (∀ v : Vec3 ℝ, (geodesic .axisZ (Vec3.axisZ.scale (-1))).apply
        ((geodesic .axisZ (Vec3.axisZ.scale (-1))).apply v) = v) ∧
      (∀ v : Vec3 ℝ, (geodesic .axisX (Vec3.axisX.scale (-1))).apply
        ((geodesic .axisX (Vec3.axisX.scale (-1))).apply v) = v) ∧
      (geodesic (.axisX : Vec3 ℝ) .axisY).apply .axisX = .axisY := by
  have hlong {v : Vec3 ℝ} (h : v.length = 1) : Vec3.negligible < v.length :=
    h ▸ Vec3.negligible_lt_one
  have hback {v : Vec3 ℝ} (h : v.length = 1) : (v.scale (-1)).length = 1 := by
    rw [Vec3.length_eq_one_iff] at h ⊢
    rw [Vec3.lengthSq_scale, h]
    norm_num
  have hopposite {v : Vec3 ℝ} (h : v.length = 1) : (v.scale (-1)).unit = v.unit.scale (-1) := by
    rw [Vec3.unit_of_length_eq_one h, Vec3.unit_of_length_eq_one (hback h)]
  have hx := Vec3.length_axisX (α := ℝ)
  have hy := Vec3.length_axisY (α := ℝ)
  have hz := Vec3.length_axisZ (α := ℝ)
  have hreject : (Vec3.axisY.reject .axisX : Vec3 ℝ).length = 1 :=
    Vec3.length_reject_of_dot_eq_zero hy hx (by simp [Vec3.dot, Vec3.axisX, Vec3.axisY])
  have hquarter := geodesic_turns (hlong hx) (hlong hy) (.inr (.inr (by
    rw [Vec3.unit_of_length_eq_one hx, Vec3.unit_of_length_eq_one hy]
    exact hlong hreject)))
  rw [Vec3.unit_of_length_eq_one hx, Vec3.unit_of_length_eq_one hy] at hquarter
  have hz' := geodesic_turns (hlong hz) (hlong (hback hz)) (.inr (.inl (hopposite hz)))
  have hx' := geodesic_turns (hlong hx) (hlong (hback hx)) (.inr (.inl (hopposite hx)))
  exact ⟨(hz'.2.2.2.2 (hopposite hz)).1, (hx'.2.2.2.2 (hopposite hx)).1, hquarter.2.1⟩

end Mat3

end DoubleCurve
