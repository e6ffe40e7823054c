import DoubleCurve.Proofs.ExactScalar
import DoubleCurve.Proofs.Framing.Tangents

/-!
# Frames across the tangents

A frame is across a direction if its axes are perpendicular unit vectors whose
product is that direction (`Frame.Across`). Twisting keeps a frame across its
direction (`Frame.Across.twisted`). A carriage is orthonormal if it carries a unit
vector across a unit tangent; the frame it carries is then across the tangent.

An orthonormal carriage stays so over every vertex
(`Framing.Carriage.Orthonormal.advance`), however the carried axis was turned: a
running tangent is a unit vector, where there is none the tangent before is kept,
and where nothing is left of the axis across the tangent another one is chosen. So
the frames of every curve are across its tangents, both as they are carried and
after the holonomy has been spread (`Curve.across_tangentAt`).
-/

namespace DoubleCurve

variable {α : Type} [ExactScalar α] {t : Vec3 α}

/-- The axes of the frame are perpendicular unit vectors, and their product is the direction `t`. -/
structure Frame.Across (f : Frame α) (t : Vec3 α) : Prop where
  length_x : f.x.length = 1
  length_y : f.y.length = 1
  dot_eq : f.x.dot f.y = 0
  tangent_eq : f.tangent = t

/-- Twisting turns the axes in their plane. -/
theorem Frame.Across.twisted {f : Frame α} (h : f.Across t) (angle : α) :
    (f.twisted angle).Across t := by
  obtain ⟨hx, hy, hxy, rfl⟩ := h
  have hcircle := ExactScalar.sin_mul_sin_add_cos_mul_cos angle
  rw [Vec3.length_eq_one_iff, Vec3.lengthSq_eq] at hx hy
  rw [Vec3.dot] at hxy
  rw [Frame.twisted]
  generalize Scalar.sin angle = s at hcircle ⊢
  generalize Scalar.cos angle = c at hcircle ⊢
  refine ⟨?_, ?_, ?_, ?_⟩
  · rw [Vec3.length_eq_one_iff]
    simp only [Vec3.lengthSq_eq, Vec3.add_x, Vec3.add_y, Vec3.add_z, Vec3.scale]
    linear_combination c ^ 2 * hx + s ^ 2 * hy + 2 * s * c * hxy + hcircle
  · rw [Vec3.length_eq_one_iff]
    simp only [Vec3.lengthSq_eq, Vec3.sub_x, Vec3.sub_y, Vec3.sub_z, Vec3.scale]
    linear_combination s ^ 2 * hx + c ^ 2 * hy - 2 * s * c * hxy + hcircle
  · simp only [Vec3.dot, Vec3.add_x, Vec3.add_y, Vec3.add_z, Vec3.sub_x, Vec3.sub_y, Vec3.sub_z,
      Vec3.scale]
    linear_combination (c ^ 2 - s ^ 2) * hxy - s * c * hx + s * c * hy
  · have hcross : (f.x.scale c + f.y.scale s).cross (f.y.scale c - f.x.scale s) =
        (f.x.cross f.y).scale (s * s + c * c) := by
      ext <;> simp only [Vec3.cross, Vec3.add_x, Vec3.add_y, Vec3.add_z, Vec3.sub_x, Vec3.sub_y,
        Vec3.sub_z, Vec3.scale] <;> ring
    rw [Frame.tangent, hcross, hcircle, Vec3.scale_one, Frame.tangent]

namespace Framing

variable {k : Carriage α} {before after tangent : Vec3 α}

theorem length_runningTangent (h : runningTangent? before after = some tangent) :
    tangent.length = 1 := by
  simp only [runningTangent?, Option.ite_none_left_eq_some, Option.some.injEq] at h
  obtain ⟨hne, rfl⟩ := h
  exact (Vec3.unit_eq_zero_or _).resolve_left fun hzero => hne (beq_iff_eq.2 hzero)

/-- Where the chords do not cancel the running tangent is along their sum. -/
theorem runningTangent?_of_le (h : cancelled ≤ (before + after).lengthSq) :
    runningTangent? before after = some (before + after).unit := by
  have hsmall : (Vec3.negligible : α) * Vec3.negligible < cancelled := by
    rw [Vec3.negligible, cancelled, ExactScalar.ofScientific_eq, ExactScalar.ofScientific_eq]
    norm_num
  have hlong : Vec3.negligible < (before + after).length :=
    lt_of_mul_self_lt_mul_self₀ (Vec3.length_nonneg _)
      (hsmall.trans_le (h.trans_eq (Vec3.length_mul_length _).symm))
  have hunit := Vec3.ne_zero_of_lengthSq_eq_one (Vec3.lengthSq_unit hlong)
  simp only [runningTangent?, if_neg h.not_gt, beq_eq_false_iff_ne.2 hunit, Bool.false_eq_true,
    if_false]

namespace Carriage

/-- The carriage carries a unit vector that is perpendicular to a unit tangent. -/
structure Orthonormal (k : Carriage α) : Prop where
  length_x : k.x.length = 1
  length_tangent : k.tangent.length = 1
  dot_eq : k.x.dot k.tangent = 0

theorem orthonormal_start (chord : Vec3 α) : (start chord).Orthonormal where
  length_x := Vec3.length_axisX
  length_tangent := Vec3.length_axisZ
  dot_eq := by simp [start, Vec3.dot, Vec3.axisX, Vec3.axisZ]

theorem Orthonormal.frame (h : k.Orthonormal) : k.frame.Across k.tangent := by
  obtain ⟨hx, htangent, hdot⟩ := h
  have hcross : (k.tangent.cross k.x).length = 1 := by
    rw [Vec3.length_eq_one_iff] at hx htangent ⊢
    rw [Vec3.lengthSq_cross, hx, htangent, Vec3.dot_comm, hdot, mul_zero, sub_zero, one_mul]
  have hframe : k.frame = ⟨k.x, k.tangent.cross k.x⟩ := by
    rw [Carriage.frame, Vec3.unit_of_length_eq_one hcross]
  rw [hframe]
  exact ⟨hx, hcross, Vec3.dot_cross_self _ _,
    Vec3.cross_cross_self (Vec3.length_eq_one_iff.1 hx) hdot⟩

/-- An axis across a unit tangent is kept if it is one long, and another one is chosen if nothing is
left of it. -/
theorem axis_perpendicular {x : Vec3 α} (ht : t.length = 1) (hx : x = .zero ∨ x.length = 1)
    (hdot : x.dot t = 0) :
    (if x == Vec3.zero then t.perpendicular else x).length = 1 ∧
      (if x == Vec3.zero then t.perpendicular else x).dot t = 0 := by
  rw [Vec3.length_eq_one_iff] at ht
  obtain ⟨hlength, hperpendicular⟩ := Vec3.perpendicular_spec ht
  split
  case isTrue => exact ⟨Vec3.length_eq_one_iff.2 hlength, hperpendicular⟩
  case isFalse hne => exact ⟨hx.resolve_left fun hzero => hne (beq_iff_eq.2 hzero), hdot⟩

/-- A carriage that is orthonormal before a vertex is so after it. -/
theorem Orthonormal.advance (h : k.Orthonormal) (chord : Vec3 α) : (k.advance chord).Orthonormal := by
  have htangent : (k.advance chord).tangent.length = 1 := by
    rw [Carriage.advance]
    cases hrunning : runningTangent? k.chord chord with
    | none => exact h.length_tangent
    | some tangent => exact length_runningTangent hrunning
  have hsquare : 0 < (k.advance chord).tangent.lengthSq :=
    one_pos.trans_eq (Vec3.length_eq_one_iff.1 htangent).symm
  obtain ⟨hlength, hdot⟩ := axis_perpendicular htangent (Vec3.unit_eq_zero_or _)
    (Vec3.dot_unit (Vec3.dot_reject hsquare _))
  exact ⟨hlength, htangent, hdot⟩

end Carriage

end Framing

namespace Curve

open Framing

variable {c : Curve α} {i : Nat} {f : Frame α}

theorem across_of_carriedFrames (h : c.carriedFrames[i]? = some f) : f.Across (c.tangentAt i) := by
  obtain ⟨hi, -⟩ := List.getElem?_eq_some_iff.1 h
  rw [length_carriedFrames] at hi
  obtain ⟨k, hk, htangent, -⟩ := exists_carriage hi
  have hortho : k.Orthonormal := forall_carriages (Carriage.orthonormal_start c.arrival)
    (fun _ chord h => h.advance chord) k (List.mem_of_getElem? hk)
  rw [carriedFrames, List.getElem?_map, hk, Option.map_some, Option.some_inj] at h
  rw [← h, ← htangent]
  exact hortho.frame

end Curve

end DoubleCurve
