import Mathlib.Analysis.Convex.Basic
import Mathlib.Analysis.SpecialFunctions.Complex.Arg
import DoubleCurve.Proofs.Framing.Orthonormal
import DoubleCurve.Proofs.Rotation
import DoubleCurve.Proofs.Soup.Edges

/-!
# How the frames of a closed curve close up

The frame carried once around a closed curve comes back turned by the holonomy. Every
frame is then twisted by its share of it, and what is left for the closing chord is
the share of that chord.

The perimeter by which the angle is shared out is the length of the curve
(`Curve.perimeter_eq_length`), and the way along the points ends one closing chord
short of it (`Framing.getLast?_spread`, `Curve.perimeter_eq_add`). A rotation takes a
frame along with what it is across (`Frame.Across.carried`), and it does not matter
whether the frame is twisted before or after (`Frame.carried_twisted`). Frames across
the same direction differ by a twist, the angle between them
(`Frame.Across.twisted_turnTo`), and twists add up (`Frame.twisted_twisted`). So the last
frame, taken back to the first tangent, is twisted against the first frame by the share
of the closing chord (`Curve.framed_returns`).
-/

namespace DoubleCurve

/-! ## Lengths -/

section Lengths

variable {α : Type} [Scalar α] {points : List (Vec3 α)} {frames : List (Frame α)} {last : Frame α}

open Curve

namespace Framing

/-- The chords are the edges as vectors, and the one back to `finish` comes last. -/
theorem chords_eq (finish : Option (Vec3 α)) (points : List (Vec3 α)) : chords finish points =
    (consecutive points).map (fun e => e.2 - e.1) ++
      (finish.bind fun first => points.getLast?.map (first - ·)).toList := by
  induction points with
  | nil => cases finish <;> rfl
  | cons p points ih =>
    cases points with
    | nil => cases finish <;> rfl
    | cons q points =>
      rw [chords, ih, consecutive_cons_cons, List.map_cons, List.cons_append,
        List.getLast?_cons_cons]

/-- The way from vertex to vertex ends with the sum of the distances between them. -/
theorem getLast?_arcs (sum : α) (p q : Vec3 α) (points : List (Vec3 α)) :
    (arcs sum (p :: q :: points)).getLast? =
      some ((consecutive (p :: q :: points)).foldl (fun sum (p, q) => sum + p.distance q) sum) := by
  induction points generalizing sum p q with
  | nil => rfl
  | cons r points ih =>
    rw [arcs, List.getLast?_cons, ih, Option.getD_some, consecutive_cons_cons p, List.foldl_cons]

theorem getLast?_zipWith {β γ δ : Type} {f : β → γ → δ} {xs : List β} {ys : List γ} {x : β} {y : γ}
    (h : xs.length = ys.length) (hx : xs.getLast? = some x) (hy : ys.getLast? = some y) :
    (List.zipWith f xs ys).getLast? = some (f x y) := by
  rw [List.getLast?_eq_getElem?] at hx hy ⊢
  rw [← h] at hy
  rw [List.length_zipWith, ← h, Nat.min_self, List.getElem?_zipWith, hx, hy]

/-- The last frame is twisted by the share of the way along all points. -/
theorem getLast?_spread {angle perimeter : α} (hpoints : 1 < points.length)
    (h : frames.length = points.length) (hlast : frames.getLast? = some last) :
    (spread angle perimeter points frames).getLast? =
      some (last.twisted (angle * pathLength points / perimeter)) := by
  obtain _ | ⟨p, _ | ⟨q, points⟩⟩ := points
  · cases hpoints
  · exact absurd hpoints (Nat.lt_irrefl 1)
  obtain _ | ⟨first, _ | ⟨second, frames⟩⟩ := frames
  · cases h
  · cases h
  have hlength : (second :: frames).length = (arcs 0 (p :: q :: points)).length := by
    rw [length_arcs]
    exact Nat.succ_injective h
  rw [List.getLast?_cons_cons] at hlast
  rw [spread, List.getLast?_cons, getLast?_zipWith hlength hlast (getLast?_arcs 0 p q points),
    Option.getD_some, pathLength]

end Framing

namespace Curve

variable {c : Curve α}

/-- The perimeter is the length of the curve, also where sums are rounded. -/
theorem perimeter_eq_length [LawfulScalar α] (c : Curve α) : c.perimeter = c.length := by
  have hpath : (consecutive c.points).foldl (fun sum e => sum + (e.2 - e.1).length) 0 =
      pathLength c.points := by
    rw [pathLength]
    congr 1
    funext sum e
    exact congrArg (sum + ·) (Vec3.distance_comm e.2 e.1)
  rw [perimeter, chordVectors, Framing.chords_eq, List.foldl_append, List.foldl_map, hpath, length,
    returnPoint]
  cases c.closed with
  | false => rfl
  | true =>
    cases c.points with
    | nil => rfl
    | cons p points =>
      obtain ⟨last, hlast⟩ :=
        Option.isSome_iff_exists.1 (List.getLast?_isSome.2 (List.cons_ne_nil p points))
      rw [if_pos rfl, List.head?_cons, Option.bind_some, hlast]
      exact congrArg (_ + ·) (Vec3.distance_comm p last)

/-- The length of the chord from the last vertex to the first. -/
def closing (c : Curve α) : α := (c.vertex (c.size - 1)).distance (c.vertex 0)

/-- The perimeter is the way along the points and back to the first. -/
theorem perimeter_eq_add [LawfulScalar α] (hclosed : c.closed = true) (h : 0 < c.size) :
    c.perimeter = pathLength c.points + c.closing := by
  rw [perimeter_eq_length, length, hclosed, head?_points h, getLast?_points h, closing]

theorem framed_of_closed (hclosed : c.closed = true) (hperimeter : 0 < c.perimeter) : c.framed =
    ⟨c, Framing.spread c.holonomy c.perimeter c.points c.carriedFrames, c.holonomy⟩ := by
  rw [framed, if_pos (by rw [hclosed, Bool.true_and, decide_eq_true hperimeter])]

/-- The rotation that takes the last tangent back to the first. -/
def returning (c : Curve α) : Mat3 α := .geodesic (c.tangentAt (c.size - 1)) (c.tangentAt 0)

end Curve

end Lengths

/-! ## Frames that are taken along -/

section Exact

variable {α : Type} [ExactScalar α] {f g : Frame α} {t : Vec3 α} {r : Mat3 α}

namespace Frame

theorem carried_twisted (f : Frame α) (r : Mat3 α) (angle : α) :
    (f.twisted angle).carried r = (f.carried r).twisted angle := by
  simp only [carried, twisted, Mat3.apply_add, Mat3.apply_sub, Mat3.apply_scale]

namespace Across

theorem orthonormal (h : f.Across t) : f.x.Orthonormal f.y :=
  ⟨Vec3.length_eq_one_iff.1 h.length_x, Vec3.length_eq_one_iff.1 h.length_y, h.dot_eq⟩

theorem length_tangent (h : f.Across t) : t.length = 1 := by
  rw [Vec3.length_eq_one_iff, ← h.tangent_eq]
  exact h.orthonormal.lengthSq_cross

theorem carried (h : f.Across t) (hr : r.IsRotation) : (f.carried r).Across (r.apply t) where
  length_x := by
    rw [Vec3.length_eq_one_iff, Vec3.lengthSq, Frame.carried, hr.dot_apply]
    exact h.orthonormal.lengthSq_left
  length_y := by
    rw [Vec3.length_eq_one_iff, Vec3.lengthSq, Frame.carried, hr.dot_apply]
    exact h.orthonormal.lengthSq_right
  dot_eq := by
    rw [Frame.carried, hr.dot_apply, h.dot_eq]
  tangent_eq := by
    rw [tangent, Frame.carried, hr.cross_apply, ← h.tangent_eq, tangent]

theorem cross_x (h : f.Across t) : t.cross f.x = f.y :=
  calc t.cross f.x
    _ = f.x.cross (f.y.cross f.x) := by
        rw [← h.tangent_eq, tangent]
        ext
        all_goals
          simp only [Vec3.cross]
          ring
    _ = f.y := Vec3.cross_cross_self h.orthonormal.lengthSq_left h.dot_eq

/-- The first axis of a frame, given by its coordinates in another one across the same direction. -/
theorem along_dot_x (hf : f.Across t) (hg : g.Across t) :
    g.x.along g.y (g.x.dot f.x) (g.y.dot f.x) 0 = f.x := by
  have hzero : (g.x.cross g.y).dot f.x = 0 := by
    rw [← tangent, hg.tangent_eq, ← hf.tangent_eq, tangent]
    simp only [Vec3.dot, Vec3.cross]
    ring
  rw [← hzero, hg.orthonormal.along_dot]

end Across

end Frame

namespace Curve

variable {c : Curve α}

theorem pathLength_nonneg (points : List (Vec3 α)) : 0 ≤ pathLength points := by
  have hfold (es : List (Vec3 α × Vec3 α)) : ∀ sum : α, 0 ≤ sum →
      0 ≤ es.foldl (fun sum (p, q) => sum + p.distance q) sum := by
    induction es with
    | nil => exact fun _ h => h
    | cons e es ih => exact fun sum h => ih _ (add_nonneg h (Vec3.length_nonneg _))
  exact hfold _ 0 le_rfl

theorem one_lt_size (h : 0 < c.perimeter) : 1 < c.size := by
  obtain ⟨id, points, closed⟩ := c
  rcases points with _ | ⟨p, _ | ⟨q, points⟩⟩
  · cases closed <;> exact absurd h (lt_irrefl _)
  · have hself : (p - p).length = 0 := by
      rw [show p - p = .zero by ext <;> exact sub_self _, Vec3.length_zero]
    cases closed with
    | false => exact absurd h (lt_irrefl _)
    | true => exact absurd h ((zero_add _).trans hself).le.not_gt
  · exact Nat.succ_lt_succ (Nat.succ_pos _)

/-- The first frame and the last one that are carried. The holonomy is the angle between the first
and what the last one becomes when its tangent is taken back. -/
theorem exists_ends (h : 0 < c.size) : ∃ first last : Frame α,
    c.carriedFrames.head? = some first ∧ c.carriedFrames.getLast? = some last ∧
      first.Across (c.tangentAt 0) ∧ last.Across (c.tangentAt (c.size - 1)) ∧
      c.holonomy = first.turnTo (last.carried c.returning) := by
  obtain ⟨k₀, hk₀, htangent₀, -⟩ := exists_carriage h
  obtain ⟨k₁, hk₁, htangent₁, -⟩ := exists_carriage (Nat.sub_one_lt_of_lt h)
  have hlength : c.carriages.length = c.size := by
    rw [← length_carriedFrames, carriedFrames, List.length_map]
  have hfirst : c.carriages.head? = some k₀ := List.head?_eq_getElem?.trans hk₀
  have hlast : c.carriages.getLast? = some k₁ := by
    rw [List.getLast?_eq_getElem?, hlength, hk₁]
  refine ⟨k₀.frame, k₁.frame, ?_, ?_, ?_, ?_, ?_⟩
  · rw [carriedFrames, List.head?_map, hfirst, Option.map_some]
  · rw [carriedFrames, List.getLast?_map, hlast, Option.map_some]
  · refine across_of_carriedFrames (i := 0) ?_
    rw [carriedFrames, List.getElem?_map, hk₀, Option.map_some]
  · refine across_of_carriedFrames ?_
    rw [carriedFrames, List.getElem?_map, hk₁, Option.map_some]
  · rw [holonomy, hfirst, hlast, returning, ← htangent₀, ← htangent₁]

/-- What is across the last tangent is across the first one when it is taken back. -/
theorem across_carried_returning (hf : f.Across (c.tangentAt 0))
    (hg : g.Across (c.tangentAt (c.size - 1)))
    (h : c.tangentAt 0 = c.tangentAt (c.size - 1) ∨
      c.tangentAt 0 = (c.tangentAt (c.size - 1)).scale (-1) ∨
      ((c.tangentAt 0).unit.reject (c.tangentAt (c.size - 1)).unit).unit ≠ .zero) :
    (g.carried c.returning).Across (c.tangentAt 0) := by
  have hfirst := Vec3.unit_of_length_eq_one hf.length_tangent
  have hlast := Vec3.unit_of_length_eq_one hg.length_tangent
  have hresolved : Mat3.Resolved (c.tangentAt (c.size - 1)) (c.tangentAt 0) := by
    refine ⟨hg.length_tangent ▸ Vec3.negligible_lt_one, hf.length_tangent ▸ Vec3.negligible_lt_one,
      ?_⟩
    rw [hfirst, hlast] at h ⊢
    exact h.imp_right (.imp_right fun hne => not_le.1 fun hle => hne (Vec3.unit_of_le hle))
  have happly := hresolved.apply_unit
  rw [hfirst, hlast] at happly
  exact happly ▸ hg.carried hresolved.isRotation

end Curve

end Exact

/-! ## Angles -/

namespace Frame

variable {f g : Frame ℝ} {t : Vec3 ℝ}

theorem twisted_x (f : Frame ℝ) (θ : ℝ) :
    (f.twisted θ).x = f.x.along f.y (Real.cos θ) (Real.sin θ) 0 :=
  (Vec3.add_scale_zero _ _).symm

theorem twisted_twisted (f : Frame ℝ) (θ φ : ℝ) : (f.twisted θ).twisted φ = f.twisted (θ + φ) := by
  have hcos : Scalar.cos (θ + φ) = Scalar.cos θ * Scalar.cos φ - Scalar.sin θ * Scalar.sin φ :=
    Real.cos_add θ φ
  have hsin : Scalar.sin (θ + φ) = Scalar.sin θ * Scalar.cos φ + Scalar.cos θ * Scalar.sin φ :=
    Real.sin_add θ φ
  simp only [twisted, hcos, hsin]
  congr 1
  all_goals
    ext
    all_goals
      simp only [Vec3.add_x, Vec3.add_y, Vec3.add_z, Vec3.sub_x, Vec3.sub_y, Vec3.sub_z, Vec3.scale]
      ring

theorem turnTo_mem_Ioc (f g : Frame ℝ) : f.turnTo g ∈ Set.Ioc (-Real.pi) Real.pi :=
  Complex.arg_mem_Ioc _

/-- Frames across the same direction differ by a twist, the angle between them. -/
theorem Across.twisted_turnTo (hf : f.Across t) (hg : g.Across t) : g.twisted (f.turnTo g) = f := by
  have hcoords := hf.along_dot_x hg
  have hsum : f.x.dot g.x * f.x.dot g.x + f.x.dot g.y * f.x.dot g.y = 1 := by
    have hself := hf.orthonormal.lengthSq_left
    rw [← hcoords, Vec3.lengthSq, hg.orthonormal.along_dot_along, mul_zero, add_zero] at hself
    rw [Vec3.dot_comm f.x, Vec3.dot_comm f.x, hself]
  have hnorm : ‖(⟨f.x.dot g.x, f.x.dot g.y⟩ : ℂ)‖ = 1 := by
    rw [Complex.norm_eq_sqrt_sq_add_sq, pow_two, pow_two, hsum, Real.sqrt_one]
  have hcos : Real.cos (f.turnTo g) = f.x.dot g.x := by
    have h := Complex.norm_mul_cos_arg ⟨f.x.dot g.x, f.x.dot g.y⟩
    rw [hnorm, one_mul] at h
    exact h
  have hsin : Real.sin (f.turnTo g) = f.x.dot g.y := by
    have h := Complex.norm_mul_sin_arg ⟨f.x.dot g.x, f.x.dot g.y⟩
    rw [hnorm, one_mul] at h
    exact h
  have hx : (g.twisted (f.turnTo g)).x = f.x := by
    rw [twisted_x, hcos, hsin, Vec3.dot_comm f.x, Vec3.dot_comm f.x, hcoords]
  have hy : (g.twisted (f.turnTo g)).y = f.y := by
    rw [← (hg.twisted _).cross_x, hx, hf.cross_x]
  exact congrArg₂ Frame.mk hx hy

/-- The angle to a frame that is twisted by at most half a turn is that of the twist. -/
theorem Across.turnTo_twisted (hg : g.Across t) {θ : ℝ} (hθ : θ ∈ Set.Ioc (-Real.pi) Real.pi) :
    (g.twisted θ).turnTo g = θ := by
  have hx : (g.twisted θ).x.dot g.x = Real.cos θ := by
    rw [twisted_x, Vec3.dot_comm, hg.orthonormal.dot_along.1]
  have hy : (g.twisted θ).x.dot g.y = Real.sin θ := by
    rw [twisted_x, Vec3.dot_comm, hg.orthonormal.dot_along.2]
  rw [turnTo, hx, hy]
  show Complex.arg ⟨Real.cos θ, Real.sin θ⟩ = θ
  rw [Complex.mk_eq_add_mul_I, Complex.ofReal_cos, Complex.ofReal_sin,
    Complex.arg_cos_add_sin_mul_I hθ]

end Frame

namespace Curve

variable {c : Curve ℝ}

/-- A share of an angle of at most half a turn is such an angle. -/
theorem share_mem_Ioc {θ d perimeter : ℝ} (hθ : θ ∈ Set.Ioc (-Real.pi) Real.pi) (hd : 0 ≤ d)
    (hle : d ≤ perimeter) (hperimeter : 0 < perimeter) :
    θ * d / perimeter ∈ Set.Ioc (-Real.pi) Real.pi := by
  have hzero : (0 : ℝ) ∈ Set.Ioc (-Real.pi) Real.pi := ⟨neg_lt_zero.2 Real.pi_pos, Real.pi_pos.le⟩
  have hshare : d / perimeter ∈ Set.Icc (0 : ℝ) 1 :=
    ⟨div_nonneg hd hperimeter.le, (div_le_one hperimeter).2 hle⟩
  rw [mul_div_assoc, mul_comm]
  exact (convex_Ioc _ _).smul_mem_of_zero_mem hzero hθ hshare

/-- The frames of a closed curve close up but for the share of the closing chord, if the last tangent
and the first one are equal, opposite or far enough apart. The perimeter that is shared out is the
length of the curve, and the first frame stays as it is. -/
theorem framed_returns (hclosed : c.closed = true) (hperimeter : 0 < c.perimeter)
    (h : c.tangentAt 0 = c.tangentAt (c.size - 1) ∨
      c.tangentAt 0 = (c.tangentAt (c.size - 1)).scale (-1) ∨
      ((c.tangentAt 0).unit.reject (c.tangentAt (c.size - 1)).unit).unit ≠ .zero) :
    c.perimeter = c.length ∧ c.framed.frames.head? = c.carriedFrames.head? ∧
      ∃ first last : Frame ℝ,
        c.framed.frames.head? = some first ∧ c.framed.frames.getLast? = some last ∧
        (last.carried c.returning).twisted (c.framed.holonomy * c.closing / c.perimeter) = first ∧
        first.turnTo (last.carried c.returning) = c.framed.holonomy * c.closing / c.perimeter := by
  have hsize : 1 < c.size := one_lt_size hperimeter
  have hsum := perimeter_eq_add hclosed (Nat.zero_lt_of_lt hsize)
  obtain ⟨first, last, hfirst, hlast, hacross₀, hacross₁, hholonomy⟩ :=
    exists_ends (Nat.zero_lt_of_lt hsize)
  have hback := across_carried_returning hacross₀ hacross₁ h
  have hhead : c.framed.frames.head? = some first := by
    obtain ⟨rest, hrest⟩ := List.head?_eq_some_iff.1 hfirst
    rw [framed_of_closed hclosed hperimeter, hrest]
    rfl
  have hend : c.framed.frames.getLast? =
      some (last.twisted (c.holonomy * pathLength c.points / c.perimeter)) := by
    rw [framed_of_closed hclosed hperimeter]
    exact Framing.getLast?_spread hsize (length_carriedFrames c) hlast
  have hangle : c.framed.holonomy = c.holonomy := by rw [framed_of_closed hclosed hperimeter]
  obtain ⟨back, hdef⟩ : ∃ back, back =
      (last.twisted (c.holonomy * pathLength c.points / c.perimeter)).carried c.returning := ⟨_, rfl⟩
  have hacross : back.Across (c.tangentAt 0) := by
    rw [hdef, Frame.carried_twisted]
    exact hback.twisted _
  have hrest : back.twisted (c.holonomy * c.closing / c.perimeter) = first :=
    calc back.twisted (c.holonomy * c.closing / c.perimeter)
      _ = (last.carried c.returning).twisted (c.holonomy * pathLength c.points / c.perimeter +
            c.holonomy * c.closing / c.perimeter) := by
          rw [hdef, Frame.carried_twisted, Frame.twisted_twisted]
      _ = (last.carried c.returning).twisted c.holonomy := by
          rw [← add_div, ← mul_add, ← hsum, mul_div_cancel_right₀ _ hperimeter.ne']
      _ = first := by rw [hholonomy, hacross₀.twisted_turnTo hback]
  -- The angle to a frame twisted by more than half a turn would be another one than the twist.
  have hmem : c.holonomy * c.closing / c.perimeter ∈ Set.Ioc (-Real.pi) Real.pi :=
    share_mem_Ioc (hholonomy ▸ Frame.turnTo_mem_Ioc _ _) (Vec3.length_nonneg _)
      (hsum ▸ le_add_of_nonneg_left (pathLength_nonneg _)) hperimeter
  have hturn : first.turnTo back = c.holonomy * c.closing / c.perimeter := by
    rw [← hrest, hacross.turnTo_twisted hmem]
  exact ⟨perimeter_eq_length c, hhead.trans hfirst.symm, first, _, hhead, hend,
    by rw [hangle, ← hdef, hrest], by rw [hangle, ← hdef, hturn]⟩

/-- The unit square. -/
noncomputable def unitSquare : Curve ℝ := ⟨0, [⟨0, 0, 0⟩, ⟨1, 0, 0⟩, ⟨1, 1, 0⟩, ⟨0, 1, 0⟩], true⟩

/-- The frames of the unit square close up but for a quarter of the angle. -/
theorem framed_returns_unitSquare :
    ∃ first last : Frame ℝ, unitSquare.framed.frames.head? = some first ∧
      unitSquare.framed.frames.getLast? = some last ∧
      first.turnTo (last.carried unitSquare.returning) = unitSquare.framed.holonomy / 4 := by
  have hside (p q v : Vec3 ℝ) (hv : v.lengthSq = 1) (h : q - p = v) :
      (q - p).length = 1 ∧ (q - p).unit = v := by
    have hone := Vec3.length_eq_one_iff.2 hv
    rw [h]
    exact ⟨hone, Vec3.unit_of_length_eq_one hone⟩
  have hright := hside ⟨0, 0, 0⟩ ⟨1, 0, 0⟩ ⟨1, 0, 0⟩ (by norm_num [Vec3.lengthSq_eq])
    (by ext <;> norm_num [Vec3.sub_x, Vec3.sub_y, Vec3.sub_z])
  have hup := hside ⟨1, 0, 0⟩ ⟨1, 1, 0⟩ ⟨0, 1, 0⟩ (by norm_num [Vec3.lengthSq_eq])
    (by ext <;> norm_num [Vec3.sub_x, Vec3.sub_y, Vec3.sub_z])
  have hleft := hside ⟨1, 1, 0⟩ ⟨0, 1, 0⟩ ⟨-1, 0, 0⟩ (by norm_num [Vec3.lengthSq_eq])
    (by ext <;> norm_num [Vec3.sub_x, Vec3.sub_y, Vec3.sub_z])
  have hdown := hside ⟨0, 1, 0⟩ ⟨0, 0, 0⟩ ⟨0, -1, 0⟩ (by norm_num [Vec3.lengthSq_eq])
    (by ext <;> norm_num [Vec3.sub_x, Vec3.sub_y, Vec3.sub_z])
  have hclosing : unitSquare.closing = 1 := (Vec3.distance_comm _ _).trans hdown.1
  have hperimeter : unitSquare.perimeter = 4 := by
    show 0 + Vec3.length _ + Vec3.length _ + Vec3.length _ + Vec3.length _ = (4 : ℝ)
    rw [hright.1, hup.1, hleft.1, hdown.1]
    norm_num
  have hcorner {before after v w sum t : Vec3 ℝ} (hv : before.unit = v) (hw : after.unit = w)
      (hsum : v + w = sum) (h : sum.lengthSq = 2) :
      (Framing.runningTangent? before.unit after.unit).getD t = sum.unit ∧ sum.unit.length = 1 := by
    have hle : Framing.cancelled ≤ (v + w).lengthSq := by
      rw [hsum, h, Framing.cancelled]
      norm_num
    have htangent := Framing.runningTangent?_of_le hle
    rw [hsum] at htangent
    exact ⟨by rw [hv, hw, htangent, Option.getD_some], Framing.length_runningTangent htangent⟩
  obtain ⟨hfirst, hone₀⟩ : unitSquare.tangentAt 0 = (⟨1, -1, 0⟩ : Vec3 ℝ).unit ∧ _ :=
    hcorner hdown.2 hright.2 (by ext <;> norm_num [Vec3.add_x, Vec3.add_y, Vec3.add_z])
      (by norm_num [Vec3.lengthSq_eq])
  obtain ⟨hlast, hone₃⟩ : unitSquare.tangentAt 3 = (⟨-1, -1, 0⟩ : Vec3 ℝ).unit ∧ _ :=
    hcorner hleft.2 hdown.2 (by ext <;> norm_num [Vec3.add_x, Vec3.add_y, Vec3.add_z])
      (by norm_num [Vec3.lengthSq_eq])
  have hacross : (⟨1, -1, 0⟩ : Vec3 ℝ).unit.dot (⟨-1, -1, 0⟩ : Vec3 ℝ).unit = 0 :=
    Vec3.dot_unit ((Vec3.dot_comm _ _).trans (Vec3.dot_unit (by norm_num [Vec3.dot])))
  have hreject := Vec3.length_reject_of_dot_eq_zero hone₀ hone₃ hacross
  have hapart :
      ((unitSquare.tangentAt 0).unit.reject (unitSquare.tangentAt 3).unit).unit ≠ .zero := by
    rw [hfirst, hlast, Vec3.unit_of_length_eq_one hone₀, Vec3.unit_of_length_eq_one hone₃,
      Vec3.unit_of_length_eq_one hreject]
    exact Vec3.ne_zero_of_lengthSq_eq_one (Vec3.length_eq_one_iff.1 hreject)
  obtain ⟨-, -, first, last, hhead, hend, -, hturn⟩ :=
    framed_returns (c := unitSquare) rfl (by rw [hperimeter]; norm_num) (.inr (.inr hapart))
  rw [hclosing, hperimeter, mul_one] at hturn
  exact ⟨first, last, hhead, hend, hturn⟩

end Curve

end DoubleCurve
