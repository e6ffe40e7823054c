import DoubleCurve.Curve

/-!
# Tangents along a curve

`Curve.tangentAt` is the running tangent at a vertex, described by the points: the
running tangent between the directions of the chords that arrive at the vertex
and leave it, and the tangent at the vertex before if there is none. At the first
vertex of an open curve no chord arrives, and at its last vertex the chord that
arrives goes on.

Each carriage is the one before, advanced (`Framing.getElem?_carriages_succ`), so
after a vertex the carriage looks along the tangent there, and its chord is the one
that leaves (`Curve.exists_carriage`). What every advance preserves holds after every
vertex (`Framing.forall_carriages`). There is a frame for each vertex
(`Curve.length_carriedFrames`), and where an angle is spread each of them stays as it is or is
twisted (`Framing.getElem?_spread`).
-/

namespace DoubleCurve

variable {α : Type} [Scalar α]

namespace Curve

/-- The vertex with this number. -/
def vertex (c : Curve α) (i : Nat) : Vec3 α := c.points.getD i .zero

/-- The direction of the chord that arrives at a vertex. -/
def arriving (c : Curve α) : Nat → Vec3 α
  | 0 => if c.closed then (c.vertex 0 - c.vertex (c.size - 1)).unit else .zero
  | i + 1 => (c.vertex (i + 1) - c.vertex i).unit

/-- The direction of the chord that leaves a vertex. -/
def leaving (c : Curve α) (i : Nat) : Vec3 α :=
  if i + 1 < c.size then (c.vertex (i + 1) - c.vertex i).unit
  else if c.closed then (c.vertex 0 - c.vertex i).unit
  else c.arriving i

/-- The running tangent at a vertex. Before the first one it is the vertical axis. -/
def tangentAt (c : Curve α) : Nat → Vec3 α
  | 0 => (Framing.runningTangent? (c.arriving 0) (c.leaving 0)).getD .axisZ
  | i + 1 => (Framing.runningTangent? (c.arriving (i + 1)) (c.leaving (i + 1))).getD (c.tangentAt i)

end Curve

namespace Framing

variable {k : Carriage α} {points directions : List (Vec3 α)} {i : Nat}

theorem carriages_cons (k : Carriage α) (p : Vec3 α) (points directions : List (Vec3 α)) :
    carriages k (p :: points) directions =
      k.advance (directions.head?.getD k.chord) ::
        carriages (k.advance (directions.head?.getD k.chord)) points directions.tail := by
  cases directions <;> rfl

theorem length_carriages (k : Carriage α) (points directions : List (Vec3 α)) :
    (carriages k points directions).length = points.length := by
  induction points generalizing k directions with
  | nil => rfl
  | cons p points ih => rw [carriages_cons, List.length_cons, ih, List.length_cons]

/-- What every advance preserves holds after every vertex. -/
theorem forall_carriages {motive : Carriage α → Prop} (hk : motive k)
    (advance : ∀ k chord, motive k → motive (k.advance chord)) :
    ∀ k' ∈ carriages k points directions, motive k' := by
  induction points generalizing k directions with
  | nil => exact List.forall_mem_nil _
  | cons p points ih =>
    rw [carriages_cons, List.forall_mem_cons]
    exact ⟨advance _ _ hk, ih (advance _ _ hk)⟩

theorem getElem?_carriages_zero (h : 0 < points.length) :
    (carriages k points directions)[0]? = some (k.advance (directions[0]?.getD k.chord)) := by
  obtain ⟨p, points, rfl⟩ := List.exists_cons_of_length_pos h
  rw [carriages_cons, List.getElem?_cons_zero, List.head?_eq_getElem?]

theorem getElem?_carriages_succ (h : i + 1 < points.length) :
    (carriages k points directions)[i + 1]? = (carriages k points directions)[i]?.map
      fun before => before.advance (directions[i + 1]?.getD before.chord) := by
  induction points generalizing k directions i with
  | nil => cases h
  | cons p points ih =>
    rw [List.length_cons, Nat.add_lt_add_iff_right] at h
    rw [carriages_cons, List.getElem?_cons_succ]
    cases i with
    | zero =>
      rw [getElem?_carriages_zero h, List.getElem?_cons_zero, Option.map_some, List.getElem?_tail]
    | succ i => rw [ih h, List.getElem?_cons_succ, List.getElem?_tail]

theorem getElem?_chords (finish : Option (Vec3 α)) (points : List (Vec3 α)) (i : Nat) :
    (chords finish points)[i]? =
      if i + 1 < points.length then some (points.getD (i + 1) .zero - points.getD i .zero)
      else if i + 1 = points.length then finish.map (· - points.getD i .zero)
      else none := by
  induction points generalizing i with
  | nil => rfl
  | cons p points ih =>
    cases points with
    | nil => cases finish <;> cases i <;> rfl
    | cons q points =>
      cases i with
      | zero =>
        rw [chords, List.getElem?_cons_zero, if_pos (by simp)]
        rfl
      | succ i =>
        rw [chords, List.getElem?_cons_succ, ih]
        simp only [List.length_cons, Nat.add_lt_add_iff_right, Nat.add_right_cancel_iff,
          List.getD_cons_succ]

/-! ## Frames -/

variable {frames : List (Frame α)}

theorem length_arcs (sum : α) (points : List (Vec3 α)) :
    (arcs sum points).length = points.length - 1 := by
  induction points generalizing sum with
  | nil => rfl
  | cons p points ih =>
    cases points with
    | nil => rfl
    | cons q points =>
      rw [arcs, List.length_cons, ih]
      rfl

end Framing

namespace Curve

open Framing

variable {c : Curve α} {i : Nat}

theorem head?_points (h : 0 < c.size) : c.points.head? = some (c.vertex 0) := by
  rw [List.head?_eq_getElem?, vertex, List.getD_eq_getElem?_getD, List.getElem?_eq_getElem h,
    Option.getD_some]

theorem getLast?_points (h : 0 < c.size) : c.points.getLast? = some (c.vertex (c.size - 1)) := by
  rw [List.getLast?_eq_getElem?, vertex, List.getD_eq_getElem?_getD, size,
    List.getElem?_eq_getElem (Nat.sub_one_lt_of_lt h), Option.getD_some]

theorem arrival_eq (h : 0 < c.size) : c.arrival = c.arriving 0 := by
  rw [arrival, head?_points h, getLast?_points h, arriving]
  cases c.closed <;> rfl

theorem leaving_of_lt (h : i + 1 < c.size) : c.leaving i = c.arriving (i + 1) := if_pos h

/-- The chords leave in the directions that the points say. -/
theorem getD_directions (h : i < c.size) :
    (c.chordVectors.map Vec3.unit)[i]?.getD (c.arriving i) = c.leaving i := by
  rw [List.getElem?_map, chordVectors, getElem?_chords, leaving, ← size]
  by_cases hnext : i + 1 < c.size
  · rw [if_pos hnext, if_pos hnext]
    rfl
  · rw [if_neg hnext, if_neg hnext, if_pos (by omega), returnPoint, head?_points (by omega)]
    cases c.closed <;> rfl

/-- After a vertex the carriage looks along the tangent there, and leaves with the chord. -/
theorem exists_carriage (h : i < c.size) :
    ∃ k, c.carriages[i]? = some k ∧ k.tangent = c.tangentAt i ∧ k.chord = c.leaving i := by
  induction i with
  | zero =>
    refine ⟨(Carriage.start (c.arriving 0)).advance (c.leaving 0), ?_, rfl, rfl⟩
    rw [carriages, arrival_eq h, getElem?_carriages_zero h, ← getD_directions h]
    rfl
  | succ i ih =>
    obtain ⟨k, hk, htangent, hchord⟩ := ih (Nat.lt_of_succ_lt h)
    rw [leaving_of_lt h] at hchord
    refine ⟨k.advance (c.leaving (i + 1)), ?_, ?_, rfl⟩
    · rw [carriages, getElem?_carriages_succ h, ← carriages, hk, Option.map_some, hchord,
        getD_directions h]
    · rw [tangentAt, ← hchord, ← htangent]
      rfl

theorem length_carriedFrames (c : Curve α) : c.carriedFrames.length = c.size := by
  rw [carriedFrames, List.length_map, carriages, length_carriages, size]

end Curve

end DoubleCurve
