import DoubleCurve.Proofs.Framing.Tangents

/-!
# Open curves are framed from their beginning

The frame at a vertex of an open curve is settled by the points up to the next one: what
is carried is started from the axes, whatever the curve is, and every vertex adds the
chord that leaves it. So what is carried over the first vertices is what would be carried
over them alone (`Framing.take_carriages`), along the chords between the first points
(`Framing.take_chords`), and curves that begin alike are framed alike
(`Curve.take_framed`). No frame is twisted afterwards, as the curve is open
(`Curve.framed_of_open`).

Nothing is asked of the scalars, so all of this is also true where they are rounded.
-/

namespace DoubleCurve

variable {α : Type} [Scalar α]

namespace Framing

theorem take_carriages (n : Nat) (k : Carriage α) (points directions : List (Vec3 α)) :
    (carriages k points directions).take n =
      carriages k (points.take n) (directions.take n) := by
  -- Each vertex hands another carriage on to the rest, so `k` is arbitrary in the induction.
  induction n generalizing k points directions with
  | zero => rfl
  | succ n ih =>
    cases points with
    | nil => rfl
    | cons p points =>
      rw [carriages_cons, List.take_succ_cons, List.take_succ_cons, carriages_cons, ih]
      cases directions with
      | nil => rw [List.take_nil, List.tail_nil, List.take_nil]
      | cons d directions => rfl

/-- The first chords of an open curve are those between its first points, one more. -/
theorem take_chords (n : Nat) (points : List (Vec3 α)) :
    (chords none points).take n = chords none (points.take (n + 1)) := by
  induction n generalizing points with
  | zero => cases points <;> rfl
  | succ n ih =>
    obtain _ | ⟨p, _ | ⟨q, points⟩⟩ := points
    · rfl
    · rfl
    · rw [chords, List.take_succ_cons, ih]
      rfl

end Framing

namespace Curve

open Framing

variable {c d : Curve α} {m : Nat}

/-- What is carried over the first vertices of an open curve comes from the points up to the next
one. -/
theorem take_carriedFrames (hopen : c.closed = false) (n : Nat) : c.carriedFrames.take n =
    (Framing.carriages (.start .zero) (c.points.take n)
      ((chords none (c.points.take (n + 1))).map Vec3.unit)).map Carriage.frame := by
  have harrival : c.arrival = .zero := by rw [arrival, hopen]
  have hreturn : c.returnPoint = none := by rw [returnPoint, hopen, if_neg Bool.false_ne_true]
  rw [carriedFrames, ← List.map_take, Curve.carriages, harrival, take_carriages, ← List.map_take,
    chordVectors, hreturn, take_chords]

/-- The frames of an open curve are left as they are carried. -/
theorem framed_of_open (hopen : c.closed = false) : c.framed = ⟨c, c.carriedFrames, 0⟩ := by
  rw [framed, hopen, Bool.false_and, if_neg Bool.false_ne_true]

/-- Open curves with the same first points have the same frames at all of these but the last. They
are returned with no holonomy. -/
theorem take_framed (hc : c.closed = false) (hd : d.closed = false) (hsize : m ≤ c.size)
    (hsize' : m ≤ d.size) (h : c.points.take m = d.points.take m) :
    (c.framed.frames.take (m - 1)).length = m - 1 ∧
      c.framed.frames.take (m - 1) = d.framed.frames.take (m - 1) ∧
      (c.framed.curve = c ∧ c.framed.holonomy = 0) ∧
      (d.framed.curve = d ∧ d.framed.holonomy = 0) := by
  rw [framed_of_open hc, framed_of_open hd]
  refine ⟨?_, ?_, ⟨rfl, rfl⟩, ⟨rfl, rfl⟩⟩
  · have hle : m - 1 ≤ c.size := Nat.le_trans (Nat.sub_le m 1) hsize
    rw [List.length_take, length_carriedFrames, Nat.min_eq_left hle]
  · cases m with
    | zero => rfl
    | succ n =>
      -- Without the last common point, which only ends the chord that leaves the one before.
      have hprefix : c.points.take n = d.points.take n := by
        have h := congrArg (List.take n) h
        rwa [List.take_take, List.take_take, Nat.min_eq_left n.le_succ] at h
      rw [Nat.add_sub_cancel, take_carriedFrames hc, take_carriedFrames hd, hprefix, h]

/-- A third chord does not disturb the frames at the first two vertices. -/
theorem take_framed_corner :
    (⟨0, [⟨0, 0, 0⟩, ⟨1, 0, 0⟩, ⟨1, 1, 0⟩], false⟩ : Curve Float).framed.frames.take 2 =
      (⟨1, [⟨0, 0, 0⟩, ⟨1, 0, 0⟩, ⟨1, 1, 0⟩, ⟨5, 2, 3⟩], false⟩ : Curve Float).framed.frames.take 2 :=
  (take_framed (c := ⟨0, [⟨0, 0, 0⟩, ⟨1, 0, 0⟩, ⟨1, 1, 0⟩], false⟩)
    (d := ⟨1, [⟨0, 0, 0⟩, ⟨1, 0, 0⟩, ⟨1, 1, 0⟩, ⟨5, 2, 3⟩], false⟩) (m := 3) rfl rfl
    (Nat.le_refl 3) (Nat.le_succ 3) rfl).2.1

end Curve

end DoubleCurve
