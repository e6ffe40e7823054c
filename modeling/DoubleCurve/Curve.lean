import DoubleCurve.Rotation

/-!
# Curves and their frames

A `Curve` is what is traced from segments. `Curve.framed` puts a frame across the
curve at every vertex.
-/

namespace DoubleCurve

/-! ## Polygons and polylines

A `Curve` is a polygon, closed, or a polyline, open. Its chords join consecutive
points and, if it is closed, the last point to the first.
-/

/-- A polygon or a polyline. -/
structure Curve (α : Type) where
  /-- The number of the curve in its list. -/
  id : Nat
  /-- The vertices in order. -/
  points : List (Vec3 α)
  /-- Whether the last vertex is joined to the first. -/
  closed : Bool
deriving BEq, Repr

namespace Curve

variable {α : Type} [Scalar α]

/-- The number of vertices. -/
def size (c : Curve α) : Nat := c.points.length

/-- Whether the curve has no vertices. -/
def isEmpty (c : Curve α) : Bool := c.points.isEmpty

/-- The number of chords. -/
def chordCount (c : Curve α) : Nat := if c.closed then c.size else c.size - 1

/-- The pairs of consecutive points. -/
def consecutive (points : List (Vec3 α)) : List (Vec3 α × Vec3 α) := points.zip (points.drop 1)

/-- The sum of the distances between consecutive points, from left to right. -/
def pathLength (points : List (Vec3 α)) : α :=
  (consecutive points).foldl (fun sum (p, q) => sum + p.distance q) 0

/-- The sum of the lengths of all chords. -/
def length (c : Curve α) : α :=
  let path := pathLength c.points
  match c.closed, c.points.head?, c.points.getLast? with
  | true, some first, some last => path + last.distance first
  | _, _, _ => path

end Curve

/-! ## Frames along a curve

A `Frame` is a pair of axes across a curve at a vertex. `Curve.framed` carries
one along the curve with as little turning as possible: from each running
tangent to the next by the geodesic rotation. After a closed curve the carried
frame is turned against the first one by an angle, the holonomy; every frame is
then twisted by its share of it, in proportion to the way from the first vertex,
so that the frames close up.

The tangent at a vertex is along the sum of the directions of its two chords. If
they cancel it is along their difference, or else along the first of them, and if
that has no direction either the tangent before is kept.
-/

/-- The axes of a cross section. -/
structure Frame (α : Type) where
  /-- The first axis. -/
  x : Vec3 α
  /-- The second axis. -/
  y : Vec3 α
deriving BEq, Repr

namespace Frame

variable {α : Type} [Scalar α]

/-- The direction that the frame is across. -/
def tangent (f : Frame α) : Vec3 α := f.x.cross f.y

/-- The frame turned in its own plane, the first axis toward the second. -/
def twisted (f : Frame α) (angle : α) : Frame α :=
  let sin := Scalar.sin angle
  let cos := Scalar.cos angle
  { x := f.x.scale cos + f.y.scale sin
    y := f.y.scale cos - f.x.scale sin }

/-- The frame taken along by a rotation. -/
def carried (f : Frame α) (r : Mat3 α) : Frame α := ⟨r.apply f.x, r.apply f.y⟩

/-- The angle of the first axis of `f`, measured in `g` from its first axis toward its second. -/
def turnTo (f g : Frame α) : α := Scalar.atan2 (f.x.dot g.y) (f.x.dot g.x)

end Frame

/-- A curve with a frame at every vertex. -/
structure FramedCurve (α : Type) where
  /-- The curve. -/
  curve : Curve α
  /-- The frames, one for each vertex. -/
  frames : List (Frame α)
  /-- The angle spread over a closed curve to close the frames; zero for an open one. -/
  holonomy : α
deriving BEq, Repr

namespace Framing

variable {α : Type} [Scalar α]

/-- Directions whose sum or difference has a smaller squared length than this cancel. -/
def cancelled : α := 0.01

/-- The running tangent between a chord and the next, given by their directions. -/
def runningTangent? (before after : Vec3 α) : Option (Vec3 α) :=
  let sum := before + after
  let difference := before - after
  let along :=
    if sum.lengthSq < cancelled then if difference.lengthSq < cancelled then before else difference
    else sum
  if along.unit == Vec3.zero then none else some along.unit

/-- What is carried from vertex to vertex. -/
structure Carriage (α : Type) where
  /-- The first axis of the frame. -/
  x : Vec3 α
  /-- The running tangent. -/
  tangent : Vec3 α
  /-- The direction of the chord from the last vertex to the next. -/
  chord : Vec3 α

namespace Carriage

/-- Before the first vertex the frame has the directions of the axes and looks along the vertical
one. -/
def start (chord : Vec3 α) : Carriage α := ⟨Vec3.axisX, Vec3.axisZ, chord⟩

/-- Carries the frame over a vertex from which the next chord leaves in this direction. -/
def advance (c : Carriage α) (chord : Vec3 α) : Carriage α :=
  let tangent := (runningTangent? c.chord chord).getD c.tangent
  let x := (((Mat3.geodesic c.tangent tangent).apply c.x).reject tangent).unit
  { x := if x == Vec3.zero then tangent.perpendicular else x
    tangent
    chord }

/-- The frame that is carried. -/
def frame (c : Carriage α) : Frame α := ⟨c.x, (c.tangent.cross c.x).unit⟩

end Carriage

/-- The vectors from each point to the next, and from the last to `finish` if that is given. -/
def chords (finish : Option (Vec3 α)) : List (Vec3 α) → List (Vec3 α)
  | [] => []
  | [p] => (finish.map (· - p)).toList
  | p :: q :: rest => (q - p) :: chords finish (q :: rest)

/-- The carriage after each vertex, where `directions` are those of the chords that leave the
vertices. At a vertex that no chord leaves, the one before goes on. -/
def carriages (c : Carriage α) : List (Vec3 α) → List (Vec3 α) → List (Carriage α)
  | [], _ => []
  | _ :: points, [] =>
    let c := c.advance c.chord
    c :: carriages c points []
  | _ :: points, d :: directions =>
    let c := c.advance d
    c :: carriages c points directions

/-- The way from the first vertex to each vertex after it, along the points. -/
def arcs (sum : α) : List (Vec3 α) → List α
  | p :: q :: rest =>
    let sum := sum + p.distance q
    sum :: arcs sum (q :: rest)
  | _ => []

/-- The frames, each but the first twisted by its share of an angle that is spread over the
perimeter. -/
def spread (angle perimeter : α) (points : List (Vec3 α)) : List (Frame α) → List (Frame α)
  | [] => []
  | first :: rest =>
    first :: List.zipWith (fun f arc => f.twisted (angle * arc / perimeter)) rest (arcs 0 points)

end Framing

namespace Curve

variable {α : Type} [Scalar α]

open Framing

/-- The point to which the last vertex is joined. -/
def returnPoint (c : Curve α) : Option (Vec3 α) := if c.closed then c.points.head? else none

/-- All chords in order, the closing one last. -/
def chordVectors (c : Curve α) : List (Vec3 α) := chords c.returnPoint c.points

/-- The sum of the lengths of the chords, from left to right. -/
def perimeter (c : Curve α) : α := c.chordVectors.foldl (fun sum v => sum + v.length) 0

/-- The direction of the chord that arrives at the first vertex. -/
def arrival (c : Curve α) : Vec3 α :=
  match c.closed, c.points.head?, c.points.getLast? with
  | true, some first, some last => (first - last).unit
  | _, _, _ => .zero

/-- The carriage after each vertex. -/
def carriages (c : Curve α) : List (Carriage α) :=
  Framing.carriages (.start c.arrival) c.points (c.chordVectors.map Vec3.unit)

/-- The frame carried to each vertex, before the holonomy is spread. -/
def carriedFrames (c : Curve α) : List (Frame α) := c.carriages.map Carriage.frame

/-- The angle by which the frame carried once around the curve is turned against the first one. -/
def holonomy (c : Curve α) : α :=
  match c.carriages.head?, c.carriages.getLast? with
  | some first, some last =>
    first.frame.turnTo (last.frame.carried (.geodesic last.tangent first.tangent))
  | _, _ => 0

/-- The curve with a frame at every vertex. -/
def framed (c : Curve α) : FramedCurve α :=
  if c.closed && decide (0 < c.perimeter) then
    { curve := c
      frames := spread c.holonomy c.perimeter c.points c.carriedFrames
      holonomy := c.holonomy }
  else { curve := c, frames := c.carriedFrames, holonomy := 0 }

end Curve

end DoubleCurve
