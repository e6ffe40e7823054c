import DoubleCurve.Endpoint
import DoubleCurve.Vec3

/-!
# Segments and their rotated copies

A soup of segments is a list of points, two to a segment. `Segments.replicate`
adds the copies that a rotational symmetry about the vertical axis makes of it:
copy `r` of `n` is turned by `r / n` of a full turn and follows the copies
before it, so that an endpoint's copy and its source are read off its index.

`Segments.isExcluded` tells which endpoints are kept out of matching: those of a
segment whose ends are the same point, and those of a copy that starts where its
source ends, since such a copy runs over the source backwards.
-/

namespace DoubleCurve

/-- The endpoints of all segments, the given ones first and then one rotated copy after another. -/
structure Segments (α : Type) where
  /-- The position of every endpoint. -/
  points : Array (Vec3 α)
  /-- The number of endpoints in each copy. -/
  baseSize : Nat
  /-- The number of copies, the given one counted. -/
  order : Nat
  /-- Endpoints come in pairs. -/
  baseSize_even : baseSize % 2 = 0
  /-- All copies are there. -/
  size_points : points.size = baseSize * order

namespace Segments

variable {α : Type} [Scalar α]

/-- The most endpoints that can be worked on, the copies counted. -/
def greatestSize : Nat := 100000000

/-- The number of points that are used of `n`: the last of an odd number is left over. -/
def evenPart (n : Nat) : Nat := n - n % 2

/-- The angle by which copy `r` of `order` is turned. -/
def copyAngle (order r : Nat) : α := Scalar.turn * (r : α) / (order : α)

/-- Copy `r` of `order` of the given points. Copy `0` is not turned at all. -/
def copy (base : Array (Vec3 α)) (order r : Nat) : Array (Vec3 α) :=
  if r = 0 then base
  else
    let angle := copyAngle (α := α) order r
    let cos := Scalar.cos angle
    let sin := Scalar.sin angle
    base.map fun p => p.rotateZ cos sin

theorem size_copy (base : Array (Vec3 α)) (order r : Nat) :
    (copy base order r).size = base.size := by
  simp only [copy]
  split <;> simp

/-- The copies before copy `n`, one after another. -/
def copies (base : Array (Vec3 α)) (order : Nat) : Nat → Array (Vec3 α)
  | 0 => #[]
  | n + 1 => copies base order n ++ copy base order n

theorem size_copies (base : Array (Vec3 α)) (order n : Nat) :
    (copies base order n).size = base.size * n := by
  induction n with
  | zero => simp [copies]
  | succ n ih => rw [copies, Array.size_append, ih, size_copy, Nat.mul_succ]

/-- The segments between consecutive points of `given`, two by two, with all the copies that the
symmetry of this order makes of them. The last of an odd number of points is left out, and order
zero counts as one. -/
def replicate (given : Array (Vec3 α)) (order : Nat) : Segments α :=
  let base := given.take (evenPart given.size)
  { points := copies base (max order 1) (max order 1)
    baseSize := evenPart given.size
    order := max order 1
    baseSize_even := by simp only [evenPart]; omega
    size_points := by
      rw [size_copies]
      congr 1
      simp only [base, evenPart, Array.take_eq_extract, Array.size_extract]
      omega }

/-- The number of endpoints. -/
def size (s : Segments α) : Nat := s.points.size

/-- The number of segments. -/
def count (s : Segments α) : Nat := s.size / 2

/-- All endpoints in order. -/
def endpoints (s : Segments α) : List Endpoint := (List.range s.size).map .ofIndex

/-- The position of an endpoint; the origin for one that does not exist. -/
def point (s : Segments α) (e : Endpoint) : Vec3 α := s.points.getD e.index .zero

/-- The vector along the segment of `e`, toward `e`. -/
def vectorTo (s : Segments α) (e : Endpoint) : Vec3 α := s.point e - s.point e.twin

/-- The endpoint that `e` is a copy of. -/
def source (s : Segments α) (e : Endpoint) : Endpoint :=
  if s.baseSize = 0 then e else .ofIndex (e.index % s.baseSize)

/-- The copy that `e` belongs to. -/
def copyOf (s : Segments α) (e : Endpoint) : Nat :=
  if s.baseSize = 0 then 0 else e.index / s.baseSize

/-- The first endpoint of the segment of `e`. -/
def start (e : Endpoint) : Endpoint := if e.isStart then e else e.twin

/-- Whether the segment that the segment of `e` is a copy of has the same point at both ends. -/
def isDegenerate (s : Segments α) (e : Endpoint) : Bool :=
  let first := s.source (start e)
  s.point first == s.point first.twin

/-- Whether the segment of `e` is a rotated copy that starts where its source ends. -/
def isSelfImage (s : Segments α) (tolerance : α) (e : Endpoint) : Bool :=
  let first := start e
  decide (s.baseSize ≤ first.index) &&
    (s.point first).near tolerance (s.point (s.source first).twin)

/-- Whether the endpoint is kept out of matching. -/
def isExcluded (s : Segments α) (tolerance : α) (e : Endpoint) : Bool :=
  s.isDegenerate e || s.isSelfImage tolerance e

end Segments

end DoubleCurve
