import DoubleCurve.Scalar

/-!
# Points and vectors in space

`Vec3 α` holds three coordinates. Sums and products are evaluated from left to
right, so that on rounded scalars every operation has one value:

* `Vec3.dot`, `Vec3.cross`, `Vec3.length`, `Vec3.distance`: the usual products
  and lengths;
* `Vec3.near`: closeness of two points, coordinate by coordinate;
* `Vec3.unitAndLength`, `Vec3.unit`: direction and length, where a vector too
  short to have a direction has the zero vector for one;
* `Vec3.reject`: the part of a vector across a direction;
* `Vec3.rotateZ`: rotation about the vertical axis.
-/

namespace DoubleCurve

/-- A point or a vector with coordinates in `α`. -/
@[ext] structure Vec3 (α : Type) where
  /-- The first coordinate. -/
  x : α
  /-- The second coordinate. -/
  y : α
  /-- The vertical coordinate. -/
  z : α
deriving BEq, Repr

namespace Vec3

instance {α : Type} [DecidableEq α] : DecidableEq (Vec3 α) :=
  fun _ _ => decidable_of_iff _ Vec3.ext_iff.symm

variable {α : Type} [Scalar α]

/-- The origin. -/
def zero : Vec3 α := ⟨0, 0, 0⟩

/-- The first axis. -/
def axisX : Vec3 α := ⟨1, 0, 0⟩

/-- The second axis. -/
def axisY : Vec3 α := ⟨0, 1, 0⟩

/-- The vertical axis. -/
def axisZ : Vec3 α := ⟨0, 0, 1⟩

instance : Inhabited (Vec3 α) where
  default := zero

instance : Add (Vec3 α) where
  add a b := ⟨a.x + b.x, a.y + b.y, a.z + b.z⟩

instance : Sub (Vec3 α) where
  sub a b := ⟨a.x - b.x, a.y - b.y, a.z - b.z⟩

/-- The vector `v` stretched by the factor `s`. -/
def scale (v : Vec3 α) (s : α) : Vec3 α := ⟨v.x * s, v.y * s, v.z * s⟩

/-- Each coordinate of `v` divided by `s`. -/
def shrink (v : Vec3 α) (s : α) : Vec3 α := ⟨v.x / s, v.y / s, v.z / s⟩

/-- The inner product. -/
def dot (a b : Vec3 α) : α := a.x * b.x + a.y * b.y + a.z * b.z

/-- The vector product. -/
def cross (a b : Vec3 α) : Vec3 α :=
  ⟨a.y * b.z - b.y * a.z, a.z * b.x - b.z * a.x, a.x * b.y - b.x * a.y⟩

/-- The squared length. -/
def lengthSq (v : Vec3 α) : α := v.dot v

/-- The length. -/
def length (v : Vec3 α) : α := Scalar.sqrt v.lengthSq

/-- The distance of two points. -/
def distance (a b : Vec3 α) : α := (a - b).length

/-- Whether all three coordinates are finite. -/
def isFinite (v : Vec3 α) : Bool :=
  Scalar.isFinite v.x && Scalar.isFinite v.y && Scalar.isFinite v.z

/-- Whether every coordinate of `a` differs from that of `b` by less than `tolerance`. -/
def near (tolerance : α) (a b : Vec3 α) : Bool :=
  decide (Scalar.abs (a.x - b.x) < tolerance) && decide (Scalar.abs (a.y - b.y) < tolerance) &&
    decide (Scalar.abs (a.z - b.z) < tolerance)

/-- A vector that is not longer than this has no direction. -/
def negligible : α := 1e-12

/-- The direction of `v` and its length. A negligible vector has the zero vector for a direction. -/
def unitAndLength (v : Vec3 α) : Vec3 α × α :=
  let len := v.length
  if negligible < len then (v.shrink len, len) else (zero, len)

/-- The direction of `v`, or the zero vector if `v` is negligible. -/
def unit (v : Vec3 α) : Vec3 α := v.unitAndLength.1

/-- The part of `v` perpendicular to `along`; all of `v` if `along` has no length. -/
def reject (v along : Vec3 α) : Vec3 α :=
  let square := along.lengthSq
  if 0 < square then v - along.scale (v.dot along / square) else v

/-- The point `p` turned about the vertical axis by the angle with this cosine and sine. -/
def rotateZ (p : Vec3 α) (cos sin : α) : Vec3 α :=
  ⟨p.x * cos - p.y * sin, p.x * sin + p.y * cos, p.z⟩

/-- A unit vector perpendicular to the unit vector `v`, chosen without branching on its direction.
Any other choice would do as well: what is proved of frames uses only that it has unit length and is
perpendicular to `v`. -/
def perpendicular (v : Vec3 α) : Vec3 α :=
  let sign := Scalar.unitSign v.z
  let a := -1 / (sign + v.z)
  let b := v.x * v.y * a
  ⟨b, sign + v.y * v.y * a, -v.y⟩

end Vec3

end DoubleCurve
