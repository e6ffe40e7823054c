import DoubleCurve.Vec3

/-!
# Rotations from one direction to another

A `Mat3` is kept by its columns. `Mat3.geodesic p q` is the rotation that takes
the direction of `p` to that of `q` and leaves alone what is perpendicular to
both. With `a` the first direction and `e` the unit vector across `a` in the
plane of the two, it is `1 + (a aᵀ + e eᵀ)(c - 1) + (e aᵀ - a eᵀ) s`, where `c`
and `s` are the coordinates of the second direction on `a` and `e`.
-/

namespace DoubleCurve

/-- A three by three matrix, given by its columns. -/
structure Mat3 (α : Type) where
  /-- The image of the first axis. -/
  col₀ : Vec3 α
  /-- The image of the second axis. -/
  col₁ : Vec3 α
  /-- The image of the vertical axis. -/
  col₂ : Vec3 α
deriving BEq, Repr

namespace Mat3

variable {α : Type} [Scalar α]

/-- The matrix that changes nothing. -/
def identity : Mat3 α := ⟨Vec3.axisX, Vec3.axisY, Vec3.axisZ⟩

instance : Add (Mat3 α) where
  add m n := ⟨m.col₀ + n.col₀, m.col₁ + n.col₁, m.col₂ + n.col₂⟩

instance : Sub (Mat3 α) where
  sub m n := ⟨m.col₀ - n.col₀, m.col₁ - n.col₁, m.col₂ - n.col₂⟩

/-- Every entry multiplied by `s`. -/
def scale (m : Mat3 α) (s : α) : Mat3 α := ⟨m.col₀.scale s, m.col₁.scale s, m.col₂.scale s⟩

/-- The matrix `m` applied to the vector `v`. -/
def apply (m : Mat3 α) (v : Vec3 α) : Vec3 α :=
  m.col₀.scale v.x + m.col₁.scale v.y + m.col₂.scale v.z

/-- The outer product `u vᵀ`. -/
def outer (u v : Vec3 α) : Mat3 α := ⟨u.scale v.x, u.scale v.y, u.scale v.z⟩

/-- A direction turned onto its opposite is turned in a plane with the first axis if its first
coordinate is smaller than this, and in a plane with the second axis otherwise. -/
def steepness : α := 0.7

/-- A unit vector across the unit vector `a`, toward the axis that is well away from `a`. -/
def sideways (a : Vec3 α) : Vec3 α :=
  let axis := if Scalar.abs a.x < steepness then Vec3.axisX else Vec3.axisY
  (axis.reject a).unit

/-- The rotation by the angle with this cosine and sine in the plane of the unit vectors `a` and
`e`, from `a` toward `e`. -/
def inPlane (a e : Vec3 α) (cos sin : α) : Mat3 α :=
  identity + (outer a a + outer e e).scale (cos - 1) + (outer e a - outer a e).scale sin

/-- The rotation from the direction of `p` to the direction of `q` about the axis perpendicular to
both. It is the identity if one of them has no direction or both have the same one, and a half turn
if they are opposite. -/
def geodesic (p q : Vec3 α) : Mat3 α :=
  let a := p.unit
  let b := q.unit
  if a == Vec3.zero || b == Vec3.zero then identity
  else
    let cos := a.dot b
    let across := (b.reject a).unit
    if across == Vec3.zero then
      if 0 ≤ cos then identity
      else
        let e := sideways a
        inPlane a e cos (e.dot b)
    else inPlane a across cos (across.dot b)

end Mat3

end DoubleCurve
