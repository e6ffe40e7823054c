/-!
# Scalars

The numbers the library computes with. Every geometric definition is written
once, over a type with the operations of `Scalar`, in the order in which it
evaluates them:

* on `Float` it runs, and rounds after every operation;
* on an exact ordered field it is the geometry that the rounding approximates.

`Scalar` asks for operations only. What they satisfy is the business of the
theorems that need it.
-/

namespace DoubleCurve

/-- The operations that coordinates, lengths and angles need. -/
class Scalar (α : Type) extends Zero α, One α, Neg α, Add α, Sub α, Mul α, Div α, NatCast α,
    OfScientific α, BEq α, LT α, LE α where
  /-- Whether one scalar is less than another. -/
  decidableLT : DecidableLT α
  /-- Whether one scalar is at most another. -/
  decidableLE : DecidableLE α
  /-- The absolute value. -/
  abs : α → α
  /-- The square root. -/
  sqrt : α → α
  /-- The sine of an angle in radians. -/
  sin : α → α
  /-- The cosine of an angle in radians. -/
  cos : α → α
  /-- The angle of the point whose ordinate comes first and whose abscissa second. -/
  atan2 : α → α → α
  /-- The angle of one full turn. -/
  turn : α
  /-- One with the sign of the argument; a negative zero has a negative sign. -/
  unitSign : α → α
  /-- Whether the scalar is a number and not infinite. -/
  isFinite : α → Bool
  /-- The integer part toward zero, kept within 32 bits; zero for what is not a number. -/
  toInt32 : α → Int32

attribute [reducible, instance] Scalar.decidableLT Scalar.decidableLE

/-- Double precision numbers, rounded to nearest after every operation. -/
instance : Scalar Float where
  zero := 0
  one := 1
  neg := Float.neg
  add := Float.add
  sub := Float.sub
  mul := Float.mul
  div := Float.div
  natCast := Float.ofNat
  ofScientific := OfScientific.ofScientific
  beq := Float.beq
  lt a b := a < b
  le a b := a ≤ b
  decidableLT := Float.decLt
  decidableLE := Float.decLe
  abs := Float.abs
  sqrt := Float.sqrt
  sin := Float.sin
  cos := Float.cos
  atan2 := Float.atan2
  turn := 6.283185307179586
  unitSign x := if x.toBits >>> 63 = 0 then 1 else -1
  isFinite := Float.isFinite
  toInt32 x := x.toModel.toInt32

end DoubleCurve
