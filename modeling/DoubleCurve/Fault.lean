import DoubleCurve.Decimal

/-!
# Faults

Input that cannot be worked on is refused with a `Fault`, one constructor for
each cause. `Fault.message` is the text shown for it.
-/

namespace DoubleCurve

/-- A tolerance that cannot be used. -/
inductive ToleranceFault (α : Type) where
  /-- The tolerance for matching points is not positive, or not finite. -/
  | matching (value : α)
  /-- The length up to which points are collapsed is negative, or not finite. -/
  | shortLength (value : α)
  /-- The number of cells to a unit of length is not positive, or not finite. -/
  | cellScale (value : α)
deriving Repr

/-- The text of a refused tolerance. -/
def ToleranceFault.message : ToleranceFault Float → String
  | matching v => s!"match tolerance must be positive: {Decimal.Style.plain.text v}"
  | shortLength v => s!"tiny segment length must be non-negative: {Decimal.Style.plain.text v}"
  | cellScale v => s!"hash scale must be positive: {Decimal.Style.plain.text v}"

/-- A neighbour table that does not fit the faces of a mesh. -/
inductive NeighbourFault where
  /-- There is not one row to a face. -/
  | rowCount (rows faces : Nat)
  /-- A row does not have one entry to an edge of its face. -/
  | rowLength (face edges entries : Nat)
  /-- A row names a face that does not exist. -/
  | missingFace (face neighbour : Nat)
deriving DecidableEq, Repr

/-- The text of a refused neighbour table. -/
def NeighbourFault.message : NeighbourFault → String
  | rowCount rows faces => s!"{rows} adjacency rows for {faces} faces"
  | rowLength face edges entries =>
    s!"face {face} has {edges} edges but {entries} adjacency entries"
  | missingFace face neighbour => s!"face {face} is adjacent to missing face {neighbour}"

/-- Why some input was refused. -/
inductive Fault (α : Type) where
  /-- A tolerance cannot be used. -/
  | tolerance (fault : ToleranceFault α)
  /-- The order of the rotational symmetry is zero or above the greatest one. -/
  | symmetryOrder (order greatest : Nat)
  /-- There are more endpoints than allowed, the rotated copies counted. -/
  | tooManyEndpoints (count greatest : Nat)
  /-- A face names a vertex that does not exist. -/
  | missingVertex (face vertex vertexCount : Nat)
  /-- A face has fewer than three vertices. -/
  | degenerateFace (face size : Nat)
  /-- A neighbour table does not fit the faces. -/
  | neighbours (fault : NeighbourFault)
  /-- Bytes that had to be read as text are no text. -/
  | undecodable
deriving Repr

/-- The text of a fault. -/
def Fault.message : Fault Float → String
  | tolerance fault => s!"Invalid configuration: {fault.message}"
  | symmetryOrder order greatest =>
    s!"Invalid symmetry order: {order} (expected 1..={greatest})"
  | tooManyEndpoints count greatest => s!"Too many locus endpoints: {count} (max: {greatest})"
  | missingVertex face vertex vertexCount =>
    s!"Face {face} references vertex {vertex}, but the mesh has {vertexCount} vertices"
  | degenerateFace face size => s!"Face {face} has {size} vertices (need at least 3)"
  | neighbours fault => s!"Invalid adjacency: {fault.message}"
  | undecodable => "I/O error: stream did not contain valid UTF-8"

end DoubleCurve
