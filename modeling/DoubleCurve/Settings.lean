import DoubleCurve.Fault
import DoubleCurve.Scalar

/-!
# Settings

`Tolerances` are the lengths below which differences do not count, and
`Settings` adds what else a reconstruction can be told. `Settings.validate`
accepts exactly the settings that a reconstruction can work with, and names the
first that it cannot.
-/

namespace DoubleCurve

/-- The lengths below which differences do not count. -/
structure Tolerances (α : Type) where
  /-- Two endpoints match if they differ by less than this in every coordinate. -/
  matching : α
  /-- Consecutive points of a curve that are no farther apart than this are collapsed. -/
  shortLength : α
  /-- The number of cells to a unit of length. -/
  cellScale : α
deriving Repr

namespace Tolerances

variable {α : Type} [Scalar α]

/-- The tolerances used unless others are given. -/
def standard : Tolerances α := ⟨2e-5, 0.02, 10000.0⟩

/-- The tolerances with these values, or what is wrong with the first bad one. -/
def ofValues (matching shortLength cellScale : α) : Except (ToleranceFault α) (Tolerances α) :=
  if ¬(0 < matching ∧ Scalar.isFinite matching) then .error (.matching matching)
  else if ¬(0 ≤ shortLength ∧ Scalar.isFinite shortLength) then .error (.shortLength shortLength)
  else if ¬(0 < cellScale ∧ Scalar.isFinite cellScale) then .error (.cellScale cellScale)
  else .ok ⟨matching, shortLength, cellScale⟩

end Tolerances

/-- What a reconstruction can be told. -/
structure Settings (α : Type) extends Tolerances α where
  /-- The last endpoint of an open curve is added if it is farther than this from the point
  before it. -/
  openEndGap : α
  /-- The number of slots in the cell table to an endpoint; zero counts as one. -/
  slotsPerEndpoint : Nat
  /-- The order of the rotational symmetry about the vertical axis; one for none. -/
  symmetry : Nat
deriving Repr

namespace Settings

variable {α : Type} [Scalar α]

/-- The greatest order of a rotational symmetry. -/
def greatestSymmetry : Nat := 1024

/-- The settings with these tolerances and nothing else changed. -/
def ofTolerances (t : Tolerances α) : Settings α where
  toTolerances := t
  openEndGap := 5e-4
  slotsPerEndpoint := 3
  symmetry := 1

/-- The settings used unless others are given. -/
def standard : Settings α := ofTolerances .standard

/-- Accepts the settings, or tells what is wrong with the first bad one. -/
def validate (s : Settings α) : Except (Fault α) Unit :=
  match Tolerances.ofValues s.matching s.shortLength s.cellScale with
  | .error fault => .error (.tolerance fault)
  | .ok _ =>
    if s.symmetry = 0 ∨ greatestSymmetry < s.symmetry then
      .error (.symmetryOrder s.symmetry greatestSymmetry)
    else .ok ()

end Settings

end DoubleCurve
