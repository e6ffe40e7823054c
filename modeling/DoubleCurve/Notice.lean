import DoubleCurve.Decimal
import DoubleCurve.Endpoint
import DoubleCurve.Text
import DoubleCurve.Vec3

/-!
# Notices

What is worth telling about the input without refusing it. A `Notice` is a
`Finding` with a severity, and its message follows from the finding. Notices are
kept in the order in which they arose.
-/

namespace DoubleCurve

/-- How much a notice matters. -/
inductive Severity where
  /-- Something was ignored or mended. -/
  | warning
  /-- Something is unusual. -/
  | info
deriving DecidableEq, Repr

/-- The word for the severity in front of a message. -/
def Severity.label : Severity → String
  | warning => "warning"
  | info => "info"

/-- What was found. -/
inductive Finding (α : Type) where
  /-- No other endpoint lies where this one does. -/
  | unmatchedEndpoint (endpoint : Endpoint) (point : Vec3 α)
  /-- A walk reached a junction at this endpoint when all its other members had been used. -/
  | exhaustedJunction (token : Int) (fold : Nat) (endpoint : Endpoint) (point : Vec3 α)
  /-- The source is linked to the target, but the target was linked to something else. -/
  | brokenLink (source target : Endpoint) (found : String)
  /-- A cycle of at most two segments was left out. -/
  | degenerateCycle (endpoint : Endpoint)
  /-- A line of a locus text does not have the form it should have. -/
  | malformedLine (line : Nat) (expected found : String)
  /-- A seed names a face that does not exist. -/
  | missingSeed (face faceCount : Nat)
  /-- The last of an odd number of endpoints was left out. -/
  | oddEndpointCount (count : Nat)
  /-- More than two faces share an edge. -/
  | crowdedEdge (face edge : Nat)
deriving BEq, Repr

/-- A finding and how much it matters. -/
structure Notice (α : Type) where
  /-- How much it matters. -/
  severity : Severity
  /-- What was found. -/
  finding : Finding α
deriving BEq, Repr

namespace Finding

/-- The coordinates of a point with five places, separated by spaces. -/
def pointText (p : Vec3 Float) : String :=
  s!"{Decimal.fixed 5 p.x} {Decimal.fixed 5 p.y} {Decimal.fixed 5 p.z}"

/-- The message for a finding. -/
def message : Finding Float → String
  | unmatchedEndpoint endpoint point => s!"unmatched endpoint {endpoint} at [{pointText point}]"
  | exhaustedJunction token fold endpoint point =>
    s!"{fold}-fold vertex [{token}] {endpoint}: {pointText point}"
  | brokenLink source target found =>
    s!"broken back-link: {source} => {target} but {target} => {found}"
  | degenerateCycle endpoint => s!"discarded two-segment cycle starting at endpoint {endpoint}"
  | malformedLine line expected found =>
    s!"line {line}: expected {expected}, got {Text.quoted found}"
  | missingSeed face faceCount => s!"seed face {face} out of range ({faceCount} faces)"
  | oddEndpointCount count => s!"odd endpoint count {count}; dropped the last endpoint"
  | crowdedEdge face edge => s!"edge {edge} of face {face} is shared by more than two faces"

/-- The name of the kind of finding. -/
def kind {α : Type} : Finding α → String
  | unmatchedEndpoint .. => "UnmatchedEndpoint"
  | exhaustedJunction .. => "JunctionExhausted"
  | brokenLink .. => "BrokenBackLink"
  | degenerateCycle .. => "DegenerateCycle"
  | malformedLine .. => "MalformedLocusLine"
  | missingSeed .. => "SeedOutOfRange"
  | oddEndpointCount .. => "OddEndpointCount"
  | crowdedEdge .. => "NonManifoldEdge"

end Finding

namespace Notice

/-- A notice that something was ignored or mended. -/
def warning {α : Type} (f : Finding α) : Notice α := ⟨.warning, f⟩

/-- A notice that something is unusual. -/
def info {α : Type} (f : Finding α) : Notice α := ⟨.info, f⟩

/-- The message for the notice. -/
def message (n : Notice Float) : String := n.finding.message

instance : ToString (Notice Float) := ⟨fun n => s!"{n.severity.label}: {n.message}"⟩

end Notice

end DoubleCurve
