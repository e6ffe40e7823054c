import DoubleCurve.Curve
import DoubleCurve.Distance
import DoubleCurve.LocusText
import DoubleCurve.Trace.Curves

/-!
# Reconstruction

`reconstruct` goes the whole way from a soup of segments to framed curves:
matching, tracing, framing. `analyze` does so for the points of a locus text and
also gives the distances over a mesh from the faces that the text names. What was
noticed on the way is part of the report. `CurveSet` holds the curves of a report
in single precision.
-/

namespace DoubleCurve

/-- Framed curves, and what was noticed while they were made. -/
structure Report (α : Type) where
  /-- The curves. -/
  curves : List (FramedCurve α)
  /-- The notices, in the order in which they arose. -/
  notices : Array (Notice α)
deriving BEq, Repr

namespace Report

/-- The number of closed curves. -/
def closedCount {α : Type} (r : Report α) : Nat := r.curves.countP (·.curve.closed)

/-- The number of vertices of all curves. -/
def vertexCount {α : Type} (r : Report α) : Nat := (r.curves.flatMap (·.curve.points)).length

end Report

/-- The framed curves of the segments between consecutive points, two by two, and their rotated
copies. -/
def reconstruct {α : Type} [Scalar α] (points : Array (Vec3 α)) (settings : Settings α) :
    Except (Fault α) (Report α) := do
  let (matching, found) ← Matching.build points settings
  let (curves, foundLater) := Trace.curves matching settings
  return ⟨curves.toList.map Curve.framed, found ++ foundLater⟩

/-- The reconstruction of every one of several soups. -/
def reconstructAll {α : Type} [Scalar α] (soups : List (Array (Vec3 α))) (settings : Settings α) :
    List (Except (Fault α) (Report α)) :=
  soups.map fun points => reconstruct points settings

/-- The distances over a mesh from the double curve, and the curve itself. -/
structure Analysis where
  /-- The distance of every face. -/
  distances : DistanceField
  /-- The curves and all notices. -/
  report : Report Float
deriving BEq, Repr

/-- The analysis of a mesh with the double curve of a locus text. -/
def analyze (mesh : Mesh Float) (locus : LocusText) (mode : Mode) (settings : Settings Float) :
    Except (Fault Float) Analysis := do
  let report ← reconstruct locus.endpoints.toArray settings
  let (distances, found) := DistanceField.compute mesh locus.seeds mode
  return ⟨distances, { report with notices := report.notices ++ found }⟩

/-! ## Curves as buffers

What a display works with of a report: single precision coordinates, one after
another. Curves are looked up by number, and there is an empty one for every number
that is too great.
-/

/-- A framed curve as buffers. -/
structure CurveBuffers where
  /-- The three coordinates of every vertex. -/
  vertices : List Float32
  /-- The six coordinates of the two axes at every vertex. -/
  frames : List Float32
  /-- Whether the curve is closed. -/
  closed : Bool
  /-- The angle spread over the curve to close its frames. -/
  holonomy : Float

namespace CurveBuffers

/-- The buffers of no curve. -/
def empty : CurveBuffers := ⟨[], [], false, 0⟩

/-- The coordinates of a point in single precision. -/
def coordinates (p : Vec3 Float) : List Float32 := [p.x.toFloat32, p.y.toFloat32, p.z.toFloat32]

/-- The buffers of a framed curve. -/
def ofFramed (c : FramedCurve Float) : CurveBuffers where
  vertices := c.curve.points.flatMap coordinates
  frames := c.frames.flatMap fun f => coordinates f.x ++ coordinates f.y
  closed := c.curve.closed
  holonomy := c.holonomy

end CurveBuffers

/-- The curves of a reconstruction as buffers, and what was noticed. -/
structure CurveSet where
  /-- The curves. -/
  curves : List CurveBuffers
  /-- The notices. -/
  notices : Array (Notice Float)

namespace CurveSet

/-- The buffers of a report. -/
def ofReport (r : Report Float) : CurveSet where
  curves := r.curves.map .ofFramed
  notices := r.notices

/-- The number of curves. -/
def size (s : CurveSet) : Nat := s.curves.length

/-- Whether there are no curves. -/
def isEmpty (s : CurveSet) : Bool := s.curves.isEmpty

/-- The number of vertices of all curves. -/
def vertexCount (s : CurveSet) : Nat := (s.curves.flatMap (·.vertices)).length / 3

/-- The curve with this number. -/
def curve (s : CurveSet) (i : Nat) : CurveBuffers := s.curves.getD i .empty

end CurveSet

end DoubleCurve
