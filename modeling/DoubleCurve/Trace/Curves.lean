import DoubleCurve.Curve
import DoubleCurve.Trace.Walk

/-!
# Tracing all curves

`Tracer.curves` starts at every segment that is still free, in order, and walks
from it both ways. The segments walked over make a `Strand`, and a strand makes
a curve, unless it is a cycle of one or two segments or has fewer than two
vertices. Starting again from the same matching gives the same curves.
-/

namespace DoubleCurve.Trace

/-! ## The vertices of a traced curve

The vertices come from the chain of endpoints in which the segments follow one
another, in three steps:

* `chain`: the first endpoint, and from the twin of each the endpoint it is
  linked to;
* `collapse`: of the points on the chain, those farther than a short length from
  the last one kept;
* `withTail`: for an open curve, the point at the other end, if a gap is left to
  it.
-/

section

/-- The endpoints at which a chain of at most `n` segments arrives, the first of them at `e`, where
each segment is left by the twin of the endpoint at which it was entered. -/
def chain (links : Links) (e : Endpoint) : Nat → List Endpoint
  | 0 => []
  | n + 1 =>
    e :: match (links.get e.twin).endpoint? with
      | some next => chain links next n
      | none => []

variable {α : Type} [Scalar α]

/-- The points farther than `short` from the last one kept, where `kept` was kept before them. -/
def collapseAfter (short : α) (kept : Vec3 α) : List (Vec3 α) → List (Vec3 α)
  | [] => []
  | p :: rest =>
    if short < kept.distance p then p :: collapseAfter short p rest
    else collapseAfter short kept rest

/-- The first point and those farther than `short` from the last one kept. -/
def collapse (short : α) : List (Vec3 α) → List (Vec3 α)
  | [] => []
  | p :: rest => p :: collapseAfter short p rest

/-- The points with `tail` at their end, if there are any and it is farther than `gap` from the last
of them. -/
def withTail (gap : α) (points : List (Vec3 α)) (tail : Vec3 α) : List (Vec3 α) :=
  match points.getLast? with
  | some last => if gap < last.distance tail then points ++ [tail] else points
  | none => points

end

/-! ## Strands and their curves -/

/-- The segments found by walking both ways from one of them. -/
structure Strand where
  /-- Where the walk onward ended. -/
  first : Endpoint
  /-- Where the walk back ended. -/
  last : Endpoint
  /-- The number of segments counted. On a path it counts the starting one twice. -/
  count : Nat
deriving DecidableEq, Repr

namespace Strand

/-- Whether the two ends are linked, so that the strand runs around a cycle. -/
def isCycle (s : Strand) (links : Links) : Bool := links.get s.first == .endpoint s.last

/-- Whether the strand is the same short way there and back. -/
def isDegenerate (s : Strand) (links : Links) : Bool := s.isCycle links && s.count ≤ 2

/-- Whether the strand makes a closed curve. -/
def isClosed (s : Strand) (links : Links) : Bool :=
  (s.isCycle links || s.first.twin == s.last) && decide (2 < s.count)

end Strand

/-- The curves traced so far and the state in which they leave the trace. -/
structure Traced (α : Type) where
  /-- The state. -/
  state : State α
  /-- The curves. -/
  curves : Array (Curve α)

namespace Tracer

variable {α : Type} [Scalar α]

/-- What is read when the curves of a matching are traced. -/
def ofMatching (m : Matching α) (settings : Settings α) : Tracer α where
  segments := m.segments
  junctions := m.junctions
  shortLength := settings.shortLength
  openEndGap := settings.openEndGap

/-- Walks onward from `e`, and back from its twin unless the walk came around to it. A segment that
no walk claimed is a strand of its own. -/
def strand (t : Tracer α) (s : State α) (e : Endpoint) : Strand × State α :=
  let (onward, s) := t.follow s e
  let (found, s) :=
    if s.links.get e.twin = .endpoint onward.last then
      ((⟨onward.last, e.twin, onward.count⟩ : Strand), s)
    else
      let (back, s) := t.follow s e.twin
      (⟨onward.last, back.last, onward.count + 1 + back.count⟩, s)
  if s.isFree e then (⟨e, e.twin, 1⟩, s.claim e) else (found, s)

/-- The points on the chain of a strand. -/
def chainPoints (t : Tracer α) (links : Links) (s : Strand) : List (Vec3 α) :=
  (chain links s.first s.count).map t.segments.point

/-- The vertices of the curve that a strand makes. -/
def vertices (t : Tracer α) (links : Links) (s : Strand) : List (Vec3 α) :=
  let points := collapse t.shortLength (t.chainPoints links s)
  if s.isClosed links then points else withTail t.openEndGap points (t.segments.point s.last)

/-- Adds the curve of a strand to those traced so far, if it makes one. -/
def addCurve (t : Tracer α) (curves : Array (Curve α)) (links : Links) (s : Strand) :
    Array (Curve α) :=
  let points := t.vertices links s
  if points.length ≤ 1 then curves else curves.push ⟨curves.size, points, s.isClosed links⟩

/-- Traces the strand that starts at `e`, if its segment is still free. -/
def traceFrom (t : Tracer α) (traced : Traced α) (e : Endpoint) : Traced α :=
  if traced.state.isFree e then
    let (s, state) := t.strand traced.state e
    if s.isDegenerate state.links then
      { traced with state := state.report (.info (.degenerateCycle s.first)) }
    else { state, curves := t.addCurve traced.curves state.links s }
  else traced

/-- The first endpoints of all segments. -/
def starts (t : Tracer α) : List Endpoint := t.segments.endpoints.filter Endpoint.isStart

/-- Traces all strands from this state on. -/
def traceAll (t : Tracer α) (s : State α) : Traced α := t.starts.foldl t.traceFrom ⟨s, #[]⟩

end Tracer

/-- The curves of a matching, and what was found while they were traced. -/
def curves {α : Type} [Scalar α] (m : Matching α) (settings : Settings α) :
    Array (Curve α) × Array (Notice α) :=
  let traced := (Tracer.ofMatching m settings).traceAll (.start m)
  (traced.curves, traced.state.notices)

end DoubleCurve.Trace
