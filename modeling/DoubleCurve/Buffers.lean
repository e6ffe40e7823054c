import DoubleCurve.Archive.Records
import DoubleCurve.LinkText

/-!
# Flat buffers

What a display works with: single precision coordinates one after another in a
buffer, and faces given by their sizes and the list of all their vertices.

* `Buffers.points` and `Buffers.faces` read such buffers, and refuse those that
  do not come out even.
* `Buffers.reconstruct` turns a buffer of segments into a `CurveSet`.
* `Buffers.link` and `Buffers.distances` give the LINK text and the distances.
-/

namespace DoubleCurve

/-- Why buffers were refused. -/
inductive BufferFault where
  /-- What the buffers say was refused. -/
  | content (fault : Fault Float)
  /-- The length of a buffer is not a multiple of its stride. -/
  | length (name : String) (found stride : Nat)
  /-- The sizes of the faces do not add up to the number of vertices listed. -/
  | vertexCount (expected found : Nat)
deriving Repr

/-- The text of a refused buffer. -/
def BufferFault.message : BufferFault → String
  | .content fault => fault.message
  | .length name found stride =>
    s!"Buffer '{name}' has length {found}, expected a multiple of {stride}"
  | .vertexCount expected found => s!"Face sizes sum to {expected} indices, but {found} were given"

namespace CurveSet

/-- The notices as a JSON text. -/
def noticesText (s : CurveSet) : String := JsonForm.text s.notices

end CurveSet

namespace Buffers

/-- The points whose coordinates follow one another. -/
def triples : List Float32 → List (Vec3 Float)
  | x :: y :: z :: rest => ⟨x.toFloat, y.toFloat, z.toFloat⟩ :: triples rest
  | _ => []

/-- The points in a buffer that is known by this name. -/
def points (name : String) (flat : List Float32) : Except BufferFault (List (Vec3 Float)) :=
  if flat.length % 3 ≠ 0 then .error (.length name flat.length 3) else .ok (triples flat)

/-- The faces of these sizes, whose vertices are listed one face after another. -/
def faces (sizes vertices : List Nat) : Except BufferFault (List (List Nat)) :=
  let expected := sizes.foldl (· + ·) 0
  if expected ≠ vertices.length then .error (.vertexCount expected vertices.length)
  else .ok (split sizes vertices)
where
  /-- Cuts the list into pieces of these sizes. -/
  split : List Nat → List Nat → List (List Nat)
    | [], _ => []
    | size :: sizes, vertices => vertices.take size :: split sizes (vertices.drop size)

/-- The same result, with a fault of the content as a fault of the buffers. -/
def ofContent {β : Type} (result : Except (Fault Float) β) : Except BufferFault β :=
  result.mapError .content

/-- The report on the segments in a buffer. -/
def report (endpoints : List Float32) (symmetry : Nat) : Except BufferFault (Report Float) := do
  let ps ← points "endpoints" endpoints
  ofContent (DoubleCurve.reconstruct ps.toArray { Settings.standard with symmetry })

/-- The curves of the segments in a buffer. -/
def reconstruct (endpoints : List Float32) (symmetry : Nat) : Except BufferFault CurveSet :=
  (report endpoints symmetry).map .ofReport

/-- The LINK text of the curves of the segments in a buffer. -/
def link (endpoints : List Float32) (symmetry : Nat) : Except BufferFault String :=
  (report endpoints symmetry).map fun r => LinkText.write (r.curves.map (·.curve))

/-- The distances over the mesh in these buffers, and what was noticed. -/
def distances (positions : List Float32) (faceSizes faceVertices seeds : List Nat) (mode : Mode) :
    Except BufferFault (DistanceField × Array (Notice Float)) := do
  let ps ← points "positions" positions
  let fs ← faces faceSizes faceVertices
  let (mesh, found) ← ofContent (Mesh.ofFaces ps.toArray (fs.map List.toArray).toArray)
  let (field, foundLater) := DistanceField.compute mesh seeds mode
  return (field, found ++ foundLater)

end Buffers

end DoubleCurve
