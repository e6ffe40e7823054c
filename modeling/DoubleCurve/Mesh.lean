import DoubleCurve.Fault
import DoubleCurve.Notice
import Std.Data.HashMap

/-!
# Polygon meshes

A `Mesh` has faces over numbered vertices, and knows for every edge of a face
which face lies across it. The neighbours are given, and then checked
(`Mesh.ofNeighbours`), or found from the edges that faces share
(`Mesh.ofFaces`). An edge has no direction. Across it lies the first other face
that has the same edge, and an edge that occurs more than twice is reported where
it occurs first.
-/

namespace DoubleCurve

/-- An edge between two vertices, the one with the smaller number first. -/
structure Edge where
  /-- The vertex with the smaller number. -/
  low : Nat
  /-- The vertex with the greater number. -/
  high : Nat
deriving DecidableEq, Hashable, Repr

namespace Edge

/-- The edge between two vertices, whichever comes first. -/
def between (a b : Nat) : Edge := ⟨min a b, max a b⟩

/-- The edges around a face, each from a vertex to the next and the last one back to the first. -/
def around (face : Array Nat) : List Edge :=
  let vs := face.toList
  List.zipWith between vs (vs.drop 1 ++ vs.take 1)

theorem length_around (face : Array Nat) : (around face).length = face.size := by
  simp only [around, List.length_zipWith, List.length_append, List.length_drop, List.length_take,
    Array.length_toList]
  omega

end Edge

/-- The place of an edge in the list of faces. -/
structure Occurrence where
  /-- The face. -/
  face : Nat
  /-- The number of the edge within the face. -/
  edge : Nat
deriving DecidableEq, Repr

/-- Faces over numbered vertices, and the faces across their edges. -/
structure Mesh (α : Type) where
  /-- The positions of the vertices. -/
  positions : Array (Vec3 α)
  /-- The vertices around every face. -/
  faces : Array (Array Nat)
  /-- The face across every edge of every face. -/
  neighbours : Array (Array (Option Nat))
  /-- Every face has at least three vertices. -/
  three_le : ∀ face ∈ faces, 3 ≤ face.size
  /-- Every vertex of a face exists. -/
  vertex_lt : ∀ face ∈ faces, ∀ v ∈ face, v < positions.size
  /-- There is a row of neighbours to every face, with an entry to every edge. -/
  row_sizes : neighbours.map (·.size) = faces.map (·.size)
  /-- Every neighbour exists. -/
  neighbour_lt : ∀ row ∈ neighbours, ∀ g, some g ∈ row → g < faces.size

/-- All places of edges, face by face, each with its edge. -/
def edgePlaces (faces : Array (Array Nat)) : List (Edge × Occurrence) :=
  faces.toList.zipIdx.flatMap fun (face, f) =>
    (Edge.around face).zipIdx.map fun (edge, e) => (edge, ⟨f, e⟩)

theorem face_lt_of_mem_edgePlaces {faces : Array (Array Nat)} {edge : Edge} {o : Occurrence}
    (h : (edge, o) ∈ edgePlaces faces) : o.face < faces.size := by
  simp only [edgePlaces, List.mem_flatMap, List.mem_map, Prod.exists] at h
  obtain ⟨face, f, hf, edge', e, -, heq⟩ := h
  have hlt := (List.mem_zipIdx' hf).1
  cases heq
  simpa using hlt

/-- The places at which each edge occurs, in order. -/
abbrev EdgeIndex := Std.HashMap Edge (List Occurrence)

namespace EdgeIndex

/-- Adds the place of an edge after those that are known of it. -/
def addPlace (index : EdgeIndex) (place : Edge × Occurrence) : EdgeIndex :=
  index.insert place.1 (index.getD place.1 [] ++ [place.2])

/-- The index of all edges of these faces. -/
def ofFaces (faces : Array (Array Nat)) : EdgeIndex := (edgePlaces faces).foldl addPlace ∅

theorem getD_foldl_addPlace (places : List (Edge × Occurrence)) (index : EdgeIndex) (edge : Edge) :
    (places.foldl addPlace index).getD edge [] =
      index.getD edge [] ++ (places.filter (·.1 = edge)).map (·.2) := by
  induction places generalizing index with
  | nil => simp
  | cons place rest ih =>
    rw [List.foldl_cons, ih, addPlace, Std.HashMap.getD_insert]
    by_cases h : place.1 = edge <;> simp [h]

/-- The index lists under an edge the places of that edge, in order. -/
theorem getD_ofFaces (faces : Array (Array Nat)) (edge : Edge) :
    (ofFaces faces).getD edge [] = ((edgePlaces faces).filter (·.1 = edge)).map (·.2) := by
  simp [ofFaces, getD_foldl_addPlace]

/-- The first face other than `f` that has this edge. -/
def across? (index : EdgeIndex) (f : Nat) (edge : Edge) : Option Nat :=
  ((index.getD edge []).find? fun o => o.face != f).map (·.face)

theorem across?_lt {faces : Array (Array Nat)} {f g : Nat} {edge : Edge}
    (h : (ofFaces faces).across? f edge = some g) : g < faces.size := by
  simp only [across?, getD_ofFaces, Option.map_eq_some_iff] at h
  obtain ⟨o, ho, rfl⟩ := h
  obtain ⟨place, hplace, rfl⟩ := List.mem_map.mp (List.mem_of_find?_eq_some ho)
  exact face_lt_of_mem_edgePlaces (List.mem_filter.mp hplace).1

/-- Whether this place is the first at which an edge occurs, and the edge occurs more than twice. -/
def isCrowded (index : EdgeIndex) (edge : Edge) (o : Occurrence) : Bool :=
  let places := index.getD edge []
  decide (2 < places.length) && places.head? == some o

/-- A notice for every edge that occurs more than twice, in the order of their first places. -/
def notices {α : Type} (index : EdgeIndex) (places : List (Edge × Occurrence)) :
    Array (Notice α) :=
  ((places.filter fun (edge, o) => index.isCrowded edge o).map fun (_, o) =>
    .warning (.crowdedEdge o.face o.edge)).toArray

end EdgeIndex

namespace Mesh

variable {α : Type}

/-- The first fault of a face: too few vertices, or else a vertex that does not exist. -/
def faceFault? (vertexCount f : Nat) (face : Array Nat) : Option (Fault α) :=
  if face.size < 3 then some (.degenerateFace f face.size)
  else (face.find? (vertexCount ≤ ·)).map fun v => .missingVertex f v vertexCount

/-- The first fault of the faces in order. -/
def facesFault? (vertexCount : Nat) (faces : Array (Array Nat)) : Option (Fault α) :=
  faces.toList.zipIdx.findSome? fun (face, f) => faceFault? vertexCount f face

/-- The first fault of a row of neighbours: not one to every edge, or else a face that does not
exist. -/
def rowFault? (faceCount f : Nat) (face : Array Nat) (row : Array (Option Nat)) :
    Option NeighbourFault :=
  if row.size ≠ face.size then some (.rowLength f face.size row.size)
  else (row.toList.filterMap id).find? (faceCount ≤ ·) |>.map (.missingFace f)

/-- The first fault of a table of neighbours. -/
def neighboursFault? (faces : Array (Array Nat)) (neighbours : Array (Array (Option Nat))) :
    Option NeighbourFault :=
  if neighbours.size ≠ faces.size then some (.rowCount neighbours.size faces.size)
  else (neighbours.toList.zip faces.toList).zipIdx.findSome? fun ((row, face), f) =>
    rowFault? faces.size f face row

section Checks

variable {vertexCount : Nat} {faces : Array (Array Nat)}
  {neighbours : Array (Array (Option Nat))}

theorem faceFault?_eq_none (h : facesFault? (α := α) vertexCount faces = none) {face : Array Nat}
    (hmem : face ∈ faces) : ∃ f, faceFault? (α := α) vertexCount f face = none := by
  obtain ⟨f, hf, rfl⟩ := Array.mem_iff_getElem.mp hmem
  refine ⟨f, List.findSome?_eq_none_iff.mp h (faces[f], f) ?_⟩
  rw [List.mem_zipIdx_iff_getElem?]
  simp [hf]

theorem three_le_of_facesFault? (h : facesFault? (α := α) vertexCount faces = none) :
    ∀ face ∈ faces, 3 ≤ face.size := by
  intro face hmem
  obtain ⟨f, hf⟩ := faceFault?_eq_none h hmem
  simp only [faceFault?] at hf
  split at hf
  · cases hf
  · omega

theorem vertex_lt_of_facesFault? (h : facesFault? (α := α) vertexCount faces = none) :
    ∀ face ∈ faces, ∀ v ∈ face, v < vertexCount := by
  intro face hmem v hv
  obtain ⟨f, hf⟩ := faceFault?_eq_none h hmem
  simp only [faceFault?] at hf
  split at hf
  · cases hf
  · have := Array.find?_eq_none.mp (Option.map_eq_none_iff.mp hf) v hv
    simpa using this

theorem rowFault?_eq_none (h : neighboursFault? faces neighbours = none) {f : Nat}
    (hn : f < neighbours.size) (hf : f < faces.size) :
    rowFault? faces.size f faces[f] neighbours[f] = none := by
  simp only [neighboursFault?] at h
  split at h
  · cases h
  · refine List.findSome?_eq_none_iff.mp h ((neighbours[f], faces[f]), f) ?_
    exact List.mem_zipIdx_iff_getElem?.mpr
      (List.getElem?_zip_eq_some.mpr ⟨Array.getElem?_toList ▸ Array.getElem?_eq_getElem hn,
        Array.getElem?_toList ▸ Array.getElem?_eq_getElem hf⟩)

theorem row_sizes_of_neighboursFault? (h : neighboursFault? faces neighbours = none) :
    neighbours.map (·.size) = faces.map (·.size) := by
  have hsize : neighbours.size = faces.size := by
    simp only [neighboursFault?] at h
    split at h
    · cases h
    · omega
  refine Array.ext (by simpa using hsize) fun f hn hf => ?_
  simp only [Array.size_map] at hn hf
  have hrow := rowFault?_eq_none h hn hf
  simp only [rowFault?] at hrow
  split at hrow
  · cases hrow
  · rename_i hlength
    simpa using Decidable.not_not.mp hlength

theorem neighbour_lt_of_neighboursFault? (h : neighboursFault? faces neighbours = none) :
    ∀ row ∈ neighbours, ∀ g, some g ∈ row → g < faces.size := by
  intro row hmem g hg
  obtain ⟨f, hn, rfl⟩ := Array.mem_iff_getElem.mp hmem
  have hf : f < faces.size := by
    have := congrArg Array.size (row_sizes_of_neighboursFault? h)
    simp only [Array.size_map] at this
    omega
  have hrow := rowFault?_eq_none h hn hf
  simp only [rowFault?] at hrow
  split at hrow
  · cases hrow
  · have := List.find?_eq_none.mp (Option.map_eq_none_iff.mp hrow) g (by simpa using hg)
    simpa using this

end Checks

/-- The faces across the edges of every face, found from the edges that faces share. -/
def sharedEdges (faces : Array (Array Nat)) : Array (Array (Option Nat)) :=
  let index := EdgeIndex.ofFaces faces
  faces.mapIdx fun f face => ((Edge.around face).map (index.across? f)).toArray

theorem row_sizes_sharedEdges (faces : Array (Array Nat)) :
    (sharedEdges faces).map (·.size) = faces.map (·.size) := by
  refine Array.ext (by simp [sharedEdges]) fun f hn hf => ?_
  simp [sharedEdges, Edge.length_around]

theorem neighbour_lt_sharedEdges (faces : Array (Array Nat)) :
    ∀ row ∈ sharedEdges faces, ∀ g, some g ∈ row → g < faces.size := by
  intro row hmem g hg
  obtain ⟨f, hf, rfl⟩ := Array.mem_iff_getElem.mp hmem
  simp only [sharedEdges, Array.getElem_mapIdx, List.mem_toArray, List.mem_map] at hg
  obtain ⟨edge, -, hedge⟩ := hg
  exact EdgeIndex.across?_lt hedge

/-- The mesh with these faces, and a notice for every edge that more than two faces share. -/
def ofFaces (positions : Array (Vec3 α)) (faces : Array (Array Nat)) :
    Except (Fault α) (Mesh α × Array (Notice α)) :=
  match h : facesFault? positions.size faces with
  | some fault => .error fault
  | none =>
    .ok ({ positions
           faces
           neighbours := sharedEdges faces
           three_le := three_le_of_facesFault? h
           vertex_lt := vertex_lt_of_facesFault? h
           row_sizes := row_sizes_sharedEdges faces
           neighbour_lt := neighbour_lt_sharedEdges faces },
         (EdgeIndex.ofFaces faces).notices (edgePlaces faces))

/-- The mesh with these faces and neighbours. -/
def ofNeighbours (positions : Array (Vec3 α)) (faces : Array (Array Nat))
    (neighbours : Array (Array (Option Nat))) : Except (Fault α) (Mesh α) :=
  match h : facesFault? positions.size faces with
  | some fault => .error fault
  | none =>
    match h' : neighboursFault? faces neighbours with
    | some fault => .error (.neighbours fault)
    | none =>
      .ok { positions
            faces
            neighbours
            three_le := three_le_of_facesFault? h
            vertex_lt := vertex_lt_of_facesFault? h
            row_sizes := row_sizes_of_neighboursFault? h'
            neighbour_lt := neighbour_lt_of_neighboursFault? h' }

/-- The number of faces. -/
def faceCount (m : Mesh α) : Nat := m.faces.size

/-- The number of vertices. -/
def vertexCount (m : Mesh α) : Nat := m.positions.size

/-- The vertices around a face; none for a face that does not exist. -/
def face (m : Mesh α) (f : Nat) : List Nat := (m.faces.getD f #[]).toList

/-- The faces across the edges of a face; none for a face that does not exist. -/
def row (m : Mesh α) (f : Nat) : List (Option Nat) := (m.neighbours.getD f #[]).toList

/-- The faces that lie across some edge of a face, edge by edge. -/
def adjacent (m : Mesh α) (f : Nat) : List Nat := (m.row f).filterMap id

/-- Whether a vertex belongs to a face. -/
def hasVertex (m : Mesh α) (f v : Nat) : Bool := (m.face f).contains v

end Mesh

end DoubleCurve
