import DoubleCurve.Proofs.Distance.Field
import DoubleCurve.Proofs.SharedEdges

/-!
# Distances in both modes

Two faces that share an edge have a vertex in common (`Mesh.exists_common_vertex`),
and the walk around it leads from the one to the other. On a mesh whose neighbours
were found from shared edges, every step across an edge is therefore a step around
a vertex as well (`Mesh.isStep_ribbon`), and distances around vertices are never
greater than distances across edges.
-/

namespace DoubleCurve

namespace Mesh

variable {α : Type} {positions : Array (Vec3 α)} {faces : Array (Array Nat)} {m : Mesh α}
  {found : Array (Notice α)} {seeds : List Nat} {o : Occurrence} {z : Sym2 Nat} {f g n v : Nat}

theorem mem_face_of_mem_occurrences (h : ofFaces positions faces = .ok (m, found))
    (ho : o ∈ occurrences faces z) (hv : v ∈ z) : v ∈ m.face o.face := by
  obtain ⟨face, a, b, hface, ha, hb, rfl⟩ := mem_occurrences.1 ho
  rw [Mesh.face, (of_ofFaces_eq_ok h).1, Array.getD_eq_getD_getElem?, hface, Option.getD_some,
    Array.mem_toList_iff]
  rcases Sym2.mem_iff.1 hv with rfl | rfl
  · exact Array.mem_of_getElem? ha
  · exact Array.mem_of_getElem? hb

theorem exists_common_vertex (h : ofFaces positions faces = .ok (m, found))
    (hg : g ∈ m.adjacent f) : ∃ v, v ∈ m.face f ∧ v ∈ m.face g := by
  have hlt : f < faces.size := (of_ofFaces_eq_ok h).1 ▸ lt_of_adjacent hg
  have hface : faces[f]? = some faces[f] := Array.getElem?_eq_getElem hlt
  simp only [adjacent, row_of_ofFaces h hface, List.mem_filterMap, List.mem_map, id_eq] at hg
  obtain ⟨_, ⟨edge, hedge, hacross⟩, rfl⟩ := hg
  obtain ⟨e, he⟩ := List.mem_iff_getElem?.1 hedge
  obtain ⟨a, b, rfl, hfrom⟩ :=
    exists_between_of_mem_edgePlaces (o := ⟨f, e⟩) (mem_edgePlaces.2 ⟨_, hface, he⟩)
  obtain ⟨-, e', hto⟩ := (EdgeIndex.across?_eq_some_iff.1 hacross).1
  exact ⟨a, mem_face_of_mem_occurrences h hfrom (Sym2.mem_mk_left a b),
    mem_face_of_mem_occurrences h hto (Sym2.mem_mk_left a b)⟩

theorem isStep_ribbon (h : ofFaces positions faces = .ok (m, found)) (hg : m.IsStep .face f g) :
    m.IsStep .ribbon f g := by
  obtain ⟨v, hf, hv⟩ := exists_common_vertex h hg
  exact ⟨v, hf, .single ⟨hg, hv⟩⟩

/-- What is reached across edges is reached around vertices, by induction on the steps. -/
theorem Reached.ribbon (h : ofFaces positions faces = .ok (m, found))
    (hr : m.Reached .face seeds n f) : m.Reached .ribbon seeds n f := by
  induction hr with
  | seed hf hlt => exact .seed hf hlt
  | step _ hstep ih => exact .step ih (isStep_ribbon h hstep)

end Mesh

namespace DistanceField

variable {α : Type} {positions : Array (Vec3 α)} {faces : Array (Array Nat)} {m : Mesh α}
  {found : Array (Notice α)} {f : Nat}

/-- The distance of a face is a number of steps unless it is the greatest distance, and no greater than
any number of steps. -/
theorem exists_byte (m : Mesh α) (seeds : List Nat) (mode : Mode) (hf : f < m.faceCount) :
    ∃ d, (compute m seeds mode).1.bytes[f]? = some d ∧
      (d ≠ unknown → m.Reached mode seeds d.toNat f) ∧
      ∀ n, m.Reached mode seeds n f → d.toNat ≤ n := by
  obtain ⟨p, hbytes, hprogress, hdone⟩ := progress_compute m seeds mode
  have hlt : f < p.distances.size := by rwa [hprogress.ready.size_distances]
  refine ⟨p.distance f, ?_, hprogress.reached hf, fun n => hprogress.toNat_distance_le hdone⟩
  rw [hbytes, Propagation.distance, Array.getD_eq_getD_getElem?, Array.getElem?_eq_getElem hlt,
    Option.getD_some]

/-- On a mesh whose neighbours were found from shared edges, the distance of a face around vertices is
at most its distance across edges. -/
theorem ribbon_le_face (h : Mesh.ofFaces positions faces = .ok (m, found)) (seeds : List Nat)
    (hf : f < m.faceCount) :
    ∃ r d, (compute m seeds .ribbon).1.bytes[f]? = some r ∧
      (compute m seeds .face).1.bytes[f]? = some d ∧ r ≤ d := by
  obtain ⟨r, hr, -, hle⟩ := exists_byte m seeds .ribbon hf
  obtain ⟨d, hd, hreached, -⟩ := exists_byte m seeds .face hf
  refine ⟨r, d, hr, hd, UInt8.le_iff_toNat_le.2 ?_⟩
  by_cases hne : d = unknown
  · rw [hne]
    exact Nat.le_of_lt_succ r.toNat_lt
  · exact hle d.toNat ((hreached hne).ribbon h)

/-- Three faces at one edge, of which the last names a vertex twice. -/
def fin : Array (Array Nat) := #[#[0, 1, 2], #[1, 0, 3], #[0, 1, 4, 4]]

/-- The first face lies across the edge from both others, so that a way across edges from the last to
the second leads over it, and a walk around the common vertex is not longer. -/
theorem ribbon_le_face_fin :
    ∃ (m : Mesh Float) (found : Array (Notice Float)) (r d : UInt8),
      Mesh.ofFaces (Array.replicate 5 .zero) fin = .ok (m, found) ∧ 1 < m.faceCount ∧
      (compute m [2, 9] .ribbon).1.bytes[1]? = some r ∧
      (compute m [2, 9] .face).1.bytes[1]? = some d ∧ r ≤ d := by
  obtain ⟨m, found, hok⟩ := Mesh.exists_ofFaces (α := Float) (.replicate 5 .zero) fin (by decide)
  have hlt : 1 < m.faceCount := by
    rw [Mesh.faceCount, (Mesh.of_ofFaces_eq_ok hok).1]
    decide
  obtain ⟨r, d, hr, hd, hle⟩ := ribbon_le_face hok [2, 9] hlt
  exact ⟨m, found, r, d, hok, hlt, hr, hd, hle⟩

end DistanceField

end DoubleCurve
