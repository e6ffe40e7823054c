import DoubleCurve.Proofs.Soup.Edges
import DoubleCurve.Segments

/-!
# Where curves lie in a soup

Every edge of a family is one segment of the soup, and the direction of the curve
says at which endpoint it is entered. `Segments.Laid` lists for every curve the
endpoints at which its segments are entered one after another (`exists_laid`).
-/

namespace DoubleCurve

variable {α : Type}

/-! ## The segments of a soup -/

/-- The points of a soup of edges, two by two. -/
def soupPoints (soup : List (Vec3 α × Vec3 α)) : Array (Vec3 α) :=
  (soup.flatMap fun e => [e.1, e.2]).toArray

/-- The first endpoints of `n` segments. -/
def Endpoint.starts (n : Nat) : List Endpoint := (List.range n).map fun i => ofIndex (2 * i)

theorem getElem?_flatMap_pair (soup : List (Vec3 α × Vec3 α)) (i : Nat) :
    (soup.flatMap fun e => [e.1, e.2])[2 * i]? = soup[i]?.map Prod.fst ∧
      (soup.flatMap fun e => [e.1, e.2])[2 * i + 1]? = soup[i]?.map Prod.snd := by
  induction soup generalizing i with
  | nil => exact ⟨rfl, rfl⟩
  | cons e soup ih =>
    rw [List.flatMap_cons]
    cases i with
    | zero => exact ⟨rfl, rfl⟩
    | succ i => exact ih i

theorem size_soupPoints (soup : List (Vec3 α × Vec3 α)) :
    (soupPoints soup).size = 2 * soup.length := by
  rw [soupPoints, List.size_toArray]
  induction soup with
  | nil => rfl
  | cons e soup ih =>
    rw [List.flatMap_cons, List.length_append, ih]
    show 2 + _ = 2 * (soup.length + 1)
    omega

theorem map_segment_starts {n : Nat} (h : 2 * n ≤ 0x100000000) :
    (Endpoint.starts n).map Endpoint.segment = List.range n := by
  rw [Endpoint.starts, List.map_map]
  refine (List.map_congr_left fun i hi => ?_).trans (List.map_id _)
  rw [List.mem_range] at hi
  show (Endpoint.ofIndex (2 * i)).segment = i
  rw [Endpoint.segment, Endpoint.index_ofIndex (by omega)]
  omega

namespace Segments

variable [Scalar α] {s : Segments α} {soup : List (Vec3 α × Vec3 α)} {e : Endpoint}

/-- The edge along the segment of `e`, from `e` on. -/
def edge (s : Segments α) (e : Endpoint) : Vec3 α × Vec3 α := (s.point e, s.point e.twin)

theorem edge_twin (s : Segments α) (e : Endpoint) : s.edge e.twin = (s.edge e).swap := by
  rw [edge, Endpoint.twin_twin]
  rfl

theorem points_replicate_one (points : Array (Vec3 α)) (h : points.size % 2 = 0) :
    (replicate points 1).points = points ∧ (replicate points 1).baseSize = points.size := by
  have heven : evenPart points.size = points.size := by
    rw [evenPart, h, Nat.sub_zero]
  refine ⟨?_, heven⟩
  show #[] ++ copy (points.take (evenPart points.size)) 1 0 = points
  rw [copy, if_pos rfl, Array.empty_append, heven]
  exact Array.extract_size

/-- The segments of a soup, from their first endpoints on, are its edges. -/
theorem map_edge_starts (h : 2 * soup.length ≤ 0x100000000) :
    (Endpoint.starts soup.length).map (replicate (soupPoints soup) 1).edge = soup := by
  have heven : (soupPoints soup).size % 2 = 0 := by
    rw [size_soupPoints]
    omega
  apply List.ext_getElem?
  intro i
  rw [List.getElem?_map, Endpoint.starts, List.getElem?_map]
  rcases Nat.lt_or_ge i soup.length with hi | hi
  · obtain ⟨hfst, hsnd⟩ := getElem?_flatMap_pair soup i
    rw [List.getElem?_range hi, List.getElem?_eq_getElem hi]
    rw [List.getElem?_eq_getElem hi] at hfst hsnd
    have hindex : (Endpoint.ofIndex (2 * i)).index = 2 * i := Endpoint.index_ofIndex (by omega)
    have htwin : (Endpoint.ofIndex (2 * i)).twin.index = 2 * i + 1 := by
      rw [Endpoint.index_twin, hindex, if_pos (by omega)]
    rw [Option.map_some, Option.map_some, edge, point, point, (points_replicate_one _ heven).1, hindex,
      htwin, Array.getD_eq_getD_getElem?, Array.getD_eq_getD_getElem?, soupPoints,
      List.getElem?_toArray, List.getElem?_toArray, hfst, hsnd]
    rfl
  · rw [List.getElem?_eq_none (by rwa [List.length_range]), List.getElem?_eq_none hi]
    rfl

/-! ## Layouts -/

/-- All endpoints at which curves enter their segments. -/
def entries (runs : List (List Endpoint × Curve α)) : List Endpoint := runs.flatMap Prod.fst

/-- How a family of curves lies in segments: at which endpoints each of them enters its segments, one
after another. -/
structure Laid (s : Segments α) (family : List (Curve α)) (runs : List (List Endpoint × Curve α)) :
    Prop where
  curves : runs.map Prod.snd = family
  edges {r : List Endpoint × Curve α} : r ∈ runs → r.1.map s.edge = r.2.edges
  nodup : ((entries runs).map Endpoint.segment).Nodup
  mem_iff {e : Endpoint} : e.segment ∈ (entries runs).map Endpoint.segment ↔ e.index < s.size

omit [Scalar α] in
theorem mem_entries {runs : List (List Endpoint × Curve α)} {r : List Endpoint × Curve α}
    (hr : r ∈ runs) (he : e ∈ r.1) : e ∈ entries runs := List.mem_flatMap.2 ⟨r, hr, he⟩

theorem Laid.not_mem_of_mem {family : List (Curve α)}
    {runs front rest : List (List Endpoint × Curve α)} {r q : List Endpoint × Curve α} {n : Nat}
    (hl : s.Laid family runs) (hperm : (front ++ r :: rest).Perm runs) (hq : q ∈ rest)
    (hn : n ∈ q.1.map Endpoint.segment) : n ∉ r.1.map Endpoint.segment := by
  have hnodup := hl.nodup
  rw [entries, List.map_flatMap] at hnodup
  have hall := (hperm.flatMap_right _).nodup_iff.2 hnodup
  rw [List.flatMap_append] at hall
  have hdisjoint := (List.pairwise_cons.1 (List.nodup_flatMap.1 hall.of_append_right).2).1 q hq
  exact fun hr => hdisjoint hr hn

/-- If edges are the same up to direction as those of some segments, they are those of the segments
from one of the endpoints on. -/
theorem exists_entries {es : List Endpoint} {edges : List (Vec3 α × Vec3 α)}
    (h : List.Forall₂ SameEdge (es.map s.edge) edges) :
    ∃ fs : List Endpoint, fs.map s.edge = edges ∧ fs.map Endpoint.segment = es.map Endpoint.segment := by
  rw [List.forall₂_map_left_iff] at h
  induction h with
  | nil => exact ⟨[], rfl, rfl⟩
  | @cons e f es edges hef _ ih =>
    obtain ⟨fs, hedges, hsegments⟩ := ih
    rcases hef with hef | hef
    · refine ⟨e :: fs, ?_, ?_⟩
      · rw [List.map_cons, hef, hedges]
      · rw [List.map_cons, List.map_cons, hsegments]
    · refine ⟨e.twin :: fs, ?_, ?_⟩
      · rw [List.map_cons, edge_twin, hef, hedges]
        rfl
      · rw [List.map_cons, List.map_cons, hsegments, Endpoint.segment_twin]

omit [Scalar α] in
/-- What is listed along the edges of a family is listed along those of each of its curves. -/
theorem exists_runs {f : Endpoint → Vec3 α × Vec3 α} {fs : List Endpoint} {family : List (Curve α)}
    (h : fs.map f = family.flatMap Curve.edges) :
    ∃ runs : List (List Endpoint × Curve α), runs.map Prod.snd = family ∧ entries runs = fs ∧
      ∀ r ∈ runs, r.1.map f = r.2.edges := by
  induction family generalizing fs with
  | nil => exact ⟨[], rfl, (List.map_eq_nil_iff.1 h).symm, by simp⟩
  | cons c family ih =>
    rw [List.flatMap_cons, List.map_eq_append_iff] at h
    obtain ⟨es, rest, rfl, hes, hrest⟩ := h
    obtain ⟨runs, hcurves, hentries, hedges⟩ := ih hrest
    refine ⟨(es, c) :: runs, ?_, ?_, fun r hr => ?_⟩
    · rw [List.map_cons, hcurves]
    · rw [entries, List.flatMap_cons, ← entries, hentries]
    · rcases List.mem_cons.1 hr with rfl | hr
      · exact hes
      · exact hedges r hr

/-- A family lies in every soup of its edges. -/
theorem exists_laid {family : List (Curve α)} (hsize : 2 * soup.length ≤ 0x100000000)
    (h : IsShuffle soup (family.flatMap Curve.edges)) :
    ∃ runs, (replicate (soupPoints soup) 1).Laid family runs := by
  obtain ⟨edges, hperm, hsame⟩ := h
  rw [← map_edge_starts hsize] at hsame
  obtain ⟨fs, hedges, hsegments⟩ := exists_entries hsame
  rw [map_segment_starts hsize] at hsegments
  -- the endpoints are put into the order of the family together with their edges
  obtain ⟨fs', hto, hperm'⟩ : ∃ fs' : List Endpoint,
      family.flatMap Curve.edges = fs'.map (replicate (soupPoints soup) 1).edge ∧ fs'.Perm fs := by
    have hfs : (family.flatMap Curve.edges).Perm (fs.map (replicate (soupPoints soup) 1).edge) :=
      hedges ▸ hperm.symm
    exact (congrFun₂ (List.eq_map_comp_perm _) _ _).mpr hfs
  obtain ⟨runs, hcurves, rfl, hruns⟩ := exists_runs hto.symm
  have hall := hperm'.map Endpoint.segment
  rw [hsegments] at hall
  have hn : (replicate (soupPoints soup) 1).size = 2 * soup.length := by
    have heven : (soupPoints soup).size % 2 = 0 := by
      rw [size_soupPoints]
      omega
    rw [size, (points_replicate_one _ heven).1, size_soupPoints]
  refine ⟨runs, hcurves, fun hr => hruns _ hr, ?_, fun {e} => ?_⟩
  · exact hall.nodup_iff.2 List.nodup_range
  · rw [hall.mem_iff, List.mem_range, hn, Endpoint.segment]
    omega

end Segments

end DoubleCurve
