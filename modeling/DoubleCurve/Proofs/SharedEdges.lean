import DoubleCurve.Mesh
import Mathlib.Data.List.Rotate
import Mathlib.Data.Set.Card
import Mathlib.Data.Sym.Sym2
import Mathlib.Order.Bounds.Basic

/-!
# Faces across shared edges

`edgeAt?` reads off a list of faces which two vertices an edge of a face joins, in
no order, and `occurrences` are the places at which two vertices are joined. What
a mesh is given for neighbours is said in these terms:

* `Mesh.exists_row_entry`: across an edge lies the first other face that has it;
* `Mesh.exists_crowded`: an edge that occurs more than twice is reported where it
  occurs first;
* `Mesh.row_symm`: across an edge that occurs no more than twice, two faces lie
  across from each other.

The index of edges lists the occurrences of an edge in order
(`EdgeIndex.mem_getD_ofFaces`, `EdgeIndex.pairwise_getD_ofFaces`), so that the
first one found is the least one there is.
-/

namespace DoubleCurve

/-- The vertices joined by an edge of a face: the one with the same number, and the next one or,
after the last, the first. -/
def edgeAt? (faces : Array (Array Nat)) (o : Occurrence) : Option (Sym2 Nat) := do
  let face ← faces[o.face]?
  let v ← face[o.edge]?
  let w ← face[(o.edge + 1) % face.size]?
  return s(v, w)

/-- The places at which two vertices are joined by an edge. -/
def occurrences (faces : Array (Array Nat)) (z : Sym2 Nat) : Set Occurrence :=
  {o | edgeAt? faces o = some z}

/-- Whether a place comes before another: in an earlier face, or earlier in the same face. -/
def Occurrence.Before (o o' : Occurrence) : Prop :=
  o.face < o'.face ∨ o.face = o'.face ∧ o.edge < o'.edge

/-- Whether this is the first of these places. -/
def Occurrence.IsFirst (o : Occurrence) (places : Set Occurrence) : Prop :=
  o ∈ places ∧ ∀ o' ∈ places, o' = o ∨ o.Before o'

theorem Occurrence.IsFirst.unique {o o' : Occurrence} {places : Set Occurrence}
    (h : o.IsFirst places) (h' : o'.IsFirst places) : o = o' := by
  rcases h.2 o' h'.1 with rfl | hlt
  · rfl
  · rcases h'.2 o h.1 with rfl | hgt
    · rfl
    · rcases hlt with hlt | hlt <;> rcases hgt with hgt | hgt <;> omega

theorem Occurrence.Before.face_le {o o' : Occurrence} (h : o.Before o') : o.face ≤ o'.face := by
  rcases h with h | h <;> omega

theorem Occurrence.Before.ne {o o' : Occurrence} (h : o.Before o') : o ≠ o' := by
  rintro rfl
  rcases h with h | h <;> omega

variable {faces : Array (Array Nat)} {o o' : Occurrence} {edge : Edge} {z : Sym2 Nat}
  {a b f g v : Nat}

theorem mem_occurrences : o ∈ occurrences faces z ↔ ∃ face v w, faces[o.face]? = some face ∧
    face[o.edge]? = some v ∧ face[(o.edge + 1) % face.size]? = some w ∧ s(v, w) = z := by
  simp [occurrences, edgeAt?, Option.bind_eq_some_iff]

/-! ## All places of edges -/

namespace Edge

theorem between_eq_between_iff {c d : Nat} : between a b = between c d ↔ s(a, b) = s(c, d) := by
  rw [Sym2.eq_iff, between, between, Edge.mk.injEq]
  omega

theorem getElem?_around {face : Array Nat} {e : Nat} : (around face)[e]? = some edge ↔
    ∃ v w, face[e]? = some v ∧ face[(e + 1) % face.size]? = some w ∧ between v w = edge := by
  rcases Nat.lt_or_ge e face.size with he | he
  · have hrotate : face.toList.drop 1 ++ face.toList.take 1 = face.toList.rotate 1 := by
      rw [List.rotate_eq_drop_append_take]
      rw [Array.length_toList]
      omega
    rw [around, List.getElem?_zipWith_eq_some, hrotate, List.getElem?_rotate (by simpa using he)]
    simp only [Array.getElem?_toList, Array.length_toList]
  · rw [List.getElem?_eq_none (by rwa [length_around]), Array.getElem?_eq_none he]
    simp

end Edge

theorem mem_edgePlaces : (edge, o) ∈ edgePlaces faces ↔
    ∃ face, faces[o.face]? = some face ∧ (Edge.around face)[o.edge]? = some edge := by
  simp only [edgePlaces, List.mem_flatMap, List.mem_map, Prod.exists, List.mem_zipIdx_iff_getElem?,
    Array.getElem?_toList, Prod.mk.injEq]
  constructor
  · rintro ⟨face, f, hface, edge, e, hedge, rfl, rfl⟩
    exact ⟨face, hface, hedge⟩
  · rintro ⟨face, hface, hedge⟩
    exact ⟨face, o.face, hface, edge, o.edge, hedge, rfl, rfl⟩

/-- The places of an edge are where its vertices are joined. -/
theorem between_mem_edgePlaces :
    (Edge.between a b, o) ∈ edgePlaces faces ↔ o ∈ occurrences faces s(a, b) := by
  simp only [mem_edgePlaces, mem_occurrences, Edge.getElem?_around, Edge.between_eq_between_iff,
    exists_and_left]

theorem exists_between_of_mem_edgePlaces (h : (edge, o) ∈ edgePlaces faces) :
    ∃ a b, edge = Edge.between a b ∧ o ∈ occurrences faces s(a, b) := by
  obtain ⟨face, hface, hedge⟩ := mem_edgePlaces.1 h
  obtain ⟨a, b, -, -, rfl⟩ := Edge.getElem?_around.1 hedge
  exact ⟨a, b, rfl, between_mem_edgePlaces.1 h⟩

theorem pairwise_snd_zipIdx {β : Type} (l : List β) : l.zipIdx.Pairwise fun p q => p.2 < q.2 := by
  rw [← List.pairwise_map (f := Prod.snd) (R := (· < ·)), List.zipIdx_map_snd]
  exact List.pairwise_lt_range'

theorem pairwise_edgePlaces (faces : Array (Array Nat)) :
    (edgePlaces faces).Pairwise fun p q => p.2.Before q.2 := by
  rw [edgePlaces, List.pairwise_flatMap]
  refine ⟨fun face _ => ?_, (pairwise_snd_zipIdx _).imp fun {p q} hpq x hx y hy => ?_⟩
  · rw [List.pairwise_map]
    exact (pairwise_snd_zipIdx _).imp fun hpq => .inr ⟨rfl, hpq⟩
  · obtain ⟨-, -, rfl⟩ := List.mem_map.1 hx
    obtain ⟨-, -, rfl⟩ := List.mem_map.1 hy
    exact .inl hpq

/-! ## What the index lists -/

namespace EdgeIndex

/-- The index lists under an edge the places at which its vertices are joined. -/
theorem mem_getD_ofFaces :
    o ∈ (ofFaces faces).getD (Edge.between a b) [] ↔ o ∈ occurrences faces s(a, b) := by
  rw [getD_ofFaces, ← between_mem_edgePlaces]
  simp

theorem pairwise_getD_ofFaces (faces : Array (Array Nat)) (edge : Edge) :
    ((ofFaces faces).getD edge []).Pairwise Occurrence.Before := by
  rw [getD_ofFaces, List.pairwise_map]
  exact (pairwise_edgePlaces faces).filter _

theorem length_getD_ofFaces (faces : Array (Array Nat)) (a b : Nat) :
    ((ofFaces faces).getD (Edge.between a b) []).length = (occurrences faces s(a, b)).ncard := by
  have hnodup : ((ofFaces faces).getD (Edge.between a b) []).Nodup :=
    (pairwise_getD_ofFaces faces _).imp fun {o o'} h (heq : o = o') => h.ne heq
  rw [← List.toFinset_card_of_nodup hnodup, ← Set.ncard_coe_finset]
  congr 1
  ext o
  rw [Finset.mem_coe, List.mem_toFinset, mem_getD_ofFaces]

/-- The first place that is listed is the first one there is. -/
theorem isFirst_of_head? (h : ((ofFaces faces).getD (Edge.between a b) []).head? = some o) :
    o.IsFirst (occurrences faces s(a, b)) := by
  have hsorted := pairwise_getD_ofFaces faces (Edge.between a b)
  obtain ⟨rest, hrest⟩ := List.head?_eq_some_iff.1 h
  refine ⟨mem_getD_ofFaces.1 (hrest ▸ List.mem_cons_self), fun o' ho' => ?_⟩
  rw [← mem_getD_ofFaces, hrest] at ho'
  rw [hrest] at hsorted
  exact (List.mem_cons.1 ho').imp_right fun ho' => (List.pairwise_cons.1 hsorted).1 o' ho'

/-- Of places in order, the first one found in another face is in the face with the lowest number. -/
theorem isLeast_of_find? {places : List Occurrence} (hsorted : places.Pairwise Occurrence.Before)
    (h : places.find? (fun o => o.face != f) = some o) :
    IsLeast {g | g ≠ f ∧ ∃ e, ⟨g, e⟩ ∈ places} o.face := by
  obtain ⟨hne, before, after, rfl, hbefore⟩ := List.find?_eq_some_iff_append.1 h
  refine ⟨⟨bne_iff_ne.1 hne, o.edge, List.mem_append_right _ List.mem_cons_self⟩, ?_⟩
  rintro g ⟨hg, e, hmem⟩
  rcases List.mem_append.1 hmem with hmem | hmem
  · have hno := hbefore _ hmem
    rw [Bool.not_eq_true', bne_eq_false_iff_eq] at hno
    exact absurd hno hg
  · rcases List.mem_cons.1 hmem with heq | hmem
    · exact Nat.le_of_eq (congrArg Occurrence.face heq).symm
    · exact ((List.pairwise_cons.1 (List.pairwise_append.1 hsorted).2.1).1 _ hmem).face_le

/-- Across an edge of a face lies the other face with the lowest number that has the edge. -/
theorem across?_eq_some_iff : (ofFaces faces).across? f (Edge.between a b) = some g ↔
    IsLeast {g | g ≠ f ∧ ∃ e, ⟨g, e⟩ ∈ occurrences faces s(a, b)} g := by
  have hset : {g | g ≠ f ∧ ∃ e, ⟨g, e⟩ ∈ occurrences faces s(a, b)} =
      {g | g ≠ f ∧ ∃ e, ⟨g, e⟩ ∈ (ofFaces faces).getD (Edge.between a b) []} := by
    simp only [mem_getD_ofFaces]
  have hleast {o : Occurrence} := isLeast_of_find? (f := f) (o := o)
    (pairwise_getD_ofFaces faces (Edge.between a b))
  rw [hset, across?, Option.map_eq_some_iff]
  constructor
  · rintro ⟨o, ho, rfl⟩
    exact hleast ho
  · intro hg
    obtain ⟨hne, e, he⟩ := hg.1
    obtain ⟨o, ho⟩ := Option.isSome_iff_exists.1
      (List.find?_isSome.2 ⟨_, he, bne_iff_ne.2 hne⟩ : (List.find? (fun o => o.face != f) _).isSome)
    exact ⟨o, ho, (hleast ho).unique hg⟩

/-- Nothing lies across an edge that no other face has. -/
theorem across?_eq_none_iff : (ofFaces faces).across? f (Edge.between a b) = none ↔
    ∀ o ∈ occurrences faces s(a, b), o.face = f := by
  rw [across?, Option.map_eq_none_iff, List.find?_eq_none]
  simp only [mem_getD_ofFaces, bne_iff_ne, ne_eq, not_not]

/-- An edge is crowded at a place if it occurs more than twice and occurs there first. -/
theorem isCrowded_iff : (ofFaces faces).isCrowded (Edge.between a b) o = true ↔
    2 < (occurrences faces s(a, b)).ncard ∧ o.IsFirst (occurrences faces s(a, b)) := by
  simp only [isCrowded, Bool.and_eq_true, decide_eq_true_iff, beq_iff_eq, length_getD_ofFaces]
  refine and_congr_right fun _ => ⟨isFirst_of_head?, fun ho => ?_⟩
  obtain ⟨o', ho'⟩ : ∃ o', ((ofFaces faces).getD (Edge.between a b) []).head? = some o' :=
    ⟨_, List.head?_eq_some_head (List.ne_nil_of_mem (mem_getD_ofFaces.2 ho.1))⟩
  rw [ho', (isFirst_of_head? ho').unique ho]

end EdgeIndex

theorem finite_occurrences (faces : Array (Array Nat)) (z : Sym2 Nat) :
    (occurrences faces z).Finite := by
  induction z with
  | _ a b =>
    refine (List.finite_toSet ((EdgeIndex.ofFaces faces).getD (Edge.between a b) [])).subset ?_
    exact fun o ho => EdgeIndex.mem_getD_ofFaces.2 ho

theorem exists_isFirst (h : (occurrences faces z).Nonempty) :
    ∃ o : Occurrence, o.IsFirst (occurrences faces z) := by
  induction z with
  | _ a b =>
    obtain ⟨o, ho⟩ := h
    have hne := List.ne_nil_of_mem (EdgeIndex.mem_getD_ofFaces.2 ho)
    exact ⟨_, EdgeIndex.isFirst_of_head? (List.head?_eq_some_head hne)⟩

/-! ## Meshes of these faces -/

namespace Mesh

variable {α : Type} {positions : Array (Vec3 α)} {m : Mesh α} {found : Array (Notice α)}

theorem of_ofFaces_eq_ok (h : ofFaces positions faces = .ok (m, found)) :
    m.faces = faces ∧ m.neighbours = sharedEdges faces ∧
      found = (EdgeIndex.ofFaces faces).notices (edgePlaces faces) := by
  unfold ofFaces at h
  split at h
  · cases h
  · cases h
    exact ⟨rfl, rfl, rfl⟩

theorem exists_ofFaces (positions : Array (Vec3 α)) (faces : Array (Array Nat))
    (h : facesFault? (α := α) positions.size faces = none) :
    ∃ m found, ofFaces positions faces = .ok (m, found) := by
  unfold ofFaces
  split
  · rename_i hfault
    rw [h] at hfault
    cases hfault
  · exact ⟨_, _, rfl⟩

/-- The entries of a face are what the index finds across its edges. -/
theorem row_of_ofFaces (h : ofFaces positions faces = .ok (m, found)) {face : Array Nat}
    (hface : faces[f]? = some face) :
    m.row f = (Edge.around face).map ((EdgeIndex.ofFaces faces).across? f) := by
  obtain ⟨-, hrows, -⟩ := of_ofFaces_eq_ok h
  rw [row, hrows, sharedEdges, Array.getD_eq_getD_getElem?, Array.getElem?_mapIdx, hface]
  rfl

theorem getElem?_row_of_ofFaces (h : ofFaces positions faces = .ok (m, found))
    (ho : o ∈ occurrences faces s(a, b)) : (m.row o.face)[o.edge]? =
      some ((EdgeIndex.ofFaces faces).across? o.face (Edge.between a b)) := by
  obtain ⟨face, hface, hedge⟩ := mem_edgePlaces.1 (between_mem_edgePlaces.2 ho)
  rw [row_of_ofFaces h hface, List.getElem?_map, hedge, Option.map_some]

/-- Across an edge lies the other face with the lowest number that has the edge, if there is one. -/
theorem exists_row_entry (h : ofFaces positions faces = .ok (m, found))
    (ho : o ∈ occurrences faces z) : ∃ entry, (m.row o.face)[o.edge]? = some entry ∧
      (∀ g, entry = some g ↔ IsLeast {g | g ≠ o.face ∧ ∃ e, ⟨g, e⟩ ∈ occurrences faces z} g) ∧
      (entry = none ↔ ∀ o' ∈ occurrences faces z, o'.face = o.face) := by
  induction z with
  | _ a b =>
    exact ⟨_, getElem?_row_of_ofFaces h ho, fun g => EdgeIndex.across?_eq_some_iff,
      EdgeIndex.across?_eq_none_iff⟩

/-- There is a notice for every edge that occurs more than twice, where it occurs first and in the
order of these places. -/
theorem exists_crowded (h : ofFaces positions faces = .ok (m, found)) :
    ∃ crowded : List (Sym2 Nat × Occurrence),
      found.toList = crowded.map (fun place =>
        .warning (.crowdedEdge place.2.face place.2.edge)) ∧
      (∀ place, place ∈ crowded ↔ 2 < (occurrences faces place.1).ncard ∧
        place.2.IsFirst (occurrences faces place.1)) ∧
      (crowded.map Prod.snd).Pairwise Occurrence.Before := by
  obtain ⟨-, -, rfl⟩ := of_ofFaces_eq_ok h
  have hends (a b : Nat) :
      s((Edge.between a b).low, (Edge.between a b).high) = s(a, b) := by
    simp only [Sym2.eq_iff, Edge.between]
    omega
  refine ⟨((edgePlaces faces).filter fun place =>
    (EdgeIndex.ofFaces faces).isCrowded place.1 place.2).map fun place =>
      (s(place.1.low, place.1.high), place.2), ?_, fun place => ?_, ?_⟩
  · rw [EdgeIndex.notices, List.map_map]
    rfl
  · obtain ⟨z, o⟩ := place
    simp only [List.mem_map, List.mem_filter, Prod.exists, Prod.mk.injEq]
    constructor
    · rintro ⟨edge, o, ⟨hmem, hcrowded⟩, rfl, rfl⟩
      obtain ⟨a, b, rfl, -⟩ := exists_between_of_mem_edgePlaces hmem
      rw [hends]
      exact EdgeIndex.isCrowded_iff.1 hcrowded
    · induction z with
      | _ a b =>
        intro hcrowded
        exact ⟨_, o, ⟨between_mem_edgePlaces.2 hcrowded.2.1, EdgeIndex.isCrowded_iff.2 hcrowded⟩,
          hends a b, rfl⟩
  · rw [List.map_map, List.pairwise_map]
    exact (pairwise_edgePlaces faces).filter _

/-- Where no edge occurs more than twice, the face across an edge has the first face across that
edge. -/
theorem row_symm (h : ofFaces positions faces = .ok (m, found))
    (hz : (occurrences faces z).ncard ≤ 2) (ho : o ∈ occurrences faces z)
    (hg : (m.row o.face)[o.edge]? = some (some g)) :
    ∃ e, ⟨g, e⟩ ∈ occurrences faces z ∧ (m.row g)[e]? = some (some o.face) := by
  obtain ⟨entry, hentry, hleast, -⟩ := exists_row_entry h ho
  rw [hg, Option.some.injEq] at hentry
  obtain ⟨hne, e, he⟩ := ((hleast g).1 hentry.symm).1
  have hpair : {o, ⟨g, e⟩} = occurrences faces z := by
    have hsub : {o, ⟨g, e⟩} ⊆ occurrences faces z :=
      Set.insert_subset ho (Set.singleton_subset_iff.2 he)
    refine Set.eq_of_subset_of_ncard_le hsub ?_ (finite_occurrences faces z)
    rwa [Set.ncard_pair fun heq => hne (congrArg Occurrence.face heq).symm]
  obtain ⟨back, hback, hleast, -⟩ := exists_row_entry h he
  refine ⟨e, he, ?_⟩
  rw [hback, (hleast o.face).2 ⟨⟨hne.symm, o.edge, ho⟩, ?_⟩]
  -- the only place in another face is the one we came from
  rintro g' ⟨hg', e', he'⟩
  rw [← hpair] at he'
  rcases he' with heq | heq
  · exact Nat.le_of_eq (congrArg Occurrence.face heq).symm
  · exact absurd (congrArg Occurrence.face heq) hg'

/-- Across every edge of an accepted face lies the other face with the lowest number that has the edge,
if there is one. There is one notice for every edge that occurs more than twice and none for others,
each where the edge occurs first and in the order of these places. If there is none, the face across an
edge has the first face across that edge. -/
theorem neighbours_of_ofFaces (h : ofFaces positions faces = .ok (m, found)) :
    m.faces = faces ∧
    (∀ z, ∀ o ∈ occurrences faces z, ∃ entry, (m.row o.face)[o.edge]? = some entry ∧
      (∀ g, entry = some g ↔ IsLeast {g | g ≠ o.face ∧ ∃ e, ⟨g, e⟩ ∈ occurrences faces z} g) ∧
      (entry = none ↔ ∀ o' ∈ occurrences faces z, o'.face = o.face)) ∧
    (∃ crowded : List (Sym2 Nat × Occurrence),
      found.toList = crowded.map (fun place =>
        .warning (.crowdedEdge place.2.face place.2.edge)) ∧
      (crowded.map Prod.fst).Nodup ∧
      (∀ z, z ∈ crowded.map Prod.fst ↔ 2 < (occurrences faces z).ncard) ∧
      (∀ place ∈ crowded, place.2.IsFirst (occurrences faces place.1)) ∧
      (crowded.map Prod.snd).Pairwise Occurrence.Before) ∧
    (found = #[] → ∀ z, ∀ o ∈ occurrences faces z, ∀ g,
      (m.row o.face)[o.edge]? = some (some g) →
        ∃ e, ⟨g, e⟩ ∈ occurrences faces z ∧ (m.row g)[e]? = some (some o.face)) := by
  obtain ⟨crowded, hfound, hmem, hsorted⟩ := exists_crowded h
  have hkeys (z : Sym2 Nat) :
      z ∈ crowded.map Prod.fst ↔ 2 < (occurrences faces z).ncard := by
    rw [List.mem_map]
    constructor
    · rintro ⟨place, hplace, rfl⟩
      exact ((hmem place).1 hplace).1
    · intro hz
      obtain ⟨o, ho⟩ := exists_isFirst (Set.nonempty_of_ncard_ne_zero (Nat.ne_zero_of_lt hz))
      exact ⟨(z, o), (hmem (z, o)).2 ⟨hz, ho⟩, rfl⟩
  refine ⟨(of_ofFaces_eq_ok h).1, fun z o ho => exists_row_entry h ho,
    ⟨crowded, hfound, ?_, hkeys, fun place hplace => ((hmem place).1 hplace).2, hsorted⟩,
    fun hnone z o ho g hg => row_symm h ?_ ho hg⟩
  · refine List.pairwise_map.2 ((List.pairwise_map.1 hsorted).imp_of_mem ?_)
    intro p q hp hq hpq heq
    exact hpq.ne (((hmem p).1 hp).2.unique (heq ▸ ((hmem q).1 hq).2))
  · rw [hnone, List.nil_eq, List.map_eq_nil_iff] at hfound
    by_contra hz
    have := (hkeys z).2 (Nat.not_le.1 hz)
    rw [hfound] at this
    cases this

/-- Two faces beside each other, and one with two edges between the vertices they share. -/
def pages : Array (Array Nat) := #[#[0, 1, 2], #[1, 0, 3], #[0, 1, 0]]

/-- Across the edge that the three faces share lies the first other face, and the edge is reported in
the first face. Without the third face nothing is reported, and the two lie across the edge from each
other. -/
theorem neighbours_of_ofFaces_pages :
    (∃ (m : Mesh Float) (found : Array (Notice Float)),
      ofFaces (Array.replicate 4 .zero) pages = .ok (m, found) ∧
      (m.row 2)[1]? = some (some 0) ∧ .warning (.crowdedEdge 0 0) ∈ found.toList) ∧
    ∃ (m : Mesh Float) (found : Array (Notice Float)),
      ofFaces (Array.replicate 4 .zero) pages.pop = .ok (m, found) ∧ found = #[] ∧
      (m.row 0)[0]? = some (some 1) ∧ ∃ e : Nat, (m.row 1)[e]? = some (some 0) := by
  refine ⟨?_, ?_⟩
  · obtain ⟨m, found, hok⟩ := exists_ofFaces (α := Float) (.replicate 4 .zero) pages (by decide)
    obtain ⟨-, hrow, ⟨crowded, hfound, -, hkeys, hfirst, -⟩, -⟩ := neighbours_of_ofFaces hok
    have hmem (o : Occurrence) (h : edgeAt? pages o = some s(0, 1)) :
        o ∈ occurrences pages s(0, 1) := h
    refine ⟨m, found, hok, ?_, ?_⟩
    · obtain ⟨entry, hentry, hleast, -⟩ := hrow s(0, 1) ⟨2, 1⟩ (hmem _ (by decide))
      rw [hentry, (hleast 0).2 ⟨⟨by decide, 0, hmem _ (by decide)⟩, fun g _ => Nat.zero_le g⟩]
    · have hcrowded : s(0, 1) ∈ crowded.map Prod.fst := by
        rw [hkeys, Set.two_lt_ncard (finite_occurrences _ _)]
        exact ⟨⟨0, 0⟩, hmem _ (by decide), ⟨1, 0⟩, hmem _ (by decide), ⟨2, 0⟩, hmem _ (by decide),
          by decide, by decide, by decide⟩
      obtain ⟨place, hplace, heq⟩ := List.mem_map.1 hcrowded
      have hplaced := hfirst place hplace
      rw [heq] at hplaced
      rw [hfound, List.mem_map]
      refine ⟨place, hplace, ?_⟩
      rcases hplaced.2 ⟨0, 0⟩ (hmem _ (by decide)) with hzero | hlt | hlt
      · rw [← hzero]
      · exact absurd hlt (Nat.not_lt_zero _)
      · exact absurd hlt.2 (Nat.not_lt_zero _)
  · obtain ⟨m, found, hok⟩ := exists_ofFaces (α := Float) (.replicate 4 .zero) pages.pop (by decide)
    obtain ⟨-, hrow, -, hsymm⟩ := neighbours_of_ofFaces hok
    have hnone : found = #[] := by
      rw [(of_ofFaces_eq_ok hok).2.2, EdgeIndex.notices]
      simp only [EdgeIndex.isCrowded, EdgeIndex.getD_ofFaces]
      decide
    have hmem (o : Occurrence) (h : edgeAt? pages.pop o = some s(0, 1)) :
        o ∈ occurrences pages.pop s(0, 1) := h
    obtain ⟨entry, hentry, hleast, -⟩ := hrow s(0, 1) ⟨0, 0⟩ (hmem _ (by decide))
    have hone : (m.row 0)[0]? = some (some 1) := by
      rw [hentry, (hleast 1).2 ⟨⟨by decide, 0, hmem _ (by decide)⟩,
        fun g hg => Nat.one_le_iff_ne_zero.2 hg.1⟩]
    obtain ⟨e, -, he⟩ := hsymm hnone s(0, 1) ⟨0, 0⟩ (hmem _ (by decide)) 1 hone
    exact ⟨m, found, hok, hnone, hone, e, he⟩

end Mesh

end DoubleCurve
