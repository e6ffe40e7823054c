import DoubleCurve.Proofs.LawfulScalar
import DoubleCurve.Proofs.Matching.Grouping
import DoubleCurve.Proofs.Soup.Layout
import DoubleCurve.Proofs.Trace.Paired

/-!
# Families whose vertices differ

Where no two vertices of a family match (`Curve.Separated`), matching tells them
apart: at every vertex one segment is entered and one is left, or only one of them
if it is the end of an open curve. So two endpoints are linked exactly if they lie
at the same vertex (`Links.Meets`, `Segments.Laid.meets`), the segments of a curve
are a whole chain (`Segments.Laid.whole`), and the endpoints that are reported are
the ends of the open curves (`Segments.Laid.perm_tips`).
-/

namespace DoubleCurve

variable {α : Type} [Scalar α] {tolerance : α} {family : List (Curve α)}

namespace Curve

/-- Whether all vertices of a family of proper curves match themselves and no other. -/
structure Separated (tolerance : α) (family : List (Curve α)) : Prop where
  proper {c : Curve α} : c ∈ family → c.IsProper
  near_self {p : Vec3 α} : p ∈ family.flatMap points → p.near tolerance p = true
  apart : (family.flatMap points).Pairwise fun p q => p.near tolerance q = false

namespace Separated

variable {p q : Vec3 α}

theorem nodup (h : Separated tolerance family) : (family.flatMap points).Nodup := by
  refine h.apart.imp_of_mem fun {p q} hp _ hpq heq => ?_
  rw [← heq, h.near_self hp] at hpq
  cases hpq

theorem near_iff [LawfulScalar α] (h : Separated tolerance family) (hp : p ∈ family.flatMap points)
    (hq : q ∈ family.flatMap points) : p.near tolerance q = true ↔ p = q := by
  constructor
  · intro hnear
    by_contra hne
    have : Std.Symm fun p q : Vec3 α => p.near tolerance q = false :=
      ⟨fun p q hpq => by rwa [Vec3.near_comm]⟩
    rw [h.apart.forall hp hq hne] at hnear
    cases hnear
  · rintro rfl
    exact h.near_self hp

end Separated

end Curve

/-- Whether two endpoints are linked exactly if they lie at the same point. -/
structure Links.Meets (l : Links) (s : Segments α) : Prop where
  get_iff {a b : Endpoint} : l.get a = .endpoint b ↔
    (a.index < s.size ∧ b.index < s.size) ∧ b ≠ a ∧ s.point a = s.point b
  ne_junction (a : Endpoint) (j : Junction) : l.get a ≠ .junction j

namespace Links.Meets

variable {l : Links} {s : Segments α}

/-- What meets in pairs is paired. -/
theorem paired (h : l.Meets s) : l.Paired where
  returned hab := by
    obtain ⟨⟨ha, hb⟩, hne, hp⟩ := h.get_iff.1 hab
    exact h.get_iff.2 ⟨⟨hb, ha⟩, hne.symm, hp.symm⟩
  ne_junction := h.ne_junction

theorem unpaired_iff (h : l.Meets s) {e : Endpoint} :
    l.get e = .unpaired ↔ ∀ b, l.get e ≠ .endpoint b := by
  cases hl : l.get e with
  | unpaired => simp
  | endpoint b => simp
  | junction j => exact absurd hl (h.ne_junction e j)

end Links.Meets

namespace Segments

variable {s : Segments α} {runs : List (List Endpoint × Curve α)} {e f x y : Endpoint}

namespace Laid

/-! ## Endpoints and vertices -/

theorem map_point (hl : s.Laid family runs) :
    (entries runs).map s.point = family.flatMap fun c => c.edges.map Prod.fst := by
  rw [entries, List.map_flatMap, ← hl.curves, List.flatMap_map]
  refine List.flatMap_congr fun r hr => ?_
  rw [← hl.edges hr, List.map_map]
  rfl

theorem map_point_twin (hl : s.Laid family runs) :
    ((entries runs).map fun e => s.point e.twin) =
      family.flatMap fun c => c.edges.map Prod.snd := by
  rw [entries, List.map_flatMap, ← hl.curves, List.flatMap_map]
  refine List.flatMap_congr fun r hr => ?_
  rw [← hl.edges hr, List.map_map]
  rfl

/-- An endpoint is one at which its segment is entered or one at which it is left. -/
theorem mem_or (hl : s.Laid family runs) (he : e.index < s.size) :
    e ∈ entries runs ∨ e.twin ∈ entries runs := by
  obtain ⟨f, hf, hfe⟩ := List.mem_map.1 (hl.mem_iff.2 he)
  rcases Endpoint.segment_eq_iff.1 hfe with rfl | rfl
  · exact .inl hf
  · exact .inr hf

theorem index_lt (hl : s.Laid family runs) (he : e ∈ entries runs) : e.index < s.size :=
  hl.mem_iff.1 (List.mem_map_of_mem he)

theorem index_twin_lt (hl : s.Laid family runs) (he : e.index < s.size) : e.twin.index < s.size := by
  rw [← hl.mem_iff, Endpoint.segment_twin]
  exact hl.mem_iff.2 he

/-- A segment is entered where an edge departs. -/
theorem mem_departures (hl : s.Laid family runs) {p : Vec3 α} :
    (p ∈ family.flatMap fun c => c.edges.map Prod.fst) ↔ ∃ e ∈ entries runs, s.point e = p := by
  rw [← hl.map_point, List.mem_map]

/-- A segment is left where an edge arrives. -/
theorem mem_arrivals (hl : s.Laid family runs) {p : Vec3 α} :
    (p ∈ family.flatMap fun c => c.edges.map Prod.snd) ↔ ∃ e ∈ entries runs, s.point e.twin = p := by
  rw [← hl.map_point_twin, List.mem_map]

theorem mem_vertices (hl : s.Laid family runs) (he : e.index < s.size) :
    s.point e ∈ family.flatMap Curve.points := by
  rcases hl.mem_or he with h | h
  · refine (Curve.perm_departures family).subset (List.mem_append_left _ ?_)
    exact hl.mem_departures.2 ⟨e, h, rfl⟩
  · refine (Curve.perm_arrivals family).subset (List.mem_append_right _ ?_)
    exact hl.mem_arrivals.2 ⟨e.twin, h, by rw [Endpoint.twin_twin]⟩

theorem eq_of_point (hl : s.Laid family runs) (hn : (family.flatMap Curve.points).Nodup)
    (he : e ∈ entries runs) (hf : f ∈ entries runs) (h : s.point e = s.point f) : e = f := by
  have hdeparts := ((Curve.perm_departures family).nodup_iff.2 hn).of_append_left
  rw [← hl.map_point] at hdeparts
  exact List.inj_on_of_nodup_map hdeparts he hf h

theorem eq_of_point_twin (hl : s.Laid family runs) (hn : (family.flatMap Curve.points).Nodup)
    (he : e.twin ∈ entries runs) (hf : f.twin ∈ entries runs) (h : s.point e = s.point f) :
    e = f := by
  have harrives := ((Curve.perm_arrivals family).nodup_iff.2 hn).of_append_right
  rw [← hl.map_point_twin] at harrives
  have htwin : e.twin = f.twin := by
    refine List.inj_on_of_nodup_map harrives he hf ?_
    rw [Endpoint.twin_twin, Endpoint.twin_twin, h]
  rw [← e.twin_twin, htwin, Endpoint.twin_twin]

/-- No three endpoints are at one vertex. -/
theorem eq_or_of_point (hl : s.Laid family runs) (hn : (family.flatMap Curve.points).Nodup)
    (he : e.index < s.size) (hx : x.index < s.size) (hy : y.index < s.size)
    (hex : s.point e = s.point x) (hey : s.point e = s.point y) : e = x ∨ e = y ∨ x = y := by
  have hxy : s.point x = s.point y := hex.symm.trans hey
  rcases hl.mem_or he with he | he
  · rcases hl.mem_or hx with hx | hx
    · exact .inl (hl.eq_of_point hn he hx hex)
    · rcases hl.mem_or hy with hy | hy
      · exact .inr (.inl (hl.eq_of_point hn he hy hey))
      · exact .inr (.inr (hl.eq_of_point_twin hn hx hy hxy))
  · rcases hl.mem_or hx with hx | hx
    · rcases hl.mem_or hy with hy | hy
      · exact .inr (.inr (hl.eq_of_point hn hx hy hxy))
      · exact .inr (.inl (hl.eq_of_point_twin hn he hy hey))
    · exact .inl (hl.eq_of_point_twin hn he hx hex)

theorem exists_edge (hl : s.Laid family runs) (he : e ∈ entries runs) :
    ∃ c ∈ family, s.edge e ∈ c.edges := by
  obtain ⟨r, hr, her⟩ := List.mem_flatMap.1 he
  refine ⟨r.2, ?_, ?_⟩
  · rw [← hl.curves]
    exact List.mem_map_of_mem hr
  · rw [← hl.edges hr]
    exact List.mem_map_of_mem her

/-- The two endpoints of a segment are at different vertices. -/
theorem point_ne (hl : s.Laid family runs) (hsep : Curve.Separated tolerance family)
    (he : e.index < s.size) : s.point e ≠ s.point e.twin := by
  have hentered {e : Endpoint} (he : e ∈ entries runs) : s.point e ≠ s.point e.twin := by
    obtain ⟨c, hc, hedge⟩ := hl.exists_edge he
    exact (hsep.proper hc).ne_of_mem_edges ((List.nodup_flatMap.1 hsep.nodup).1 c hc) hedge
  rcases hl.mem_or he with he | he
  · exact hentered he
  · have := hentered he
    rw [Endpoint.twin_twin] at this
    exact this.symm

/-! ## Matching -/

theorem isExcluded_eq_false [LawfulScalar α] (hl : s.Laid family runs)
    (hsep : Curve.Separated tolerance family) (hbase : s.baseSize = s.size) (he : e.index < s.size) :
    s.isExcluded tolerance e = false := by
  have hstart : (start e).index < s.size := by
    rw [start]
    split
    · exact he
    · exact hl.index_twin_lt he
  have hsource : s.source (start e) = start e := by
    rw [source, hbase, Nat.mod_eq_of_lt hstart, Endpoint.ofIndex_index, ite_self]
  have hdegenerate : (s.point (start e) == s.point (start e).twin) = false := by
    by_contra hbeq
    rw [Bool.not_eq_false] at hbeq
    have hmem := hl.mem_vertices hstart
    have hnear := Vec3.near_of_beq hbeq (hsep.near_self hmem)
    exact hl.point_ne hsep hstart
      ((hsep.near_iff hmem (hl.mem_vertices (hl.index_twin_lt hstart))).1 hnear)
  have hself : decide (s.baseSize ≤ (start e).index) = false := by
    rw [decide_eq_false_iff_not, hbase]
    omega
  rw [isExcluded, isDegenerate, isSelfImage, hsource, hself, Bool.false_and, Bool.or_false]
  exact hdegenerate

theorem participants_eq [LawfulScalar α] (hl : s.Laid family runs)
    (hsep : Curve.Separated tolerance family) (hbase : s.baseSize = s.size)
    (hs : s.size < 0x100000000) : Matching.participants s tolerance = s.endpoints := by
  refine List.filter_eq_self.2 fun e he => ?_
  rw [hl.isExcluded_eq_false hsep hbase ((mem_endpoints (Nat.le_of_lt hs)).1 he)]
  rfl

theorem coincides_iff [LawfulScalar α] (hl : s.Laid family runs) (hsep : Curve.Separated tolerance family)
    (scale : α) (he : e.index < s.size) (hf : f.index < s.size) :
    Matcher.coincides ⟨s, tolerance, scale⟩ e f = true ↔ s.point e = s.point f := by
  have hmatch : Matcher.matching ⟨s, tolerance, scale⟩ e f = true ↔ s.point e = s.point f :=
    hsep.near_iff (hl.mem_vertices he) (hl.mem_vertices hf)
  rw [Matcher.coincides_iff, hmatch]
  exact or_iff_right_of_imp fun hfe => hfe ▸ rfl

theorem exact [LawfulScalar α] (hl : s.Laid family runs) (hsep : Curve.Separated tolerance family) (scale : α)
    (hs : s.size < 0x100000000) : Matcher.Exact ⟨s, tolerance, scale⟩ s.endpoints := by
  have hlt {a : Endpoint} (ha : a ∈ s.endpoints) : a.index < s.size :=
    (mem_endpoints (Nat.le_of_lt hs)).1 ha
  have hmatch {a b : Endpoint} (ha : a ∈ s.endpoints) (hb : b ∈ s.endpoints) :=
    hl.coincides_iff hsep scale (hlt ha) (hlt hb)
  refine ⟨fun hx hy hxy => ?_, fun hx hy hz hxy hyz => ?_, fun {x y} hx hy hxy => ?_⟩
  · exact (hmatch hy hx).2 ((hmatch hx hy).1 hxy).symm
  · exact (hmatch hx hz).2 (((hmatch hx hy).1 hxy).trans ((hmatch hy hz).1 hyz))
  · show Cell.ofPoint scale (s.point x) = Cell.ofPoint scale (s.point y)
    rw [(hmatch hx hy).1 hxy]

/-- In the matching of a soup, endpoints are linked that lie at the same vertex, and those are
reported that are not linked. -/
theorem meets [LawfulScalar α] {settings : Settings α} (hl : s.Laid family runs)
    (hsep : Curve.Separated settings.matching family) (hbase : s.baseSize = s.size)
    (hs : s.size < 0x100000000) :
    (Matching.ofSegments s settings).1.links.Meets s ∧
      (Matching.ofSegments s settings).2 =
        ((s.endpoints.filter fun e => (Matching.ofSegments s settings).1.links.get e = .unpaired).map
          fun e => .info (.unmatchedEndpoint e (s.point e))).toArray := by
  have hlt {a : Endpoint} : a ∈ s.endpoints ↔ a.index < s.size := mem_endpoints (Nat.le_of_lt hs)
  have hpart := hl.participants_eq hsep hbase hs
  have hexact := hl.exact hsep settings.cellScale hs
  rw [← hpart] at hexact
  have hgrouped := Matching.grouped_registered hs hexact
  rw [Matching.ofSegments_of_exact hs hexact]
  dsimp only
  rw [hpart] at hgrouped ⊢
  have hmatch {a c : Endpoint} (ha : a ∈ s.endpoints) (hc : c ∈ s.endpoints) :=
    hl.coincides_iff hsep settings.cellScale (hlt.1 ha) (hlt.1 hc)
  have hget := hgrouped.get_eq_iff (nodup_endpoints (Nat.le_of_lt hs))
    fun e he x hx y hy hex hey => hl.eq_or_of_point hsep.nodup (hlt.1 he) (hlt.1 hx) (hlt.1 hy)
      ((hmatch he hx).1 hex) ((hmatch he hy).1 hey)
  refine ⟨⟨fun {a c} => ?_, fun a => (hget a).1⟩, rfl⟩
  rw [(hget a).2 c, hlt, hlt]
  constructor
  · rintro ⟨⟨ha, hc⟩, hne, hac⟩
    exact ⟨⟨ha, hc⟩, hne, (hmatch (hlt.2 ha) (hlt.2 hc)).1 hac⟩
  · rintro ⟨⟨ha, hc⟩, hne, hac⟩
    exact ⟨⟨ha, hc⟩, hne, (hmatch (hlt.2 ha) (hlt.2 hc)).2 hac⟩

/-! ## The segments of a curve -/

variable {l : Links} {r : List Endpoint × Curve α}

/-- A segment is followed by one that is entered where it is left. -/
theorem follows (hl : s.Laid family runs) (hm : l.Meets s) (he : e ∈ entries runs)
    (hf : f ∈ entries runs) (h : s.point e.twin = s.point f) : l.Follows e f := by
  have hlt := hl.index_twin_lt (hl.index_lt he)
  have hne : f ≠ e.twin := by
    rintro rfl
    have heq := List.inj_on_of_nodup_map hl.nodup he hf e.segment_twin.symm
    exact e.twin_ne heq.symm
  exact ⟨hm.get_iff.2 ⟨⟨hlt, hl.index_lt hf⟩, hne, h⟩,
    hm.get_iff.2 ⟨⟨hl.index_lt hf, hlt⟩, hne.symm, h.symm⟩⟩

/-- The endpoint at the first vertex of an open curve is linked to nothing. -/
theorem unlinked_of_heads (hl : s.Laid family runs) (hn : (family.flatMap Curve.points).Nodup)
    (hm : l.Meets s) (he : e ∈ entries runs) (h : s.point e ∈ family.flatMap Curve.heads) (b : Endpoint) :
    l.get e ≠ .endpoint b := by
  intro hb
  obtain ⟨⟨-, hlt⟩, hne, hp⟩ := hm.get_iff.1 hb
  rcases hl.mem_or hlt with hmem | hmem
  · exact hne (hl.eq_of_point hn hmem he hp.symm)
  · have hdisjoint := List.disjoint_of_nodup_append ((Curve.perm_arrivals family).nodup_iff.2 hn)
    refine hdisjoint h (hl.mem_arrivals.2 ⟨b.twin, hmem, ?_⟩)
    rw [Endpoint.twin_twin, hp]

/-- The endpoint at the last vertex of an open curve is linked to nothing. -/
theorem unlinked_of_lasts (hl : s.Laid family runs) (hn : (family.flatMap Curve.points).Nodup)
    (hm : l.Meets s) (he : e.twin ∈ entries runs) (h : s.point e ∈ family.flatMap Curve.lasts)
    (b : Endpoint) : l.get e ≠ .endpoint b := by
  intro hb
  obtain ⟨⟨-, hlt⟩, hne, hp⟩ := hm.get_iff.1 hb
  rcases hl.mem_or hlt with hmem | hmem
  · have hdisjoint := List.disjoint_of_nodup_append ((Curve.perm_departures family).nodup_iff.2 hn)
    exact hdisjoint (hl.mem_departures.2 ⟨b, hmem, hp.symm⟩) h
  · exact hne (hl.eq_of_point_twin hn hmem he hp.symm)

theorem mem_family (hl : s.Laid family runs) (hr : r ∈ runs) : r.2 ∈ family := by
  rw [← hl.curves]
  exact List.mem_map_of_mem hr

theorem head?_edges (hl : s.Laid family runs) (hr : r ∈ runs) (hx : x ∈ r.1.head?) :
    s.edge x ∈ r.2.edges.head? := by
  rw [← hl.edges hr, List.head?_map, hx]
  rfl

theorem getLast?_edges (hl : s.Laid family runs) (hr : r ∈ runs) (hy : y ∈ r.1.getLast?) :
    s.edge y ∈ r.2.edges.getLast? := by
  rw [← hl.edges hr, List.getLast?_map, hy]
  rfl

/-- The segments of a curve make a whole chain. -/
theorem whole (hl : s.Laid family runs) (hsep : Curve.Separated tolerance family) (hm : l.Meets s)
    (hr : r ∈ runs) : l.Whole r.2.closed r.1 := by
  have hedges := hl.edges hr
  have hfollows {x y : Endpoint} (hx : x ∈ r.1) (hy : y ∈ r.1) (h : s.point x.twin = s.point y) :=
    hl.follows hm (mem_entries hr hx) (mem_entries hr hy) h
  refine ⟨?_, ?_, fun hnil => ?_, fun hc x hx y hy => ?_, fun hc x hx y hy => ?_⟩
  · have hn := hl.nodup
    rw [entries, List.map_flatMap] at hn
    exact (List.nodup_flatMap.1 hn).1 r hr
  · have hchain := r.2.isChain_edges
    rw [← hedges, List.isChain_map] at hchain
    exact hchain.imp_of_mem_imp fun x y hx hy hxy => hfollows hx hy hxy
  · have hpos := (hsep.proper (hl.mem_family hr)).length_edges.1
    rw [← hedges, hnil] at hpos
    exact absurd hpos (Nat.lt_irrefl 0)
  · exact hfollows (List.mem_of_getLast? hy) (List.mem_of_mem_head? hx)
      (Curve.edges_around hc (hl.head?_edges hr hx) (hl.getLast?_edges hr hy))
  · have hfirst : s.point x ∈ family.flatMap Curve.heads := by
      refine List.mem_flatMap.2 ⟨r.2, hl.mem_family hr, ?_⟩
      rw [Curve.heads_eq hc (hl.head?_edges hr hx)]
      exact List.mem_singleton_self _
    have hend : s.point y.twin ∈ family.flatMap Curve.lasts := by
      refine List.mem_flatMap.2 ⟨r.2, hl.mem_family hr, ?_⟩
      rw [Curve.lasts_eq hc (hl.getLast?_edges hr hy)]
      exact List.mem_singleton_self _
    rw [Link.endpoint?_eq_none_iff, Link.endpoint?_eq_none_iff]
    refine ⟨hl.unlinked_of_heads hsep.nodup hm (mem_entries hr (List.mem_of_mem_head? hx)) hfirst,
      hl.unlinked_of_lasts hsep.nodup hm ?_ hend⟩
    rw [Endpoint.twin_twin]
    exact mem_entries hr (List.mem_of_getLast? hy)

/-! ## The vertices of a curve -/

/-- The points along the segments of a curve are its vertices. -/
theorem along_eq (hl : s.Laid family runs) (hne : r.1 ≠ []) (hr : r ∈ runs) :
    s.along r.2.closed r.1 = r.2.points := by
  rw [along, ← Curve.map_fst_edges, ← hl.edges hr, List.map_map]
  refine congrArg (r.1.map s.point ++ ·) ?_
  cases hc : r.2.closed with
  | true => rw [Curve.lasts, hc, if_pos rfl, if_pos rfl]
  | false =>
    obtain ⟨y, hy⟩ : ∃ y, r.1.getLast? = some y := ⟨_, List.getLast?_eq_some_getLast hne⟩
    rw [Curve.lasts_eq hc (hl.getLast?_edges hr hy), if_neg Bool.false_ne_true, hy]
    rfl

theorem map_point_backward (s : Segments α) (es : List Endpoint) :
    (Trace.backward es).map s.point = (es.map fun e => s.point e.twin).reverse := by
  rw [Trace.backward, List.map_map, List.map_reverse]
  rfl

/-- Backwards, the points along the segments of a curve are its vertices in the opposite order. -/
theorem along_backward (hl : s.Laid family runs) (hne : r.1 ≠ []) (hr : r ∈ runs) :
    s.along r.2.closed (Trace.backward r.1) ~r r.2.points.reverse ∧
      (r.2.closed = false → s.along false (Trace.backward r.1) = r.2.points.reverse) := by
  have harrivals : (r.1.map fun e => s.point e.twin) = r.2.edges.map Prod.snd := by
    rw [← hl.edges hr, List.map_map]
    rfl
  have hopen (hc : r.2.closed = false) :
      s.along false (Trace.backward r.1) = r.2.points.reverse := by
    obtain ⟨x, hx⟩ : ∃ x, r.1.head? = some x := ⟨_, List.head?_eq_some_head hne⟩
    rw [along, if_neg Bool.false_ne_true, map_point_backward, harrivals, Trace.getLast?_backward, hx,
      ← Curve.map_snd_edges_of_open hc, Curve.heads_eq hc (hl.head?_edges hr hx), List.reverse_append]
    show _ ++ [s.point x.twin.twin] = _ ++ [s.point x]
    rw [Endpoint.twin_twin]
  refine ⟨?_, hopen⟩
  cases hc : r.2.closed with
  | false => rw [hopen hc]
  | true =>
    rw [along, if_pos rfl, List.append_nil, map_point_backward, harrivals]
    exact (Curve.map_snd_edges_of_closed hc).reverse

/-- The points along a chain of the segments of a curve, in either direction and from any of them on
if the curve is closed, make the curve. -/
theorem retraces (hl : s.Laid family runs) (hne : r.1 ≠ []) (hr : r ∈ runs)
    {es way : List Endpoint} (hway : way = r.1 ∨ way = Trace.backward r.1) (hrotated : es ~r way)
    (heq : r.2.closed = false → es = way) (id : Nat) :
    Curve.Retraces ⟨id, s.along r.2.closed es, r.2.closed⟩ r.2 := by
  refine ⟨rfl, ?_⟩
  have hforth := hl.along_eq hne hr
  obtain ⟨hback, hback'⟩ := hl.along_backward hne hr
  cases hc : r.2.closed with
  | false =>
    rw [if_neg Bool.false_ne_true, heq hc]
    rw [hc] at hforth
    rcases hway with rfl | rfl
    · exact .inl hforth
    · exact .inr (hback' hc)
  | true =>
    rw [if_pos rfl]
    rw [hc] at hforth hback
    have hclosed (es : List Endpoint) : s.along true es = es.map s.point := List.append_nil _
    have halong : s.along true es ~r s.along true way := by
      rw [hclosed, hclosed]
      exact hrotated.map s.point
    rcases hway with rfl | rfl
    · exact .inl (hforth ▸ halong)
    · exact .inr (halong.trans hback)

/-! ## The ends of open curves -/

/-- An endpoint that is linked to nothing is at the end of an open curve. -/
theorem mem_tips (hl : s.Laid family runs) (hm : l.Meets s) (he : e.index < s.size)
    (hnone : ∀ b, l.get e ≠ .endpoint b) : s.point e ∈ family.flatMap Curve.tips := by
  rcases hl.mem_or he with hentry | hentry
  · -- nothing is left where this segment is entered
    have hperm := (Curve.perm_arrivals family).symm.subset (hl.mem_vertices he)
    rcases List.mem_append.1 hperm with h | h
    · obtain ⟨c, hc, hp⟩ := List.mem_flatMap.1 h
      exact List.mem_flatMap.2 ⟨c, hc, List.mem_append_left _ hp⟩
    · obtain ⟨f, hf, hfe⟩ := hl.mem_arrivals.1 h
      exact absurd (hl.follows hm hf hentry hfe).2 (hnone _)
  · have hperm := (Curve.perm_departures family).symm.subset (hl.mem_vertices he)
    rcases List.mem_append.1 hperm with h | h
    · obtain ⟨f, hf, hfe⟩ := hl.mem_departures.1 h
      have hfollows := hl.follows hm hentry hf (by rw [Endpoint.twin_twin, hfe])
      rw [Links.Follows, Endpoint.twin_twin] at hfollows
      exact absurd hfollows.1 (hnone _)
    · obtain ⟨c, hc, hp⟩ := List.mem_flatMap.1 h
      exact List.mem_flatMap.2 ⟨c, hc, List.mem_append_right _ hp⟩

/-- At the end of an open curve there is an endpoint that is linked to nothing. -/
theorem exists_unlinked (hl : s.Laid family runs) (hsep : Curve.Separated tolerance family)
    (hm : l.Meets s) {p : Vec3 α} (hp : p ∈ family.flatMap Curve.tips) :
    ∃ e, e.index < s.size ∧ (∀ b, l.get e ≠ .endpoint b) ∧ s.point e = p := by
  obtain ⟨c, hc, hp⟩ := List.mem_flatMap.1 hp
  rw [← hl.curves] at hc
  obtain ⟨r, hr, rfl⟩ := List.mem_map.1 hc
  have hw := hl.whole hsep hm hr
  obtain ⟨x, hx⟩ : ∃ x, r.1.head? = some x := ⟨_, List.head?_eq_some_head hw.ne_nil⟩
  obtain ⟨y, hy⟩ : ∃ y, r.1.getLast? = some y := ⟨_, List.getLast?_eq_some_getLast hw.ne_nil⟩
  have hlt {e : Endpoint} (he : e ∈ r.1) := hl.index_lt (mem_entries hr he)
  cases hopen : r.2.closed with
  | true =>
    rw [Curve.tips, Curve.heads, Curve.lasts, hopen] at hp
    cases hp
  | false =>
    obtain ⟨hnone, hnone'⟩ := hw.ended hopen x hx y hy
    rw [Link.endpoint?_eq_none_iff] at hnone hnone'
    rw [Curve.tips, Curve.heads_eq hopen (hl.head?_edges hr hx),
      Curve.lasts_eq hopen (hl.getLast?_edges hr hy)] at hp
    rcases List.mem_cons.1 hp with rfl | hp
    · exact ⟨x, hlt (List.mem_of_mem_head? hx), hnone, rfl⟩
    · exact ⟨y.twin, hl.index_twin_lt (hlt (List.mem_of_getLast? hy)), hnone',
        (List.mem_singleton.1 hp).symm⟩

/-- The endpoints that are linked to nothing are at the ends of the open curves, one at each. -/
theorem perm_tips (hl : s.Laid family runs) (hsep : Curve.Separated tolerance family)
    (hm : l.Meets s) (hs : s.size < 0x100000000) :
    ((s.endpoints.filter fun e => l.get e = .unpaired).map s.point).Perm
      (family.flatMap Curve.tips) := by
  have hmem {e : Endpoint} : (e ∈ s.endpoints.filter fun e => l.get e = .unpaired) ↔
      e.index < s.size ∧ ∀ b, l.get e ≠ .endpoint b := by
    rw [List.mem_filter, mem_endpoints (Nat.le_of_lt hs), decide_eq_true_iff, hm.unpaired_iff]
  have hcurve {c : Curve α} (hc : c ∈ family) := (List.nodup_flatMap.1 hsep.nodup).1 c hc
  have htips : (family.flatMap Curve.tips).Nodup :=
    Curve.nodup_flatMap_of_subset hsep.nodup (fun c hc => (hsep.proper hc).nodup_tips (hcurve hc))
      fun c _ => c.tips_subset
  have hunlinked : ((s.endpoints.filter fun e => l.get e = .unpaired).map s.point).Nodup := by
    refine List.Nodup.map_on (fun e he f hf hef => ?_) ((nodup_endpoints (Nat.le_of_lt hs)).filter _)
    by_contra hne
    exact (hmem.1 he).2 f (hm.get_iff.2 ⟨⟨(hmem.1 he).1, (hmem.1 hf).1⟩, Ne.symm hne, hef⟩)
  rw [List.perm_ext_iff_of_nodup hunlinked htips]
  intro p
  rw [List.mem_map]
  constructor
  · rintro ⟨e, he, rfl⟩
    exact hl.mem_tips hm (hmem.1 he).1 (hmem.1 he).2
  · intro hp
    obtain ⟨e, he, hnone, rfl⟩ := hl.exists_unlinked hsep hm hp
    exact ⟨e, hmem.2 ⟨he, hnone⟩, rfl⟩

end Laid

end Segments

end DoubleCurve
