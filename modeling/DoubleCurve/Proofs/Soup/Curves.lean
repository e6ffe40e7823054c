import DoubleCurve.Proofs.Soup.Separated

/-!
# The curves of a soup

A family of curves whose vertices differ and whose edges are long enough is found
again in every soup of its edges (`Trace.curves_of_shuffle`). The trace starts at
one segment after another, and each start that finds its segment free makes the
whole curve that the segment belongs to (`Tracer.retraced`). In between, some
curves have been traced and the segments of the others are free
(`Tracer.Progress`).
-/

namespace DoubleCurve

namespace Settings

variable {α : Type} [Scalar α]

/-- Whether two vertices that are joined are neither collapsed nor taken for the end of a curve. -/
def KeepsApart (settings : Settings α) (p q : Vec3 α) : Prop :=
  settings.shortLength < p.distance q ∧ settings.openEndGap < p.distance q

instance (settings : Settings α) (p q : Vec3 α) : Decidable (settings.KeepsApart p q) :=
  inferInstanceAs (Decidable (_ ∧ _))

end Settings

namespace Trace

variable {α : Type} [Scalar α] {m : Matching α} {family : List (Curve α)}
  {runs done todo : List (List Endpoint × Curve α)} {e : Endpoint} {k : Nat}

namespace Tracer

variable {t : Tracer α}

/-- What a trace needs to find the curves of a family. -/
structure Finds (t : Tracer α) (m : Matching α) (family : List (Curve α))
    (runs : List (List Endpoint × Curve α)) : Prop where
  traceable : m.Traceable
  junctions : t.junctions = m.junctions
  segments : t.segments = m.segments
  laid : m.segments.Laid family runs
  included {a : Endpoint} : a.index < m.segments.size → m.isExcluded a = false
  meets : m.links.Meets m.segments
  whole {r : List Endpoint × Curve α} : r ∈ runs → m.links.Whole r.2.closed r.1
  long {r : List Endpoint × Curve α} : r ∈ runs → r.2.closed = true → 2 < r.1.length
  apart {a : Endpoint} : a.index < m.segments.size →
    t.shortLength < (m.segments.point a).distance (m.segments.point a.twin) ∧
      t.openEndGap < (m.segments.point a).distance (m.segments.point a.twin)

/-- What has been traced from the first `k` starts: the curves of `done`, while the segments of those
of `todo` are free. -/
structure Progress (t : Tracer α) (m : Matching α) (runs : List (List Endpoint × Curve α)) (k : Nat)
    (done todo : List (List Endpoint × Curve α)) : Prop where
  perm : (done ++ todo).Perm runs
  curves : List.Forall₂ Curve.Retraces (t.after m k).curves.toList (done.map Prod.snd)
  isFree_iff {a : Endpoint} : (t.after m k).state.isFree a = true ↔
    ∃ r ∈ todo, a.segment ∈ r.1.map Endpoint.segment
  links : (t.after m k).state.links = m.links
  notices : (t.after m k).state.notices = #[]

theorem progress_zero (h : t.Finds m family runs) : t.Progress m runs 0 [] runs := by
  refine ⟨.refl _, ?_, fun {a} => ?_, ?_, ?_⟩
  · rw [after_zero]
    exact .nil
  · rw [after_zero]
    refine State.isFree_start.trans ?_
    have hentries : a.segment ∈ (Segments.entries runs).map Endpoint.segment ↔
        ∃ r ∈ runs, a.segment ∈ r.1.map Endpoint.segment := by
      rw [Segments.entries, List.map_flatMap, List.mem_flatMap]
    rw [h.traceable.size_excluded, ← hentries, h.laid.mem_iff]
    exact ⟨fun ha => ha.1, fun ha => ⟨ha, h.included ha⟩⟩
  · rw [after_zero]
    rfl
  · rw [after_zero]
    rfl

theorem addCurve_eq {curves : Array (Curve α)} {l : Links} {s : Strand}
    (h : 1 < (t.vertices l s).length) :
    t.addCurve curves l s = curves.push ⟨curves.size, t.vertices l s, s.isClosed l⟩ :=
  if_neg (Nat.not_le.2 h)

/-- The strand of a free segment is the curve that the segment belongs to. -/
theorem strand_retraces (h : t.Finds m family runs) {s s' : State α} {es : List Endpoint}
    {strand : Strand} {r : List Endpoint × Curve α} (hr : r ∈ runs)
    (hs : Stranded m s e es (strand, s')) (hlinks : s'.links = m.links)
    (he : e.segment ∈ r.1.map Endpoint.segment) :
    (es.map Endpoint.segment).Perm (r.1.map Endpoint.segment) ∧
      strand.isDegenerate s'.links = false ∧ 1 < (t.vertices s'.links strand).length ∧
      ∀ id, Curve.Retraces ⟨id, t.vertices s'.links strand, strand.isClosed s'.links⟩ r.2 := by
  have hw := h.whole hr
  have hsw : m.links.Whole (strand.isCycle s'.links) es := hlinks ▸ hs.whole
  have hperm := hw.perm hsw he hs.mem
  obtain ⟨hcycle, way, hway, hrotated, heq⟩ := hw.eq_or_isRotated hsw he hs.mem
  have hlen : es.length = r.1.length := by
    have := hperm.length_eq
    rwa [List.length_map, List.length_map] at this
  have hdegenerate := hs.isDegenerate_eq
  have hclosed := hs.isClosed_eq
  dsimp only at hdegenerate hclosed
  rw [hcycle, hlen] at hdegenerate hclosed
  have hlt {a : Endpoint} (ha : a ∈ es) : a.index < m.segments.size := by
    have hmem := hperm.subset (List.mem_map_of_mem ha)
    obtain ⟨b, hb, hba⟩ := List.mem_map.1 hmem
    rw [← h.laid.mem_iff, ← hba]
    exact List.mem_map_of_mem (Segments.mem_entries hr hb)
  have hvertices : t.vertices s'.links strand = m.segments.along (strand.isClosed s'.links) es := by
    rw [← h.segments]
    refine hs.vertices_eq (fun hab => ?_) fun a ha => ?_
    · rw [h.segments]
      exact (h.meets.get_iff.1 (hlinks ▸ hab)).2.2
    · rw [h.segments]
      exact h.apart (hlt ha)
  have hboth : strand.isDegenerate s'.links = false ∧ strand.isClosed s'.links = r.2.closed := by
    rw [hdegenerate, hclosed]
    cases hc : r.2.closed with
    | false => exact ⟨rfl, rfl⟩
    | true =>
      have hlong := h.long hr hc
      rw [decide_eq_false (Nat.not_le.2 hlong), decide_eq_true hlong]
      exact ⟨rfl, rfl⟩
  rw [hvertices, hboth.2]
  refine ⟨hperm, hboth.1, ?_, h.laid.retraces hw.ne_nil hr hway hrotated heq⟩
  rw [Segments.length_along _ hsw.ne_nil, hlen]
  cases hc : r.2.closed with
  | true => exact Nat.lt_of_succ_lt (h.long hr hc)
  | false => exact Nat.succ_lt_succ (List.length_pos_iff.2 hw.ne_nil)

/-- A start that finds its segment free makes the curve that the segment belongs to. -/
theorem retraced (h : t.Finds m family runs) (hp : t.Progress m runs k done todo)
    (hk : t.starts[k]? = some e) (he : (t.after m k).state.isFree e = true) :
    ∃ r todo', todo.Perm (r :: todo') ∧ t.Progress m runs (k + 1) (done ++ [r]) todo' := by
  obtain ⟨r, hr, her⟩ := hp.isFree_iff.1 he
  obtain ⟨A, B, rfl⟩ := List.append_of_mem hr
  have htodo : (A ++ r :: B).Perm (r :: (A ++ B)) := List.perm_middle
  have hperm : (done ++ r :: (A ++ B)).Perm runs := (htodo.symm.append_left done).trans hp.perm
  have hrun : r ∈ runs := hp.perm.subset (List.mem_append_right done hr)
  obtain ⟨es, hs⟩ := stranded h.traceable h.junctions
    (standing_after h.traceable h.junctions k) he
  have hpaired : (t.after m k).state.links.Paired := hp.links.symm ▸ h.meets.paired
  obtain ⟨hlinks, hnotices⟩ := strand_of_paired (t := t) (e := e) hpaired
  obtain ⟨⟨strand, s'⟩, hstrand⟩ : ∃ x, t.strand (t.after m k).state e = x := ⟨_, rfl⟩
  rw [hstrand] at hs hlinks hnotices
  dsimp only at hlinks hnotices
  rw [hp.links] at hlinks
  obtain ⟨hsegments, hdegenerate, hvertices, hretraces⟩ := strand_retraces h hrun hs hlinks her
  have hnext : t.after m (k + 1) =
      ⟨s', (t.after m k).curves.push
        ⟨(t.after m k).curves.size, t.vertices s'.links strand, strand.isClosed s'.links⟩⟩ := by
    rcases traceFrom_of_isFree he hstrand with ⟨hd, -⟩ | ⟨-, heq⟩
    · rw [hdegenerate] at hd
      cases hd
    · rw [after_succ hk, heq, addCurve_eq hvertices]
  refine ⟨r, A ++ B, htodo, ?_, ?_, fun {a} => ?_, ?_, ?_⟩
  · rwa [List.append_assoc, List.singleton_append]
  · rw [hnext, Array.toList_push, List.map_append]
    exact List.rel_append hp.curves (.cons (hretraces _) .nil)
  · rw [hnext]
    refine hs.trail.isFree_iff.trans ?_
    rw [hp.isFree_iff, hsegments.mem_iff]
    constructor
    · rintro ⟨⟨q, hq, haq⟩, hnot⟩
      rcases List.mem_cons.1 (htodo.subset hq) with rfl | hq
      · exact absurd haq hnot
      · exact ⟨q, hq, haq⟩
    · rintro ⟨q, hq, haq⟩
      exact ⟨⟨q, htodo.symm.subset (List.mem_cons_of_mem r hq), haq⟩,
        h.laid.not_mem_of_mem hperm hq haq⟩
  · rw [hnext]
    exact hlinks
  · rw [hnext]
    exact hnotices.trans hp.notices

theorem Progress.skip (hp : t.Progress m runs k done todo) (h : t.after m (k + 1) = t.after m k) :
    t.Progress m runs (k + 1) done todo := by
  refine ⟨hp.perm, ?_, ?_, ?_, ?_⟩
  · rw [h]
    exact hp.curves
  · rw [h]
    exact hp.isFree_iff
  · rw [h]
    exact hp.links
  · rw [h]
    exact hp.notices

/-- There is progress from every number of starts, by induction on it. -/
theorem exists_progress (h : t.Finds m family runs) (k : Nat) :
    ∃ done todo, t.Progress m runs k done todo := by
  induction k with
  | zero => exact ⟨[], runs, progress_zero h⟩
  | succ k ih =>
    obtain ⟨done, todo, hp⟩ := ih
    cases hk : t.starts[k]? with
    | none =>
      exact ⟨done, todo, hp.skip (after_succ_of_eq_none hk)⟩
    | some e =>
      cases he : (t.after m k).state.isFree e with
      | false =>
        refine ⟨done, todo, hp.skip ?_⟩
        rw [after_succ hk, traceFrom_of_isFree_eq_false he]
      | true =>
        obtain ⟨r, todo', -, hp'⟩ := retraced h hp hk he
        exact ⟨done ++ [r], todo', hp'⟩

/-- In the end all curves of the family have been traced. -/
theorem traceAll_retraces (h : t.Finds m family runs) :
    (t.traceAll (.start m)).state.notices = #[] ∧ ∃ order, order.Perm family ∧
      List.Forall₂ Curve.Retraces (t.traceAll (.start m)).curves.toList order := by
  obtain ⟨done, todo, hp⟩ := exists_progress h t.starts.length
  have hall := after_of_length_le (t := t) (m := m) (Nat.le_refl _)
  have hnil : todo = [] := by
    rcases todo.eq_nil_or_concat with hnil | ⟨rest, r, hrest⟩
    · exact hnil
    · -- the segments of a curve would be free that was not traced
      have hr : r ∈ todo := by
        rw [hrest, List.concat_eq_append]
        exact List.mem_append_right rest (List.mem_singleton_self r)
      have hne := (h.whole (hp.perm.subset (List.mem_append_right done hr))).ne_nil
      obtain ⟨x, hx⟩ := List.exists_mem_of_ne_nil _ hne
      have hfree := hp.isFree_iff.2 ⟨r, hr, List.mem_map_of_mem hx⟩
      rw [hall, isFree_traceAll h.traceable h.junctions h.segments] at hfree
      cases hfree
  have hperm := hp.perm
  rw [hnil, List.append_nil] at hperm
  refine ⟨?_, done.map Prod.snd, ?_, ?_⟩
  · rw [← hall]
    exact hp.notices
  · rw [← h.laid.curves]
    exact hperm.map Prod.snd
  · rw [← hall]
    exact hp.curves

end Tracer

variable {settings settings' : Settings α} {soup : List (Vec3 α × Vec3 α)}

/-- The tracer of a matching finds the curves of the family it was made of. -/
theorem finds_ofMatching [LawfulScalar α] (hm : m.Traceable)
    (hof : m = (Matching.ofSegments m.segments settings).1)
    (hl : m.segments.Laid family runs) (hsep : Curve.Separated settings.matching family)
    (hbase : m.segments.baseSize = m.segments.size) (hs : m.segments.size < 0x100000000)
    (hapart : ∀ c ∈ family, ∀ e ∈ c.edges, settings'.KeepsApart e.1 e.2) :
    (Tracer.ofMatching m settings').Finds m family runs := by
  have hmeets : m.links.Meets m.segments := by
    rw [hof]
    exact (hl.meets hsep hbase hs).1
  have hwhole {r : List Endpoint × Curve α} (hr : r ∈ runs) := hl.whole hsep hmeets hr
  refine ⟨hm, rfl, rfl, hl, fun ha => ?_, hmeets, hwhole, fun {r} hr hc => ?_, fun {a} ha => ?_⟩
  · rw [hof, Matching.isExcluded_ofSegments (Nat.le_of_lt hs)
      ((Segments.mem_endpoints (Nat.le_of_lt hs)).2 ha)]
    exact hl.isExcluded_eq_false hsep hbase ha
  · have hlong := (hsep.proper (hl.mem_family hr)).length_edges.2 hc
    rwa [← hl.edges hr, List.length_map] at hlong
  · rcases hl.mem_or ha with hentry | hentry
    · obtain ⟨c, hc, hedge⟩ := hl.exists_edge hentry
      exact hapart c hc _ hedge
    · obtain ⟨c, hc, hedge⟩ := hl.exists_edge hentry
      have hback := hapart c hc _ hedge
      rw [Segments.edge_twin] at hback
      rw [Vec3.distance_comm]
      exact hback

/-- Take a family of polygons and polylines all of whose vertices match themselves and no other, and
whose edges are long enough. From every soup of its edges, in any order and each in any direction, the
curves of the family are traced and no others, closed or open as they are, each with its vertices in
one of the two orders. The ends of the open curves are reported as unmatched, and nothing else is. -/
theorem curves_of_shuffle [LawfulScalar α] (hv : settings.validate = .ok ())
    (hsymmetry : settings.symmetry = 1) (hsize : 2 * soup.length ≤ Segments.greatestSize)
    (hsep : Curve.Separated settings.matching family)
    (hapart : ∀ c ∈ family, ∀ e ∈ c.edges, settings'.KeepsApart e.1 e.2)
    (h : IsShuffle soup (family.flatMap Curve.edges)) :
    ∃ m order,
      Matching.build (soupPoints soup) settings = .ok (m,
        (m.unmatched.map fun e => .info (.unmatchedEndpoint e (m.segments.point e))).toArray) ∧
      (m.unmatched.map m.segments.point).Perm (family.flatMap Curve.tips) ∧
      order.Perm family ∧ List.Forall₂ Curve.Retraces (curves m settings').1.toList order ∧
      (curves m settings').2 = #[] := by
  have heven : (soupPoints soup).size % 2 = 0 := by
    rw [size_soupPoints]
    omega
  obtain ⟨hpoints, hbase⟩ := Segments.points_replicate_one (soupPoints soup) heven
  have hlen : (Segments.replicate (soupPoints soup) 1).size = 2 * soup.length := by
    rw [Segments.size, hpoints, size_soupPoints]
  have hlt : (Segments.replicate (soupPoints soup) 1).size < 0x100000000 := by
    rw [hlen]
    exact Nat.lt_of_le_of_lt hsize (by decide)
  have hsize' : Segments.evenPart (soupPoints soup).size * settings.symmetry ≤ Segments.greatestSize := by
    rw [hsymmetry, Nat.mul_one, Segments.evenPart, heven, Nat.sub_zero, size_soupPoints]
    exact hsize
  have hbuild := Matching.build_eq_ok hv hsize'
  rw [hsymmetry, Matching.oddNotice, if_neg (by omega), Array.empty_append] at hbuild
  have hm := Matching.traceable_of_build hbuild
  obtain ⟨runs, hl⟩ := Segments.exists_laid (by omega) h
  rw [size_soupPoints, ← hlen] at hbase
  generalize Segments.replicate (soupPoints soup) 1 = s at hlt hbuild hm hl hbase
  obtain ⟨hmeets, hnotices⟩ := hl.meets hsep hbase hlt
  have hunmatched : (Matching.ofSegments s settings).1.unmatched = s.endpoints.filter fun e =>
      (Matching.ofSegments s settings).1.links.get e = .unpaired := by
    refine List.filter_congr fun e he => ?_
    have hmem := (Segments.mem_endpoints (Nat.le_of_lt hlt)).1 he
    rw [Matching.isExcluded_ofSegments (Nat.le_of_lt hlt) he, hl.isExcluded_eq_false hsep hbase hmem]
    rfl
  obtain ⟨hquiet, order, hperm, hcurves⟩ :=
    Tracer.traceAll_retraces (finds_ofMatching hm rfl hl hsep hbase hlt hapart)
  refine ⟨(Matching.ofSegments s settings).1, order, ?_, ?_, hperm, hcurves, hquiet⟩
  · rw [hbuild, hnotices, ← hunmatched]
    rfl
  · rw [hunmatched]
    exact hl.perm_tips hsep hmeets hlt

/-- A triangle and a polyline of three vertices beside it. -/
def triangleAndPath : List (Curve Float) :=
  [⟨0, [⟨0, 0, 0⟩, ⟨1, 0, 0⟩, ⟨0, 1, 0⟩], true⟩, ⟨1, [⟨3, 0, 0⟩, ⟨4, 0, 0⟩, ⟨4, 1, 0⟩], false⟩]

/-- Their edges, some of them in the opposite direction. -/
def triangleAndPathSoup : List (Vec3 Float × Vec3 Float) :=
  [(⟨0, 1, 0⟩, ⟨1, 0, 0⟩), (⟨0, 0, 0⟩, ⟨1, 0, 0⟩), (⟨0, 1, 0⟩, ⟨0, 0, 0⟩), (⟨4, 0, 0⟩, ⟨3, 0, 0⟩),
    (⟨4, 0, 0⟩, ⟨4, 1, 0⟩)]

/-- The triangle and the path are found again with the standard settings. -/
theorem curves_of_shuffle_triangleAndPath :
    ∃ m order, Matching.build (soupPoints triangleAndPathSoup) .standard = .ok (m,
        (m.unmatched.map fun e => .info (.unmatchedEndpoint e (m.segments.point e))).toArray) ∧
      (m.unmatched.map m.segments.point).Perm (triangleAndPath.flatMap Curve.tips) ∧
      order.Perm triangleAndPath ∧
      List.Forall₂ Curve.Retraces (curves m .standard).1.toList order ∧
      (curves m .standard).2 = #[] := by
  have hproper : ∀ c ∈ triangleAndPath, c.IsProper := by decide
  have hself : ∀ p ∈ triangleAndPath.flatMap Curve.points,
      p.near (Settings.standard (α := Float)).matching p = true := by
    decide +kernel
  have hpairs : (triangleAndPath.flatMap Curve.points).Pairwise fun p q =>
      p.near (Settings.standard (α := Float)).matching q = false := by
    decide +kernel
  have hshuffle : IsShuffle triangleAndPathSoup (triangleAndPath.flatMap Curve.edges) :=
    ⟨_, .swap _ _ _, .cons (.inr rfl) (.cons (.inl rfl) (.cons (.inl rfl) (.cons (.inr rfl)
      (.cons (.inl rfl) .nil))))⟩
  exact curves_of_shuffle rfl rfl (by decide) ⟨hproper _, hself _, hpairs⟩ (by decide +kernel) hshuffle

end Trace

end DoubleCurve
