import DoubleCurve.Proofs.Trace.Strands

/-!
# The vertices of a curve

The points on the chain of a strand are collapsed in runs (`Runs`): the first of each
run is kept, no other one is farther than a short length from it, and the next one
kept is. An open curve goes on to the other end of the strand, unless the gap to it is
small. `Drawn` says what this makes of the vertices, and `Strand.Spans` what the chain
is along which they are collected.

`Tracer.draws_after` is the induction over the starts, and `draws_of_build` states it
of all curves of what was built.
-/

namespace DoubleCurve.Trace

variable {α : Type} [Scalar α] {short gap : α} {f : Endpoint → Vec3 α} {es : List Endpoint}
  {runs : List (Endpoint × List Endpoint)}

/-! ## Collapsing -/

/-- Whether these runs of endpoints, each given by its first one and the others, are what is
collapsed of a chain. -/
structure Runs (short : α) (f : Endpoint → Vec3 α) (es : List Endpoint)
    (runs : List (Endpoint × List Endpoint)) : Prop where
  flatMap_eq : (runs.flatMap fun run => run.1 :: run.2) = es
  skipped : ∀ run ∈ runs, ∀ a ∈ run.2, ¬ short < (f run.1).distance (f a)
  apart : (runs.map fun run => f run.1).IsChain fun p q => short < p.distance q

/-- Collapsing keeps the first of every run, by induction on the chain after the last one kept. -/
theorem exists_runs_after (short : α) (f : Endpoint → Vec3 α) (kept : Endpoint)
    (es : List Endpoint) :
    ∃ skipped runs, Runs short f (kept :: es) ((kept, skipped) :: runs) ∧
      collapseAfter short (f kept) (es.map f) = runs.map fun run => f run.1 := by
  induction es generalizing kept with
  | nil => exact ⟨[], [], ⟨rfl, by simp, .singleton _⟩, rfl⟩
  | cons a es ih =>
    rw [List.map_cons, collapseAfter]
    by_cases hfar : short < (f kept).distance (f a)
    · obtain ⟨skipped, runs, hruns, hkept⟩ := ih a
      refine ⟨[], (a, skipped) :: runs, ⟨?_, ?_, ?_⟩, ?_⟩
      · rw [List.flatMap_cons, hruns.flatMap_eq]
        rfl
      · rw [List.forall_mem_cons]
        exact ⟨fun b hb => absurd hb List.not_mem_nil, hruns.skipped⟩
      · exact .cons_cons hfar hruns.apart
      · rw [if_pos hfar, hkept]
        rfl
    · obtain ⟨skipped, runs, hruns, hkept⟩ := ih kept
      refine ⟨a :: skipped, runs, ⟨?_, ?_, hruns.apart⟩, ?_⟩
      · have hes := hruns.flatMap_eq
        rw [List.flatMap_cons, List.cons_append, List.cons.injEq] at hes
        rw [List.flatMap_cons, List.cons_append, List.cons_append, hes.2]
      · have hskipped := List.forall_mem_cons.1 hruns.skipped
        refine List.forall_mem_cons.2 ⟨?_, hskipped.2⟩
        exact List.forall_mem_cons.2 ⟨hfar, hskipped.1⟩
      · rw [if_neg hfar, hkept]

theorem exists_runs (short : α) (f : Endpoint → Vec3 α) (es : List Endpoint) :
    ∃ runs, Runs short f es runs ∧ collapse short (es.map f) = runs.map fun run => f run.1 := by
  cases es with
  | nil => exact ⟨[], ⟨rfl, by simp, .nil⟩, rfl⟩
  | cons kept es =>
    obtain ⟨skipped, runs, hruns, hkept⟩ := exists_runs_after short f kept es
    refine ⟨(kept, skipped) :: runs, hruns, ?_⟩
    rw [List.map_cons, collapse, hkept]
    rfl

theorem Runs.head? (h : Runs short f es runs) :
    (runs.map fun run => f run.1).head? = es.head?.map f := by
  have hes := h.flatMap_eq
  cases runs with
  | nil =>
    subst hes
    rfl
  | cons run runs =>
    rw [List.flatMap_cons, List.cons_append] at hes
    rw [← hes]
    rfl

/-- A tail is added where a gap is left to it. -/
theorem withTail_cases (gap : α) {points : List (Vec3 α)} (hne : points ≠ []) (tail : Vec3 α) :
    ∃ p ∈ points.getLast?, (¬ gap < p.distance tail ∧ withTail gap points tail = points) ∨
      gap < p.distance tail ∧ withTail gap points tail = points ++ [tail] := by
  obtain ⟨p, hp⟩ : ∃ p, points.getLast? = some p := ⟨_, List.getLast?_eq_some_getLast hne⟩
  refine ⟨p, hp, ?_⟩
  rw [withTail, hp]
  by_cases hgap : gap < p.distance tail
  · exact .inr ⟨hgap, if_pos hgap⟩
  · exact .inl ⟨hgap, if_neg hgap⟩

/-! ## One curve -/

/-- Whether a curve is drawn along a chain of endpoints, where `last` is the other end of the last
segment. -/
structure Drawn (s : Segments α) (short gap : α) (es : List Endpoint) (last : Endpoint)
    (c : Curve α) : Prop where
  two_le : 2 ≤ c.points.length
  head? : c.points.head? = es.head?.map s.point
  /-- The vertices are those kept of the chain, in its order, and on an open curve the other end of
  the last segment if a gap is left to it. -/
  exists_runs : ∃ runs, Runs short s.point es runs ∧
    (c.points = runs.map (fun run => s.point run.1) ∧
      (c.closed = false → ∃ p ∈ c.points.getLast?, ¬ gap < p.distance (s.point last)) ∨
    c.closed = false ∧ c.points = runs.map (fun run => s.point run.1) ++ [s.point last] ∧
      ∃ p ∈ (runs.map fun run => s.point run.1).getLast?, gap < p.distance (s.point last))
  /-- An open curve ends at the other end of the last segment, or no gap is left to it. -/
  ended : c.closed = false → c.points.getLast? = some (s.point last) ∨
    ∃ p ∈ c.points.getLast?, ¬ gap < p.distance (s.point last)
  apart : c.points.dropLast.IsChain fun p q => short < p.distance q
  /-- On a closed curve so are the last two. -/
  apart_closed : c.closed = true → c.points.IsChain fun p q => short < p.distance q
  /-- On an open curve the last two are farther apart than that or than the gap. -/
  apart_open : c.closed = false →
    c.points.IsChain fun p q => short < p.distance q ∨ gap < p.distance q

namespace Drawn

variable {s : Segments α} {last : Endpoint} {c : Curve α}

/-- A curve whose vertices are those kept. -/
theorem of_kept (h : Runs short s.point es runs)
    (hpoints : c.points = runs.map fun run => s.point run.1) (htwo : 2 ≤ c.points.length)
    (hopen : c.closed = false → ∃ p ∈ c.points.getLast?, ¬ gap < p.distance (s.point last)) :
    Drawn s short gap es last c where
  two_le := htwo
  head? := hpoints ▸ h.head?
  exists_runs := ⟨runs, h, .inl ⟨hpoints, hopen⟩⟩
  ended hc := .inr (hopen hc)
  apart := (hpoints ▸ h.apart).dropLast
  apart_closed _ := hpoints ▸ h.apart
  apart_open _ := (hpoints ▸ h.apart).imp fun _ _ => .inl

/-- An open curve whose vertices are those kept and the other end of the last segment. -/
theorem of_tail (h : Runs short s.point es runs) (hopen : c.closed = false)
    (hpoints : c.points = runs.map (fun run => s.point run.1) ++ [s.point last])
    (hgap : ∃ p ∈ (runs.map fun run => s.point run.1).getLast?, gap < p.distance (s.point last)) :
    Drawn s short gap es last c := by
  obtain ⟨p, hp, hfar⟩ := hgap
  have hne : (runs.map fun run => s.point run.1) ≠ [] := List.ne_nil_of_mem (List.mem_of_getLast? hp)
  refine ⟨?_, ?_, ⟨runs, h, .inr ⟨hopen, hpoints, p, hp, hfar⟩⟩, fun _ => ?_, ?_, fun hc => ?_,
    fun _ => ?_⟩
  · rw [hpoints, List.length_append, List.length_singleton]
    exact Nat.succ_le_succ (List.length_pos_iff.2 hne)
  · rw [hpoints, List.head?_append_of_ne_nil _ hne]
    exact h.head?
  · rw [hpoints, List.getLast?_concat]
    exact .inl rfl
  · rw [hpoints, List.dropLast_concat]
    exact h.apart
  · rw [hopen] at hc
    cases hc
  · rw [hpoints, List.isChain_append]
    refine ⟨h.apart.imp fun _ _ => .inl, .singleton _, fun q hq r hr => ?_⟩
    rw [List.head?_singleton, Option.mem_some_iff] at hr
    obtain rfl := Option.some.inj (hp.symm.trans hq)
    exact .inr (hr ▸ hfar)

end Drawn

namespace Tracer

variable {t : Tracer α} {m : Matching α} {l : Links} {strand : Strand}

/-- A strand that has two vertices or more is drawn along its chain. -/
theorem drawn (n : Nat) (hchain : chain l strand.first strand.count = es)
    (hlen : 1 < (t.vertices l strand).length) :
    Drawn t.segments t.shortLength t.openEndGap es strand.last
      ⟨n, t.vertices l strand, strand.isClosed l⟩ := by
  obtain ⟨runs, hruns, hcollapse⟩ := exists_runs t.shortLength t.segments.point es
  have hvertices : t.vertices l strand =
      if strand.isClosed l then runs.map fun run => t.segments.point run.1
      else withTail t.openEndGap (runs.map fun run => t.segments.point run.1)
        (t.segments.point strand.last) := by
    rw [vertices, chainPoints, hchain, hcollapse]
  cases hclosed : strand.isClosed l with
  | true =>
    rw [hclosed, if_pos rfl] at hvertices
    exact .of_kept hruns hvertices hlen fun hopen => by cases hopen
  | false =>
    rw [hclosed, if_neg Bool.false_ne_true] at hvertices
    have hne : (runs.map fun run => t.segments.point run.1) ≠ [] := fun hnil => by
      rw [hvertices, hnil] at hlen
      simp [withTail] at hlen
    obtain ⟨p, hp, ⟨hgap, htail⟩ | ⟨hgap, htail⟩⟩ :=
      withTail_cases t.openEndGap hne (t.segments.point strand.last)
    · rw [htail] at hvertices
      exact .of_kept hruns hvertices hlen fun _ => ⟨p, hvertices.symm ▸ hp, hgap⟩
    · rw [htail] at hvertices
      exact .of_tail hruns rfl hvertices ⟨p, hp, hgap⟩

end Tracer

/-- Whether a strand spans this chain, whose segments all take part in matching. -/
structure Strand.Spans (strand : Strand) (m : Matching α) (l : Links) (es : List Endpoint) : Prop where
  takesPart : ∀ a ∈ es, a ∈ m.segments.endpoints ∧ m.isExcluded a = false
  takesPart_last : strand.last ∈ m.segments.endpoints ∧ m.isExcluded strand.last = false
  follows : es.IsChain l.Follows
  nodup : (es.map Endpoint.segment).Nodup
  head? : es.head? = some strand.first
  getLast? : es.getLast? = some strand.last.twin

namespace Tracer

variable {t : Tracer α} {m : Matching α} {e : Endpoint} {k : Nat} {c : Curve α}

/-- Whether a curve is drawn along the strand that was walked from a start. -/
inductive Draws (t : Tracer α) (m : Matching α) (c : Curve α) : Prop
  | intro {k : Nat} {e : Endpoint} {strand : Strand} {s : State α} {es : List Endpoint}
      (start : t.starts[k]? = some e) (free : (t.after m k).state.isFree e = true)
      (walked : t.strand (t.after m k).state e = (strand, s)) (spans : strand.Spans m s.links es)
      (closed : c.closed = strand.isClosed s.links)
      (drawn : Drawn m.segments t.shortLength t.openEndGap es strand.last c) : Draws t m c

/-- Every vertex of a curve that is drawn is the point of an endpoint that takes part. -/
theorem Draws.exists_endpoint (h : t.Draws m c) {p : Vec3 α} (hp : p ∈ c.points) :
    ∃ a ∈ m.segments.endpoints, m.isExcluded a = false ∧ m.segments.point a = p := by
  obtain ⟨-, -, -, spans, -, drawn⟩ := h
  obtain ⟨runs, hruns, hpoints⟩ := drawn.exists_runs
  have hkept {q : Vec3 α} (hq : q ∈ runs.map fun run => m.segments.point run.1) :
      ∃ a ∈ m.segments.endpoints, m.isExcluded a = false ∧ m.segments.point a = q := by
    obtain ⟨run, hrun, rfl⟩ := List.mem_map.1 hq
    have hmem := hruns.flatMap_eq ▸ List.mem_flatMap.2 ⟨run, hrun, List.mem_cons_self⟩
    obtain ⟨hexists, hincluded⟩ := spans.takesPart _ hmem
    exact ⟨_, hexists, hincluded, rfl⟩
  rcases hpoints with ⟨heq, -⟩ | ⟨-, heq, -⟩
  · exact hkept (heq ▸ hp)
  · rw [heq, List.mem_append, List.mem_singleton] at hp
    rcases hp with hp | rfl
    · exact hkept hp
    · exact ⟨_, spans.takesPart_last.1, spans.takesPart_last.2, rfl⟩

theorem takesPart_of_isFree_after (hm : m.Traceable) (hj : t.junctions = m.junctions) {a : Endpoint}
    (ha : (t.after m k).state.isFree a = true) :
    a ∈ m.segments.endpoints ∧ m.isExcluded a = false := by
  have hstart := isFree_of_after hm hj (Nat.zero_le k) ha
  rw [after_zero, State.isFree_start, hm.size_excluded] at hstart
  exact ⟨(Segments.mem_endpoints hm.size_le).2 hstart.1, hstart.2⟩

theorem Stranded.spans (hm : m.Traceable) (hj : t.junctions = m.junctions)
    {r : Strand × State α} (h : Stranded m (t.after m k).state e es r) :
    r.1.Spans m r.2.links es where
  takesPart a ha := takesPart_of_isFree_after hm hj (h.trail.free ha)
  takesPart_last := by
    have hlast := h.trail.free (List.mem_of_getLast? h.getLast?)
    rw [(standing_after hm hj k).twin_free] at hlast
    exact takesPart_of_isFree_after hm hj hlast
  follows := h.trail.follows
  nodup := h.trail.nodup
  head? := h.head?
  getLast? := h.getLast?

/-- After every start each curve has the number of its place, and is drawn along a strand. -/
theorem draws_after (hm : m.Traceable) (hj : t.junctions = m.junctions)
    (hs : t.segments = m.segments) (k : Nat) {n : Nat} (hc : (t.after m k).curves[n]? = some c) :
    c.id = n ∧ t.Draws m c := by
  induction k with
  | zero =>
    rw [after_zero] at hc
    simp at hc
  | succ k ih =>
    cases hk : t.starts[k]? with
    | none =>
      rw [after_succ_of_eq_none hk] at hc
      exact ih hc
    | some e =>
      rw [after_succ hk] at hc
      cases he : (t.after m k).state.isFree e with
      | false =>
        rw [traceFrom_of_isFree_eq_false he] at hc
        exact ih hc
      | true =>
        obtain ⟨es, hstranded⟩ := stranded hm hj (standing_after hm hj k) he
        rcases hr : t.strand (t.after m k).state e with ⟨strand, s⟩
        rw [hr] at hstranded
        rcases traceFrom_of_isFree he hr with ⟨-, heq⟩ | ⟨-, heq⟩
        · rw [heq] at hc
          exact ih hc
        · rw [heq] at hc
          change (t.addCurve (t.after m k).curves s.links strand)[n]? = some c at hc
          rw [addCurve] at hc
          split at hc
          · exact ih hc
          · rename_i hlen
            rw [Array.getElem?_push] at hc
            split at hc
            · rename_i hn
              obtain rfl := Option.some.inj hc
              refine ⟨hn.symm, .intro hk he hr (Stranded.spans hm hj hstranded) rfl ?_⟩
              exact hs ▸ drawn _ hstranded.chain_eq (Nat.lt_of_not_le hlen)
            · exact ih hc

end Tracer

theorem draws_curves {m : Matching α} (hm : m.Traceable) (settings : Settings α) {n : Nat} {c : Curve α}
    (hc : (curves m settings).1[n]? = some c) :
    c.id = n ∧ (Tracer.ofMatching m settings).Draws m c := by
  refine Tracer.draws_after hm rfl rfl (Tracer.ofMatching m settings).starts.length ?_
  rw [Tracer.after_of_length_le (Nat.le_refl _)]
  exact hc

/-- No curve has a vertex of a segment that was kept out of matching. -/
theorem exists_endpoint_of_mem_points {m : Matching α} (hm : m.Traceable) (settings : Settings α)
    {c : Curve α} (hc : c ∈ (curves m settings).1) {p : Vec3 α} (hp : p ∈ c.points) :
    ∃ a ∈ m.segments.endpoints, m.isExcluded a = false ∧ m.segments.point a = p := by
  obtain ⟨_, hn⟩ := Array.mem_iff_getElem?.1 hc
  exact (draws_curves hm settings hn).2.exists_endpoint hp

/-- Every curve of what was built has the number of its place and is drawn along a strand: its
vertices are the points at which the chain of the strand arrives, less those that are not farther
than the short length from the one kept before them, and at the open end of a curve the other end of
the strand if a gap is left to it. This holds for every short length and every gap. -/
theorem draws_of_build {points : Array (Vec3 α)} {settings : Settings α} {m : Matching α}
    {found : Array (Notice α)} (h : Matching.build points settings = .ok (m, found))
    (settings' : Settings α) {n : Nat} {c : Curve α} (hc : (curves m settings').1[n]? = some c) :
    c.id = n ∧ (Tracer.ofMatching m settings').Draws m c :=
  draws_curves (Matching.traceable_of_build h) settings' hc

/-- A path of three segments, of which the one in the middle is short. -/
def hop : Array (Vec3 Float) :=
  #[⟨0, 0, 0⟩, ⟨1, 0, 0⟩, ⟨1, 0, 0⟩, ⟨1, 0.01, 0⟩, ⟨1, 0.01, 0⟩, ⟨1, 0.015, 0⟩]

/-- Two points of the path are left out when it is collapsed, and the second of them is there again
because it is the end of the path and a gap is left to it. -/
theorem draws_of_build_hop :
    ∃ m found c, Matching.build hop .standard = .ok (m, found) ∧
      (curves m .standard).1[0]? = some c ∧ c.points.length = 3 ∧ c.closed = false ∧
      c.id = 0 ∧ (Tracer.ofMatching m .standard).Draws m c := by
  have hb : Matching.build hop .standard = .ok _ := Matching.build_eq_ok rfl (by decide)
  have hdrawn : ((curves (Matching.ofSegments (.replicate hop 1) .standard).1 .standard).1[0]?.any
      fun c => c.points.length == 3 && !c.closed) = true := by
    decide +kernel
  obtain ⟨c, hc, hpoints⟩ := (Option.any_eq_true _ _).1 hdrawn
  rw [Bool.and_eq_true, beq_iff_eq, Bool.not_eq_true'] at hpoints
  exact ⟨_, _, c, hb, hc, hpoints.1, hpoints.2, draws_of_build hb .standard hc⟩

end DoubleCurve.Trace
