import DoubleCurve.Proofs.Trace.Paired
import DoubleCurve.Proofs.Trace.Vertices

/-!
# The chord that closes a curve

The vertices of a closed curve are collected along a circuit of segments
(`Matching.IsCircuit`), beginning where the segment that the trace started from is
left. A point is kept if it is far from the one kept before it, and no point before
the first one is looked at: all chords are long but the one that joins the last
vertex to the first, which need not be.

`collapse_append` says what is kept after a point that is kept, so that the closing
chord is long exactly if the vertices would be the same, up to where they begin, had
the circuit been cut at any other vertex (`isChain_around_collapse_iff`).
`Tracer.exists_isCircuit` finds the circuit of a curve, and
`isChain_around_points_iff` states both of what was built.
-/

namespace DoubleCurve

/-- The entries of a list, and the first of them again. -/
def around {β : Type} (l : List β) : List β := l ++ l.head?.toList

theorem isChain_around_iff {β : Type} {R : β → β → Prop} {l : List β} :
    (around l).IsChain R ↔ l.IsChain R ∧ ∀ y ∈ l.getLast?, ∀ x ∈ l.head?, R y x := by
  rw [around, List.isChain_append, Option.head?_toList]
  refine ⟨fun h => ⟨h.1, h.2.2⟩, fun h => ⟨h.1, ?_, h.2⟩⟩
  cases l.head? with
  | none => exact .nil
  | some x => exact .singleton x

namespace Matching

variable {α : Type} {m : Matching α} {a b : Endpoint}

/-- Whether two endpoints meet: they are linked to each other, or members of one junction. -/
def Meet (m : Matching α) (a b : Endpoint) : Prop :=
  (m.links.get a = .endpoint b ∧ m.links.get b = .endpoint a) ∨
    ∃ j, a ∈ m.junctions.members j ∧ b ∈ m.junctions.members j

/-- Whether segments, listed by the endpoints at which they are entered, come around. -/
structure IsCircuit (m : Matching α) (es : List Endpoint) : Prop where
  takesPart : ∀ a ∈ es, a ∈ m.segments.endpoints ∧ m.isExcluded a = false
  nodup : (es.map Endpoint.segment).Nodup
  three_le : 3 ≤ es.length
  /-- All around, the endpoint at which a segment is left meets the next one. -/
  meet : (around es).IsChain fun x y => m.Meet x.twin y

end Matching

namespace Trace

/-! ## What is kept all around -/

section

variable {α : Type} [Scalar α] {short : α} {p q kept : Vec3 α} {ps qs : List (Vec3 α)}

theorem far_of_mem_head?_collapseAfter (h : q ∈ (collapseAfter short kept ps).head?) :
    short < kept.distance q := by
  induction ps with
  | nil => cases h
  | cons p ps ih =>
    rw [collapseAfter] at h
    split at h
    · rename_i hfar
      rw [List.head?_cons, Option.mem_some_iff] at h
      exact h ▸ hfar
    · exact ih h

/-- If a point is far from the one kept before it, what follows is collapsed as from its own
beginning. -/
theorem collapseAfter_of_far (h : ∀ q ∈ qs.head?, short < kept.distance q) :
    collapseAfter short kept qs = collapse short qs := by
  cases qs with
  | nil => rfl
  | cons q qs => rw [collapseAfter, if_pos (h q rfl), collapse]

/-- What is kept of the points of two lists after one that is kept. -/
theorem collapseAfter_append (kept : Vec3 α) (ps qs : List (Vec3 α)) :
    collapseAfter short kept (ps ++ qs) = collapseAfter short kept ps ++
      collapseAfter short ((collapseAfter short kept ps).getLastD kept) qs := by
  induction ps generalizing kept with
  | nil => rfl
  | cons p ps ih =>
    rw [List.cons_append, collapseAfter, collapseAfter]
    split
    · rw [ih p, List.cons_append, List.getLastD_cons]
    · exact ih kept

/-- After some points, what is kept depends on the last one kept of them. -/
theorem collapse_append (hp : p ∈ (collapse short ps).getLast?) (qs : List (Vec3 α)) :
    collapse short (ps ++ qs) = collapse short ps ++ collapseAfter short p qs := by
  cases ps with
  | nil => cases hp
  | cons x ps =>
    rw [collapse, List.getLast?_cons, Option.mem_some_iff] at hp
    rw [List.cons_append, collapse, collapse, collapseAfter_append, List.cons_append,
      List.getLastD_eq_getLast?, hp]

theorem head?_collapse (short : α) (ps : List (Vec3 α)) : (collapse short ps).head? = ps.head? := by
  cases ps <;> rfl

theorem collapse_eq_nil_iff : collapse short ps = [] ↔ ps = [] := by
  rw [← List.head?_eq_none_iff, head?_collapse, List.head?_eq_none_iff]

/-- The points of two lists are kept apart from one another exactly if the first one of the second
is far from the last one kept of the first. -/
theorem collapse_append_eq_iff :
    collapse short (ps ++ qs) = collapse short ps ++ collapse short qs ↔
      ∀ p ∈ (collapse short ps).getLast?, ∀ q ∈ qs.head?, short < p.distance q := by
  constructor
  · intro h p hp q hq
    rw [collapse_append hp, List.append_cancel_left_eq] at h
    rw [← head?_collapse, ← h] at hq
    exact far_of_mem_head?_collapseAfter hq
  · intro hfar
    cases hlast : (collapse short ps).getLast? with
    | none =>
      rw [List.getLast?_eq_none_iff, collapse_eq_nil_iff] at hlast
      rw [hlast]
      rfl
    | some p => rw [collapse_append hlast, collapseAfter_of_far (hfar p hlast)]

/-- Points that are near the one kept before them are all left out. -/
theorem collapseAfter_of_near (h : ∀ q ∈ ps, ¬ short < kept.distance q) :
    collapseAfter short kept ps = [] := by
  induction ps with
  | nil => rfl
  | cons q ps ih =>
    obtain ⟨hq, h⟩ := List.forall_mem_cons.1 h
    rw [collapseAfter, if_neg hq, ih h]

/-- Where something is kept after a point, the rest of the points is collapsed from there. -/
theorem exists_cut_of_collapseAfter (h : collapseAfter short kept ps ≠ []) :
    ∃ before rest, ps = before ++ rest ∧ collapseAfter short kept before = [] ∧
      collapseAfter short kept ps = collapse short rest := by
  induction ps with
  | nil => exact absurd rfl h
  | cons p ps ih =>
    rw [collapseAfter] at h ⊢
    split at h
    · rename_i hfar
      exact ⟨[], p :: ps, rfl, rfl, if_pos hfar⟩
    · rename_i hnear
      obtain ⟨before, rest, rfl, hnone, hrest⟩ := ih h
      refine ⟨p :: before, rest, rfl, ?_, ?_⟩
      · rw [collapseAfter, if_neg hnear, hnone]
      · rw [if_neg hnear, hrest]

variable {f : Endpoint → Vec3 α} {es : List Endpoint} {runs : List (Endpoint × List Endpoint)}

/-- The runs of a chain tell what it is collapsed to. -/
theorem Runs.collapse_eq (h : Runs short f es runs) :
    collapse short (es.map f) = runs.map fun run => f run.1 := by
  induction runs generalizing es with
  | nil =>
    obtain rfl := h.flatMap_eq
    rfl
  | cons run runs ih =>
    obtain ⟨hrun, hskipped⟩ := List.forall_mem_cons.1 h.skipped
    have hrest : Runs short f (runs.flatMap fun run => run.1 :: run.2) runs :=
      ⟨rfl, hskipped, h.apart.tail⟩
    have hone : collapse short ((run.1 :: run.2).map f) = [f run.1] := by
      rw [List.map_cons, collapse, collapseAfter_of_near (List.forall_mem_map.2 hrun)]
    rw [← h.flatMap_eq, List.flatMap_cons, List.map_append, collapse_append_eq_iff.2, hone, ih hrest,
      List.map_cons, List.singleton_append]
    intro p hp q hq
    rw [hone, List.getLast?_singleton, Option.mem_some_iff] at hp
    rw [List.head?_map, ← hrest.head?] at hq
    exact hp ▸ h.apart.rel_head? hq

theorem isChain_collapse (short : α) (f : Endpoint → Vec3 α) (es : List Endpoint) :
    (collapse short (es.map f)).IsChain fun p q => short < p.distance q := by
  obtain ⟨runs, hruns, heq⟩ := exists_runs short f es
  rw [heq]
  exact hruns.apart

/-- All around a circuit the points kept are far apart exactly if they are the same, up to where they
begin, wherever between two of them it is cut. -/
theorem isChain_around_collapse_iff (htwo : 2 ≤ (collapse short (es.map f)).length) :
    (around (collapse short (es.map f))).IsChain (fun p q => short < p.distance q) ↔
      ∀ before rest, es = before ++ rest →
        collapse short (es.map f) = collapse short (before.map f) ++ collapse short (rest.map f) →
        collapse short ((rest ++ before).map f) =
          collapse short (rest.map f) ++ collapse short (before.map f) := by
  rw [isChain_around_iff, head?_collapse, and_iff_right (isChain_collapse short f es)]
  constructor
  · rintro hfar before rest rfl hcut
    rw [hcut, List.map_append] at hfar
    rw [List.map_append, collapse_append_eq_iff]
    refine fun p hp q hq => hfar p ?_ q ?_
    · rw [List.getLast?_append, hp]
      rfl
    · rw [List.head?_append, hq]
      rfl
  · intro hcut
    cases es with
    | nil => exact fun p hp => by cases hp
    | cons x es =>
      -- cut before the second vertex, so that the last one stands before the first
      rw [List.map_cons, collapse, List.length_cons] at htwo
      have hne : collapseAfter short (f x) (es.map f) ≠ [] :=
        List.ne_nil_of_length_pos (Nat.lt_of_succ_lt_succ htwo)
      obtain ⟨before, rest, hes, hnone, hrest⟩ := exists_cut_of_collapseAfter hne
      obtain ⟨before, rest, rfl, rfl, rfl⟩ := List.map_eq_append_iff.1 hes
      have hone : collapse short ((x :: before).map f) = [f x] := by
        rw [List.map_cons, collapse, hnone]
      have hall : collapse short ((x :: (before ++ rest)).map f) = f x :: collapse short (rest.map f) := by
        rw [List.map_cons, collapse, hrest]
      have hback := hcut (x :: before) rest rfl (by rw [hall, hone, List.singleton_append])
      rw [List.map_append, collapse_append_eq_iff] at hback
      intro p hp q hq
      refine hback p ?_ q hq
      rw [hall, List.getLast?_cons_of_ne_nil (hrest ▸ hne)] at hp
      exact hp

end

/-! ## The circuit of a closed curve -/

/-- Endpoints that were linked to each other on the way meet. -/
theorem Standing.meet {α : Type} {m : Matching α} {s : State α} {ends : Set Endpoint} {a b : Endpoint}
    (hm : m.Traceable) (h : Standing m s ends) (hab : s.links.get a = .endpoint b) : m.Meet a b := by
  by_cases hkept : s.links.get a = m.links.get a
  · rw [hkept] at hab
    exact .inl ⟨hab, hm.tied.returned hab⟩
  · obtain ⟨c, j, hac, hja, hjc⟩ := h.relinked hkept
    obtain rfl := Link.endpoint.inj (hab.symm.trans hac)
    exact .inr ⟨j, hm.tied.mem_iff.2 hja, hm.tied.mem_iff.2 hjc⟩

/-- Two chains along the same links, without repetitions, are the same if they begin and end with the
same endpoints. -/
theorem eq_of_getLast?_eq {l : Links} {x : Endpoint} {es es' : List Endpoint}
    (h : (x :: es).IsChain l.Follows) (h' : (x :: es').IsChain l.Follows) (hn : (x :: es).Nodup)
    (hn' : (x :: es').Nodup) (hlast : (x :: es).getLast? = (x :: es').getLast?) : es = es' := by
  induction es generalizing x es' with
  | nil =>
    cases es' with
    | nil => rfl
    | cons y es' =>
      rw [List.getLast?_singleton, List.getLast?_cons_cons] at hlast
      exact absurd (List.mem_of_getLast? hlast.symm) (List.nodup_cons.1 hn').1
  | cons y es ih =>
    cases es' with
    | nil =>
      rw [List.getLast?_singleton, List.getLast?_cons_cons] at hlast
      exact absurd (List.mem_of_getLast? hlast) (List.nodup_cons.1 hn).1
    | cons z es' =>
      obtain ⟨hxy, h⟩ := List.isChain_cons_cons.1 h
      obtain ⟨hxz, h'⟩ := List.isChain_cons_cons.1 h'
      obtain rfl := Link.endpoint.inj (hxy.1.symm.trans hxz.1)
      rw [List.getLast?_cons_cons, List.getLast?_cons_cons] at hlast
      rw [ih h h' (List.nodup_cons.1 hn).2 (List.nodup_cons.1 hn').2 hlast]

section

variable {α : Type} {m : Matching α} {strand : Strand} {l : Links} {es es' : List Endpoint}

theorem Strand.Spans.unique (h : strand.Spans m l es) (h' : strand.Spans m l es') : es = es' := by
  obtain ⟨tail, rfl⟩ := List.head?_eq_some_iff.1 h.head?
  obtain ⟨tail', rfl⟩ := List.head?_eq_some_iff.1 h'.head?
  rw [eq_of_getLast?_eq h.follows h'.follows h.nodup.of_map h'.nodup.of_map
    (h.getLast?.trans h'.getLast?.symm)]

/-- A strand that comes around runs along a circuit. -/
theorem Tracer.Stranded.isCircuit {s : State α} {e : Endpoint} {r : Strand × State α}
    (hm : m.Traceable) (h : Tracer.Stranded m s e es r) (hs : r.1.Spans m r.2.links es)
    (hclosed : r.1.isClosed r.2.links = true) : m.IsCircuit es := by
  rw [h.isClosed_eq, Bool.and_eq_true, decide_eq_true_iff] at hclosed
  refine ⟨hs.takesPart, hs.nodup, hclosed.2, isChain_around_iff.2 ⟨?_, fun y hy x hx => ?_⟩⟩
  · exact hs.follows.imp fun _ _ hxy => h.standing.meet hm hxy.1
  · exact h.standing.meet hm (h.whole.around hclosed.1 x hx y hy).1

end

namespace Tracer

variable {α : Type} [Scalar α] {m : Matching α} {t : Tracer α} {s : State α} {e : Endpoint}
  {c : Curve α}

/-- A strand that comes around was walked onward only, and its last segment is the one it started
from. -/
theorem last_of_isCycle (hm : m.Traceable) (hj : t.junctions = m.junctions) (h : Standing m s ∅)
    (he : s.isFree e = true) (hcycle : (t.strand s e).1.isCycle (t.strand s e).2.links = true) :
    (t.strand s e).1.last = e.twin := by
  rw [(strand_eq_bothWays hm hj h he).2] at hcycle ⊢
  rcases hw : t.follow s e with ⟨onward, s'⟩
  rw [bothWays, hw] at hcycle ⊢
  dsimp only at hcycle ⊢
  split at hcycle
  · rename_i hback
    rw [if_pos hback]
  · rename_i hback
    -- the end of the walk onward was settled without a link, and the walk back leaves it so
    exfalso
    obtain ⟨hst, new, hr, hnone, hlast, -⟩ := standing_back hm hj h he hw hback
    obtain ⟨new', hf⟩ :=
      followed hm hj hst (Set.notMem_empty _) hr.standing.twin_free (trail_back hr h.twin_free)
    rcases hw' : t.follow s' e.twin with ⟨back, s''⟩
    rw [hw'] at hf hcycle
    dsimp only at hcycle
    have hset : (s'.claim e.twin).Settled (insert e.twin ∅) onward.last := by
      refine ⟨?_, by rwa [LawfulSingleton.insert_empty_eq]⟩
      rw [State.isFree_claim, Bool.and_eq_false_iff]
      left
      rw [← Bool.not_eq_true, hr.trail.isFree_iff]
      exact fun hfree => hfree.2 (List.mem_map_of_mem (List.mem_of_mem_head? hr.head))
    cases hf with
    | around hb => exact Set.notMem_empty _ hb
    | ended hr' =>
      refine hnone back.last ?_
      rw [← State.links_claim (e := e.twin), ← hr'.evolves.kept hset]
      exact beq_iff_eq.1 hcycle

/-- A closed curve is collapsed from a circuit that ends with the segment of a start. -/
theorem exists_isCircuit (hm : m.Traceable) (hj : t.junctions = m.junctions) (hd : t.Draws m c)
    (hclosed : c.closed = true) :
    ∃ es, m.IsCircuit es ∧ (∃ e ∈ t.starts, es.getLast? = some e) ∧
      c.points = collapse t.shortLength (es.map m.segments.point) := by
  obtain @⟨k, e, strand, s, es, hstart, hfree, hwalked, hspans, hc, hdrawn⟩ := hd
  have hst := standing_after (t := t) hm hj k
  obtain ⟨es', hs⟩ := stranded hm hj hst hfree
  rw [hwalked] at hs
  obtain rfl := hspans.unique (Stranded.spans hm hj hs)
  rw [hc] at hclosed
  obtain ⟨hcycle, -⟩ : strand.isCycle s.links = true ∧ 2 < es.length := by
    rwa [hs.isClosed_eq, Bool.and_eq_true, decide_eq_true_iff] at hclosed
  refine ⟨es, hs.isCircuit hm hspans hclosed, ⟨e, List.mem_of_getElem? hstart, ?_⟩, ?_⟩
  · have hlast := last_of_isCycle hm hj hst hfree (by rw [hwalked]; exact hcycle)
    rw [hwalked] at hlast
    rw [hspans.getLast?, hlast, Endpoint.twin_twin]
  · obtain ⟨runs, hruns, ⟨hpoints, -⟩ | ⟨hopen, -⟩⟩ := hdrawn.exists_runs
    · rw [hpoints, hruns.collapse_eq]
    · rw [hc, hclosed] at hopen
      cases hopen

end Tracer

/-! ## Closed curves of what was built -/

/-- A closed curve of what was built is collapsed from a circuit, which was cut at the segment that
its trace started from, and all its chords are long but the one that closes it. That one is long as
well exactly if the circuit has the same vertices, up to where they begin, wherever between two of
them it is cut. In particular, this is so if every segment is entered far from where the next one is,
all around: then nothing is left out. -/
theorem isChain_around_points_iff {α : Type} [Scalar α] {points : Array (Vec3 α)}
    {settings : Settings α} {m : Matching α} {found : Array (Notice α)}
    (h : Matching.build points settings = .ok (m, found)) (settings' : Settings α) {n : Nat}
    {c : Curve α} (hc : (curves m settings').1[n]? = some c) (hclosed : c.closed = true) :
    let far (p q : Vec3 α) : Prop := settings'.shortLength < p.distance q
    let vertices (es : List Endpoint) := collapse settings'.shortLength (es.map m.segments.point)
    ∃ es, m.IsCircuit es ∧
      (∃ e ∈ (Tracer.ofMatching m settings').starts, es.getLast? = some e) ∧
      c.points = vertices es ∧ c.points.IsChain far ∧
      ((around c.points).IsChain far ↔ ∀ before rest, es = before ++ rest →
        c.points = vertices before ++ vertices rest →
        vertices (rest ++ before) = vertices rest ++ vertices before) ∧
      ((around (es.map m.segments.point)).IsChain far → c.points = es.map m.segments.point) := by
  intro far vertices
  have hm := Matching.traceable_of_build h
  have hdraws : (Tracer.ofMatching m settings').Draws m c := by
    refine (Tracer.draws_after (n := n) hm rfl rfl (Tracer.ofMatching m settings').starts.length ?_).2
    rw [Tracer.after_of_length_le (Nat.le_refl _)]
    exact hc
  obtain ⟨es, hcircuit, hstart, hpoints⟩ := Tracer.exists_isCircuit hm rfl hdraws hclosed
  have htwo : 2 ≤ c.points.length := by
    cases hdraws with
    | intro _ _ _ _ _ hdrawn => exact hdrawn.two_le
  refine ⟨es, hcircuit, hstart, hpoints, ?_, ?_, fun hfar => ?_⟩
  · rw [hpoints]
    exact isChain_collapse _ _ es
  · rw [hpoints] at htwo ⊢
    exact isChain_around_collapse_iff htwo
  · rw [hpoints]
    exact collapse_of_isChain (isChain_around_iff.1 hfar).1

/-- The four sides of a triangle of which a corner is clipped, from the `k`-th one on. The first of
them is the short one. -/
def clipped (k : Nat) : Array (Vec3 Float) :=
  let sides : List (List (Vec3 Float)) := [[⟨0, 0, 0⟩, ⟨0.01, 0, 0⟩], [⟨0.01, 0, 0⟩, ⟨1, 0, 0⟩],
    [⟨1, 0, 0⟩, ⟨0, 1, 0⟩], [⟨0, 1, 0⟩, ⟨0, 0, 0⟩]]
  (sides.rotate k).flatten.toArray

/-- If the trace starts from a long side, the clipped corner is one vertex that is far from those
before and after it, and it would be so if the circuit were cut at another vertex. -/
theorem isChain_around_points_clipped :
    ∃ m found c, Matching.build (clipped 1) .standard = .ok (m, found) ∧
      (curves m .standard).1[0]? = some c ∧ c.closed = true ∧ c.points.length = 3 ∧
      (around c.points).IsChain (fun p q => Settings.standard.shortLength < p.distance q) ∧
      ∃ es, m.IsCircuit es ∧ ∀ before rest, es = before ++ rest →
        let vertices (es : List Endpoint) :=
          collapse Settings.standard.shortLength (es.map m.segments.point)
        c.points = vertices before ++ vertices rest →
          vertices (rest ++ before) = vertices rest ++ vertices before := by
  have hb : Matching.build (clipped 1) .standard = .ok _ := Matching.build_eq_ok rfl (by decide)
  have hfar : ((curves (Matching.ofSegments (.replicate (clipped 1) 1) .standard).1 .standard).1[0]?.any
      fun c => (c.closed && c.points.length == 3) &&
        decide ((around c.points).IsChain fun p q => Settings.standard.shortLength < p.distance q)) =
      true := by
    decide +kernel
  obtain ⟨c, hc, hfar⟩ := (Option.any_eq_true _ _).1 hfar
  rw [Bool.and_eq_true, Bool.and_eq_true, beq_iff_eq, decide_eq_true_iff] at hfar
  obtain ⟨⟨hclosed, hlen⟩, hfar⟩ := hfar
  obtain ⟨es, hcircuit, -, -, -, hiff, -⟩ := isChain_around_points_iff hb .standard hc hclosed
  exact ⟨_, _, c, hb, hc, hclosed, hlen, hfar, es, hcircuit, hiff.1 hfar⟩

/-- If it starts from the short one, the corner is the first vertex and the last one as well. -/
theorem closing_chord_clipped :
    ∃ m found c, Matching.build (clipped 0) .standard = .ok (m, found) ∧
      (curves m .standard).1[0]? = some c ∧ c.closed = true ∧
      ∃ p ∈ c.points.getLast?, ∃ q ∈ c.points.head?,
        ¬ Settings.standard.shortLength < p.distance q := by
  have hb : Matching.build (clipped 0) .standard = .ok _ := Matching.build_eq_ok rfl (by decide)
  have hshort : ((curves (Matching.ofSegments (.replicate (clipped 0) 1) .standard).1 .standard).1[0]?.any
      fun c => c.closed && c.points.getLast?.any fun p => c.points.head?.any fun q =>
        !decide (Settings.standard.shortLength < p.distance q)) = true := by
    decide +kernel
  obtain ⟨c, hc, hshort⟩ := (Option.any_eq_true _ _).1 hshort
  rw [Bool.and_eq_true] at hshort
  obtain ⟨p, hp, hshort'⟩ := (Option.any_eq_true _ _).1 hshort.2
  obtain ⟨q, hq, hpq⟩ := (Option.any_eq_true _ _).1 hshort'
  exact ⟨_, _, c, hb, hc, hshort.1, p, hp, q, hq, of_decide_eq_false (Bool.not_eq_true' _ ▸ hpq)⟩

end Trace

end DoubleCurve
