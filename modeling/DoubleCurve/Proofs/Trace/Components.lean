import DoubleCurve.Proofs.Trace.Strands
import Mathlib.Combinatorics.SimpleGraph.Connectivity.Connected

/-!
# Every component makes one strand

The links that a trace leaves behind make a graph of the segments that take part
in matching (`segmentGraph`). Every such segment is claimed by one start
(`existsUnique_claimedBy`), and a start that claims anything claims a connected
component of the graph (`claimedBy_eq_supp`). The component is a cycle or a path,
and its strand tells which: it is left out if the component is a cycle of one or
two segments, closed if it is a longer cycle, and open if it is a path. The
vertices of the curve are collected from every segment of it once, in the order
of the chain, although on a path more segments were counted than there are
(`Classifies`).

What the start returns follows (`Outcome`): a notice and no curve for a strand
that is left out, and otherwise one curve through the points of the chain, unless
collapsing the short segments leaves a single vertex.
-/

namespace DoubleCurve.Trace

variable {α : Type} {m : Matching α} {s s' : State α} {a b e : Endpoint} {es : List Endpoint}

/-- Whether a segment takes part in matching. -/
def TakesPart (m : Matching α) (n : Nat) : Prop :=
  ∃ e ∈ m.segments.endpoints, m.isExcluded e = false ∧ e.segment = n

/-- The segments that take part in matching. Two of them are adjacent if an endpoint of one and an
endpoint of the other are linked to each other. -/
def segmentGraph (m : Matching α) (l : Links) : SimpleGraph {n : Nat // TakesPart m n} where
  Adj x y := x ≠ y ∧ ∃ a b : Endpoint, a.segment = x.1 ∧ b.segment = y.1 ∧
    l.get a = .endpoint b ∧ l.get b = .endpoint a
  symm := ⟨fun _ _ ⟨hne, a, b, ha, hb, hab, hba⟩ => ⟨hne.symm, b, a, hb, ha, hba, hab⟩⟩
  loopless := ⟨fun _ h => h.1 rfl⟩

theorem Standing.isFree_eq {ends : Set Endpoint} (h : Standing m s ends)
    (hab : a.segment = b.segment) : s.isFree a = s.isFree b := by
  rcases Endpoint.segment_eq_iff.1 hab with rfl | rfl
  · rfl
  · exact h.twin_free b

theorem takesPart_of_isFree (hm : m.Traceable) (ha : (State.start m).isFree a = true) :
    TakesPart m a.segment := by
  obtain ⟨hlt, hx⟩ := State.isFree_start.1 ha
  exact ⟨a, (Segments.mem_endpoints hm.size_le).2 (hm.size_excluded ▸ hlt), hx, rfl⟩

theorem isFree_of_takesPart (hm : m.Traceable) {n : Nat} (h : TakesPart m n) :
    ∃ a, a.segment = n ∧ (State.start m).isFree a = true := by
  obtain ⟨a, ha, hx, rfl⟩ := h
  refine ⟨a, rfl, State.isFree_start.2 ⟨?_, hx⟩⟩
  rw [hm.size_excluded]
  exact (Segments.mem_endpoints hm.size_le).1 ha

theorem reachable_of_isChain_cons {l : Links} {x y : Endpoint} (h : (x :: es).IsChain l.Follows)
    (hp : ∀ e ∈ x :: es, TakesPart m e.segment) (hy : y ∈ x :: es) :
    (segmentGraph m l).Reachable ⟨x.segment, hp x List.mem_cons_self⟩ ⟨y.segment, hp y hy⟩ := by
  induction es generalizing x with
  | nil =>
    obtain rfl := List.mem_singleton.1 hy
    exact .rfl
  | cons z es ih =>
    rcases List.mem_cons.1 hy with rfl | hy
    · exact .rfl
    obtain ⟨hxz, h⟩ := List.isChain_cons_cons.1 h
    refine .trans ?_ (ih h (fun e he => hp e (List.mem_cons_of_mem x he)) hy)
    by_cases hne : x.segment = z.segment
    · have hxz : (⟨x.segment, hp x List.mem_cons_self⟩ : {n : Nat // TakesPart m n}) =
          ⟨z.segment, hp z (List.mem_cons_of_mem x List.mem_cons_self)⟩ := Subtype.ext hne
      rw [hxz]
    · refine SimpleGraph.Adj.reachable ⟨fun heq => hne (congrArg Subtype.val heq), x.twin, z, ?_⟩
      exact ⟨x.segment_twin, rfl, hxz.1, hxz.2⟩

theorem reachable_of_isChain {l : Links} (h : es.IsChain l.Follows)
    (hp : ∀ e ∈ es, TakesPart m e.segment) (ha : a ∈ es) (hb : b ∈ es) :
    (segmentGraph m l).Reachable ⟨a.segment, hp a ha⟩ ⟨b.segment, hp b hb⟩ := by
  cases es with
  | nil => cases ha
  | cons x es =>
    exact (reachable_of_isChain_cons h hp ha).symm.trans (reachable_of_isChain_cons h hp hb)

namespace Tracer

variable [Scalar α] {t : Tracer α} {n : Nat}

/-- The segments that were free before a start and are not after it. -/
def claimedBy (t : Tracer α) (m : Matching α) (k : Nat) : Set Nat :=
  {n | ∃ a : Endpoint, a.segment = n ∧
    (t.after m k).state.isFree a = true ∧ (t.after m (k + 1)).state.isFree a = false}

theorem mem_claimedBy (hm : m.Traceable) (hj : t.junctions = m.junctions) {k : Nat} :
    a.segment ∈ t.claimedBy m k ↔
      (t.after m k).state.isFree a = true ∧ (t.after m (k + 1)).state.isFree a = false := by
  constructor
  · rintro ⟨b, hb, hfree, hclaimed⟩
    rw [(standing_after hm hj k).isFree_eq hb.symm, (standing_after hm hj (k + 1)).isFree_eq hb.symm]
    exact ⟨hfree, hclaimed⟩
  · exact fun h => ⟨a, rfl, h⟩

/-- Every segment that takes part is claimed by one start. -/
theorem existsUnique_claimedBy (hm : m.Traceable) (hj : t.junctions = m.junctions)
    (hs : t.segments = m.segments) (hn : TakesPart m n) :
    ∃! k, k < t.starts.length ∧ n ∈ t.claimedBy m k := by
  obtain ⟨a, rfl, ha⟩ := isFree_of_takesPart hm hn
  have hlast : (t.after m t.starts.length).state.isFree a = false := by
    rw [after_of_length_le (Nat.le_refl _)]
    exact isFree_traceAll hm hj hs a
  have hex : ∃ k, (t.after m k).state.isFree a = false := ⟨_, hlast⟩
  have hpos : Nat.find hex ≠ 0 := fun hzero => by
    have := Nat.find_spec hex
    rw [hzero, after_zero] at this
    rw [this] at ha
    cases ha
  obtain ⟨k, hk⟩ := Nat.exists_eq_succ_of_ne_zero hpos
  have hfree : (t.after m k).state.isFree a = true := by
    rw [← Bool.not_eq_false]
    exact Nat.find_min hex (by omega)
  have hclaimed : (t.after m (k + 1)).state.isFree a = false := by
    rw [← Nat.succ_eq_add_one, ← hk]
    exact Nat.find_spec hex
  have hlt : k < t.starts.length := by
    have := Nat.find_min' hex hlast
    omega
  refine ⟨k, ⟨hlt, (mem_claimedBy hm hj).2 ⟨hfree, hclaimed⟩⟩, fun i ⟨_, hi⟩ => ?_⟩
  -- before it was claimed the segment was free, and afterwards it is free no more
  obtain ⟨hfree', hclaimed'⟩ := (mem_claimedBy hm hj).1 hi
  rcases Nat.lt_trichotomy i k with hik | hik | hik
  · rw [isFree_of_after hm hj hik hfree] at hclaimed'
    cases hclaimed'
  · exact hik
  · rw [isFree_of_after hm hj hik hfree'] at hclaimed
    cases hclaimed

theorem not_mem_claimedBy (hm : m.Traceable) (hj : t.junctions = m.junctions)
    (hx : m.isExcluded e = true) (k : Nat) : e.segment ∉ t.claimedBy m k := by
  rw [mem_claimedBy hm hj]
  rintro ⟨hfree, -⟩
  have hstart := isFree_of_after hm hj (Nat.zero_le k) hfree
  rw [after_zero] at hstart
  rw [(State.isFree_start.1 hstart).2] at hx
  cases hx

/-- What is settled when a start is done with stays as it is to the end. -/
theorem evolves_traceAll (hm : m.Traceable) (hj : t.junctions = m.junctions) (k : Nat) :
    Evolves (t.after m k).state ∅ (t.traceAll (.start m)).state ∅ := by
  rw [← after_of_length_le (Nat.le_max_right k t.starts.length)]
  exact evolves_after hm hj (Nat.le_max_left ..)

section

variable {k : Nat} {r : Strand × State α} {x y : {n : Nat // TakesPart m n}}

/-- The chain of a strand has the segments that its start claimed. -/
theorem lists_claimedBy (hm : m.Traceable) (hj : t.junctions = m.junctions)
    (hs : Stranded m (t.after m k).state e es r)
    (hl : (t.after m (k + 1)).state.links = r.2.links)
    (hf : ∀ a, (t.after m (k + 1)).state.isFree a = r.2.isFree a) :
    (t.traceAll (.start m)).state.links.Lists (t.claimedBy m k) es := by
  have ht := hs.trail
  refine ⟨ht.nodup, fun {n} => ⟨fun hn => ?_, ?_⟩, ht.follows.imp fun a b ⟨hab, hba⟩ => ?_⟩
  · obtain ⟨a, ha, rfl⟩ := List.mem_map.1 hn
    refine (mem_claimedBy hm hj).2 ⟨ht.free ha, ?_⟩
    rw [hf, ← Bool.not_eq_true]
    exact fun hfree => (ht.isFree_iff.1 hfree).2 hn
  · rintro ⟨a, rfl, hfree, hclaimed⟩
    by_contra hnot
    rw [hf, ← Bool.not_eq_true] at hclaimed
    exact hclaimed (ht.isFree_iff.2 ⟨hfree, hnot⟩)
  · have hev := evolves_traceAll (t := t) hm hj (k + 1)
    rw [← hl] at hab hba
    exact ⟨hev.linked hab, hev.linked hba⟩

theorem claimedBy_of_adj (hm : m.Traceable) (hj : t.junctions = m.junctions)
    (h : (segmentGraph m (t.traceAll (.start m)).state.links).Adj x y)
    (hx : x.1 ∈ t.claimedBy m k) : y.1 ∈ t.claimedBy m k := by
  obtain ⟨-, a, b, hax, hby, hab, hba⟩ := h
  rw [← hax, mem_claimedBy hm hj] at hx
  rw [← hby, mem_claimedBy hm hj]
  have hev := evolves_traceAll hm hj (t := t)
  constructor
  · -- a settled neighbour would have settled the segment before
    by_contra hb
    rw [Bool.not_eq_true] at hb
    have hset : (t.after m k).state.Settled ∅ b := ⟨hb, Set.notMem_empty b⟩
    rw [(hev k).kept hset] at hba
    have := ((standing_after hm hj k).closed hset hba).1
    rw [hx.1] at this
    cases this
  · have hset : (t.after m (k + 1)).state.Settled ∅ a := ⟨hx.2, Set.notMem_empty a⟩
    rw [(hev (k + 1)).kept hset] at hab
    exact ((standing_after hm hj (k + 1)).closed hset hab).1

theorem claimedBy_of_reachable (hm : m.Traceable) (hj : t.junctions = m.junctions)
    (h : (segmentGraph m (t.traceAll (.start m)).state.links).Reachable x y)
    (hx : x.1 ∈ t.claimedBy m k) : y.1 ∈ t.claimedBy m k := by
  obtain ⟨w⟩ := h
  induction w with
  | nil => exact hx
  | cons hadj _ ih => exact ih (claimedBy_of_adj hm hj hadj hx)

/-- What a start claims is the component of its segment. -/
theorem claimedBy_eq_supp (hm : m.Traceable) (hj : t.junctions = m.junctions)
    (hlists : (t.traceAll (.start m)).state.links.Lists (t.claimedBy m k) es)
    (he : TakesPart m e.segment) (hmem : e.segment ∈ t.claimedBy m k) :
    t.claimedBy m k = Subtype.val '' ((segmentGraph m
      (t.traceAll (.start m)).state.links).connectedComponentMk ⟨e.segment, he⟩).supp := by
  have hpart : ∀ a ∈ es, TakesPart m a.segment := fun a ha => by
    have hclaimed := hlists.mem_iff.1 (List.mem_map_of_mem ha)
    have hstart := isFree_of_after hm hj (Nat.zero_le k) ((mem_claimedBy hm hj).1 hclaimed).1
    rw [after_zero] at hstart
    exact takesPart_of_isFree hm hstart
  obtain ⟨b, hb, hbe⟩ := List.mem_map.1 (hlists.mem_iff.2 hmem)
  ext n
  constructor
  · intro hn
    obtain ⟨a, ha, rfl⟩ := List.mem_map.1 (hlists.mem_iff.2 hn)
    refine ⟨⟨a.segment, hpart a ha⟩, ?_, rfl⟩
    rw [SimpleGraph.ConnectedComponent.mem_supp_iff, SimpleGraph.ConnectedComponent.eq]
    have hreach := reachable_of_isChain hlists.follows hpart ha hb
    have hbe' : (⟨b.segment, hpart b hb⟩ : {n : Nat // TakesPart m n}) = ⟨e.segment, he⟩ :=
      Subtype.ext hbe
    rwa [hbe'] at hreach
  · rintro ⟨y, hy, rfl⟩
    rw [SimpleGraph.ConnectedComponent.mem_supp_iff, SimpleGraph.ConnectedComponent.eq] at hy
    exact claimedBy_of_reachable hm hj hy.symm hmem

end

end Tracer

/-! ## What a strand tells of its component -/

/-- What a strand, walked when the links were `l`, tells of its segments and the links that are left
in the end. -/
structure Classifies (strand : Strand) (l last : Links) (segments : Set Nat) : Prop where
  lists : last.Lists segments (chain l strand.first strand.count)
  degenerate : strand.isDegenerate l = true ↔ ∃ n ≤ 2, last.IsCycle segments n
  closed : strand.isDegenerate l = false ∧ strand.isClosed l = true ↔
    ∃ n, 2 < n ∧ last.IsCycle segments n
  opened : strand.isDegenerate l = false ∧ strand.isClosed l = false ↔ last.IsPath segments
  /-- The segments of a cycle are counted once. -/
  counted {n : Nat} : last.IsCycle segments n → strand.count = n
  /-- On a path the chain ends before as many segments are collected as were counted. -/
  overcounted : last.IsPath segments → (chain l strand.first strand.count).length < strand.count

/-- What the strand of a chain tells, if the chain is whole in the end. -/
theorem Tracer.Stranded.classifies {r : Strand × State α} {last : Links} {segments : Set Nat}
    (h : Tracer.Stranded m s e es r) (hes : last.Lists segments es)
    (hw : last.Whole (r.1.isCycle r.2.links) es) : Classifies r.1 r.2.links last segments := by
  have hdeg := h.isDegenerate_eq
  have hclo := h.isClosed_eq
  have hchain := h.chain_eq
  obtain ⟨x, hx⟩ : ∃ x, es.head? = some x := ⟨_, h.head?⟩
  obtain ⟨y, hy⟩ : ∃ y, es.getLast? = some y := ⟨_, h.getLast?⟩
  cases his : r.1.isCycle r.2.links with
  | true =>
    rw [his, Bool.true_and] at hdeg hclo
    rw [his] at hw
    have hcycle : last.IsCycle segments es.length :=
      ⟨es, hes, rfl, x, hx, y, hy, hw.around rfl x hx y hy⟩
    refine ⟨hchain ▸ hes, ?_, ?_, ?_, fun hc => ?_, fun hp => absurd hcycle hp.not_isCycle⟩
    · rw [hdeg, decide_eq_true_iff]
      refine ⟨fun h => ⟨_, h, hcycle⟩, ?_⟩
      rintro ⟨n, hn, h⟩
      rwa [h.unique hes]
    · rw [hdeg, hclo, decide_eq_false_iff_not, decide_eq_true_iff]
      refine ⟨fun h => ⟨_, h.2, hcycle⟩, ?_⟩
      rintro ⟨n, hn, h⟩
      rw [h.unique hes]
      exact ⟨Nat.not_le.2 hn, hn⟩
    · rw [hdeg, hclo, decide_eq_false_iff_not, decide_eq_false_iff_not]
      exact ⟨fun h => absurd (Nat.not_le.1 h.1) h.2, fun h => absurd hcycle h.not_isCycle⟩
    · rw [h.count_of_isCycle his, hc.unique hes]
  | false =>
    rw [his, Bool.false_and] at hdeg hclo
    rw [his] at hw
    have hpath : last.IsPath segments := ⟨es, hes, x, hx, y, hy, hw.ended rfl x hx y hy⟩
    refine ⟨hchain ▸ hes, ?_, ?_, ?_, fun hc => absurd hc hpath.not_isCycle, fun _ => ?_⟩
    · rw [hdeg]
      simp only [Bool.false_eq_true, false_iff]
      rintro ⟨n, -, h⟩
      exact hpath.not_isCycle h
    · rw [hclo]
      simp only [Bool.false_eq_true, and_false, false_iff]
      rintro ⟨n, -, h⟩
      exact hpath.not_isCycle h
    · exact ⟨fun _ => hpath, fun _ => ⟨hdeg, hclo⟩⟩
    · rw [hchain]
      exact h.length_lt_count his

/-! ## Strands that are left out -/

/-- The endpoint from which a notice reports a strand that was left out, if it does. -/
def discardedAt? (n : Notice α) : Option Endpoint :=
  match n.finding with
  | .degenerateCycle e => some e
  | _ => none

/-- From where strands were reported that were left out, in order. -/
def State.discarded (s : State α) : List Endpoint := s.notices.toList.filterMap discardedAt?

theorem State.discarded_report (s : State α) (n : Notice α) :
    (s.report n).discarded = s.discarded ++ (discardedAt? n).toList := by
  rw [discarded, report, Array.toList_push, List.filterMap_append, List.filterMap_cons,
    List.filterMap_nil, discarded]
  cases discardedAt? n <;> rfl

namespace Tracer

variable [Scalar α] {t : Tracer α}

omit [Scalar α] in
theorem discarded_mend (s : State α) (e next : Endpoint) : (mend s e next).discarded = s.discarded := by
  unfold mend
  dsimp only
  split
  · rfl
  · exact (State.discarded_report s _).trans (List.append_nil _)

theorem discarded_depart (t : Tracer α) (s : State α) (e : Endpoint) :
    (t.depart s e).2.discarded = s.discarded := by
  unfold depart
  split
  · rfl
  · exact discarded_mend ..
  · split
    · rfl
    · exact (State.discarded_report s _).trans (List.append_nil _)

theorem discarded_strand (t : Tracer α) (s : State α) (e : Endpoint) :
    (t.strand s e).2.discarded = s.discarded := by
  refine strand_keeps (P := fun s' => s'.discarded = s.discarded) (fun s' a h => ?_)
    (fun _ _ h => h) rfl
  rw [discarded_depart, h]

theorem classifies (hm : m.Traceable) (hj : t.junctions = m.junctions) {k : Nat}
    {r : Strand × State α} (hs : Stranded m (t.after m k).state e es r)
    (hl : (t.after m (k + 1)).state.links = r.2.links)
    (hf : ∀ a, (t.after m (k + 1)).state.isFree a = r.2.isFree a) :
    Classifies r.1 r.2.links (t.traceAll (.start m)).state.links (t.claimedBy m k) := by
  have hev := evolves_traceAll (t := t) hm hj (k + 1)
  refine hs.classifies (lists_claimedBy hm hj hs hl hf) (hs.whole.congr fun a ha => ?_)
  -- the segments are settled, and keep what they are linked to
  refine (hev.kept ⟨?_, Set.notMem_empty a⟩).trans (by rw [hl])
  rw [hf, ← Bool.not_eq_true]
  exact fun hfree => (hs.trail.isFree_iff.1 hfree).2 ha

end Tracer

/-! ## What a start returns -/

namespace Tracer

variable [Scalar α] {t : Tracer α}

/-- What becomes of the segments that a start claims, where `before` and `after` are what was traced
before the start and after it. Their strand was walked when the links were `l`, and `last` are the
links that are left in the end. -/
inductive Outcome (t : Tracer α) (strand : Strand) (l last : Links) (segments : Set Nat)
    (before after : Traced α) : Prop
  /-- A cycle of at most two segments is reported once and makes no curve. -/
  | discarded {n : Nat} : n ≤ 2 → last.IsCycle segments n →
      after.state.discarded = before.state.discarded ++ [strand.first] →
      after.curves = before.curves → Outcome t strand l last segments before after
  /-- A longer cycle makes one closed curve of what is left of its chain, or none if that is a single
  vertex. -/
  | closed {n : Nat} {points : List (Vec3 α)} : 2 < n → last.IsCycle segments n →
      points = collapse t.shortLength ((chain l strand.first strand.count).map t.segments.point) →
      after.state.discarded = before.state.discarded →
      after.curves = (if points.length ≤ 1 then before.curves
        else before.curves.push ⟨before.curves.size, points, true⟩) →
      Outcome t strand l last segments before after
  /-- A path makes one open curve, which goes on to the other end if a gap is left to it, or none. -/
  | opened {points : List (Vec3 α)} : last.IsPath segments →
      points = withTail t.openEndGap
        (collapse t.shortLength ((chain l strand.first strand.count).map t.segments.point))
        (t.segments.point strand.last) →
      after.state.discarded = before.state.discarded →
      after.curves = (if points.length ≤ 1 then before.curves
        else before.curves.push ⟨before.curves.size, points, false⟩) →
      Outcome t strand l last segments before after

/-- What a start returns is told by the component of its segments. -/
theorem outcome {traced : Traced α} {strand : Strand} {last : Links} {segments : Set Nat}
    (he : traced.state.isFree e = true) (hr : t.strand traced.state e = (strand, s))
    (hc : Classifies strand s.links last segments) :
    t.Outcome strand s.links last segments traced (t.traceFrom traced e) := by
  have hdiscarded : s.discarded = traced.state.discarded := by
    rw [← discarded_strand t traced.state e, hr]
  rcases traceFrom_of_isFree he hr with ⟨hd, heq⟩ | ⟨hd, heq⟩
  · obtain ⟨n, hn, hcycle⟩ := hc.degenerate.1 hd
    rw [heq]
    refine .discarded hn hcycle ?_ rfl
    rw [State.discarded_report, hdiscarded]
    rfl
  · rw [heq]
    cases hclosed : strand.isClosed s.links with
    | true =>
      obtain ⟨n, hn, hcycle⟩ := hc.closed.1 ⟨hd, hclosed⟩
      refine .closed hn hcycle rfl hdiscarded ?_
      simp only [addCurve, vertices, hclosed, if_true, chainPoints]
    | false =>
      refine .opened (hc.opened.1 ⟨hd, hclosed⟩) rfl hdiscarded ?_
      simp only [addCurve, vertices, hclosed, Bool.false_eq_true, if_false, chainPoints]

end Tracer

/-! ## Every component makes one strand -/

variable [Scalar α] {points : Array (Vec3 α)} {settings : Settings α} {found : Array (Notice α)}

/-- In a trace of what was built, every segment that takes part is claimed by one start, and an
excluded one by none. What a start claims is a component of the graph that the links make in the
end. Its strand tells what the component is, and so does what the start returns: a notice for a
cycle of at most two segments, a closed curve for a longer cycle and an open one for a path, if two
vertices are left of its chain. The curves returned in the end are those of all starts. -/
theorem components_of_build (h : Matching.build points settings = .ok (m, found))
    (settings' : Settings α) :
    let t := Tracer.ofMatching m settings'
    let last := (t.traceAll (.start m)).state.links
    (∀ n, TakesPart m n → ∃! k, k < t.starts.length ∧ n ∈ t.claimedBy m k) ∧
      (∀ e, m.isExcluded e = true → ∀ k, e.segment ∉ t.claimedBy m k) ∧
      (t.after m 0).curves = #[] ∧
      (curves m settings').1 = (t.after m t.starts.length).curves ∧
      ∀ k e, t.starts[k]? = some e →
        ((t.after m k).state.isFree e = false → t.after m (k + 1) = t.after m k) ∧
        ((t.after m k).state.isFree e = true →
          ∃ (strand : Strand) (s : State α) (c : (segmentGraph m last).ConnectedComponent),
            t.strand (t.after m k).state e = (strand, s) ∧
            t.claimedBy m k = Subtype.val '' c.supp ∧
            Classifies strand s.links last (t.claimedBy m k) ∧
            t.Outcome strand s.links last (t.claimedBy m k) (t.after m k) (t.after m (k + 1))) := by
  have hm := Matching.traceable_of_build h
  intro t last
  have hj : t.junctions = m.junctions := rfl
  refine ⟨fun n hn => Tracer.existsUnique_claimedBy hm hj rfl hn,
    fun e he k => Tracer.not_mem_claimedBy hm hj he k, by rw [Tracer.after_zero],
    by rw [Tracer.after_of_length_le (Nat.le_refl _)]; rfl,
    fun k e hk => ⟨fun hfree => ?_, fun hfree => ?_⟩⟩
  · rw [Tracer.after_succ hk, Tracer.traceFrom_of_isFree_eq_false hfree]
  · cases Tracer.iterated hm hj k with
    | skipped _ hclaimed =>
      rw [hclaimed e hk] at hfree
      cases hfree
    | @walked e' es r hk' _ hr hs hl hf _ =>
      rw [hk] at hk'
      cases hk'
      have hmem : e.segment ∈ t.claimedBy m k :=
        (Tracer.mem_claimedBy hm hj).2 ⟨hfree, Tracer.isFree_after_start hm hj hk⟩
      have hstart := Tracer.isFree_of_after hm hj (Nat.zero_le k) hfree
      rw [Tracer.after_zero] at hstart
      have hsupp := Tracer.claimedBy_eq_supp hm hj (Tracer.lists_claimedBy hm hj hs hl hf)
        (takesPart_of_isFree hm hstart) hmem
      have hclassifies := Tracer.classifies hm hj hs hl hf
      refine ⟨r.1, r.2, _, hr, hsupp, hclassifies, ?_⟩
      rw [Tracer.after_succ hk]
      exact Tracer.outcome hfree hr hclassifies

open Matching (star starMatching build_star)

theorem strand_star :
    let r := (Tracer.ofMatching starMatching .standard).strand (.start starMatching) (.ofIndex 0)
    r.1 = ⟨.ofIndex 5, .ofIndex 7, 5⟩ ∧ r.1.isDegenerate r.2.links = false ∧
      r.1.isClosed r.2.links = false ∧
      chain r.2.links r.1.first r.1.count = [.ofIndex 5, .ofIndex 0, .ofIndex 6] := by
  decide +kernel

theorem vertices_star :
    let t := Tracer.ofMatching starMatching .standard
    withTail t.openEndGap
      (collapse t.shortLength ([Endpoint.ofIndex 5, .ofIndex 0, .ofIndex 6].map t.segments.point))
      (t.segments.point (.ofIndex 7)) = [⟨-1, 0, 0⟩, ⟨0, 0, 0⟩, ⟨1, 0, 0⟩, ⟨2, 0, 0⟩] := by
  decide +kernel

/-- The first start of the star claims a path of three segments: the third, the first and the
fourth. It reports nothing and returns one open curve through their four ends. -/
theorem components_of_build_star :
    ∃ m found, Matching.build star .standard = .ok (m, found) ∧
      let t := Tracer.ofMatching m .standard
      let last := (t.traceAll (.start m)).state.links
      (∃! k, k < t.starts.length ∧ 0 ∈ t.claimedBy m k) ∧
        ∃ c : (segmentGraph m last).ConnectedComponent, t.claimedBy m 0 = Subtype.val '' c.supp ∧
          last.IsPath (t.claimedBy m 0) ∧
          last.Lists (t.claimedBy m 0) [.ofIndex 5, .ofIndex 0, .ofIndex 6] ∧
          (t.after m 1).state.discarded = [] ∧
          (t.after m 1).curves =
            #[⟨0, [⟨-1, 0, 0⟩, ⟨0, 0, 0⟩, ⟨1, 0, 0⟩, ⟨2, 0, 0⟩], false⟩] := by
  obtain ⟨found, hb⟩ := build_star
  refine ⟨_, _, hb, ?_⟩
  dsimp only
  obtain ⟨hclaimed, -, hnone, -, hstarts⟩ := components_of_build hb .standard
  have hpart : TakesPart starMatching 0 := ⟨.ofIndex 0, by decide +kernel, by decide +kernel, rfl⟩
  obtain ⟨strand, s, c, hstrand, hsupp, hclass, hout⟩ := (hstarts 0 _ starts_star.1).2 starts_star.2
  obtain ⟨hwalked, hdeg, hclosed, hchain⟩ := strand_star
  rw [Tracer.after_zero] at hstrand
  rw [hstrand] at hwalked hdeg hclosed hchain
  dsimp only at hwalked hdeg hclosed hchain
  have hpath := hclass.opened.1 ⟨hdeg, hclosed⟩
  refine ⟨hclaimed 0 hpart, c, hsupp, hpath, hchain ▸ hclass.lists, ?_⟩
  cases hout with
  | discarded _ hcycle => exact absurd hcycle hpath.not_isCycle
  | closed _ hcycle => exact absurd hcycle hpath.not_isCycle
  | @opened points _ hpoints hdiscarded hcurves =>
    have hvertices : points = [⟨-1, 0, 0⟩, ⟨0, 0, 0⟩, ⟨1, 0, 0⟩, ⟨2, 0, 0⟩] := by
      rw [hpoints, hchain, hwalked]
      exact vertices_star
    refine ⟨hdiscarded.trans ?_, ?_⟩
    · rw [Tracer.after_zero]
      rfl
    · rw [hcurves, hvertices, hnone]
      rfl

/-- A cycle of three short segments leaves a single vertex, and nothing is returned. -/
example :
    let m := (Matching.ofSegments (.replicate #[⟨0, 0, 0⟩, ⟨0.01, 0, 0⟩, ⟨0.01, 0, 0⟩, ⟨0, 0.01, 0⟩,
      ⟨0, 0.01, 0⟩, ⟨0, 0, 0⟩] 1) Settings.standard).1
    let t := Tracer.ofMatching m .standard
    let r := t.strand (.start m) (.ofIndex 0)
    r.1.count = 3 ∧ r.1.isClosed r.2.links = true ∧ (curves m .standard).1.size = 0 ∧
      (curves m .standard).2.size = 0 := by
  decide +kernel

end DoubleCurve.Trace
