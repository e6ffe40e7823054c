import DoubleCurve.Proofs.Trace.Walking
import DoubleCurve.Proofs.Trace.Whole

/-!
# What one strand is

A strand is walked onward from its start, and back from there unless the walk
came around. `Stranded` says what this makes: a trail of segments in the order of
the curve, which is a cycle if its ends are linked to each other, and otherwise a
path whose ends are linked to no endpoint (`stranded`). The segments were claimed
on the way, so that nothing is left for the strand of one segment that is meant
for a start nobody claimed (`strand_eq_bothWays`).

From strand to strand, everything stands and nothing is open (`standing_after`).
-/

namespace DoubleCurve.Trace

variable {α : Type} {m : Matching α} {s s' : State α} {e : Endpoint}

theorem Evolves.refl (s : State α) (ends : Set Endpoint) : Evolves s ends s ends :=
  .of_subset subset_rfl rfl fun _ => rfl

namespace Tracer

variable [Scalar α] {t : Tracer α} {es : List Endpoint} {onward : Walk}

/-- The two walks that make a strand. -/
def bothWays (t : Tracer α) (s : State α) (e : Endpoint) : Strand × State α :=
  let (onward, s) := t.follow s e
  if s.links.get e.twin = .endpoint onward.last then (⟨onward.last, e.twin, onward.count⟩, s)
  else
    let (back, s) := t.follow s e.twin
    (⟨onward.last, back.last, onward.count + 1 + back.count⟩, s)

/-- What a strand is that was walked from `e`. -/
inductive Stranded (m : Matching α) (s : State α) (e : Endpoint) (es : List Endpoint) :
    Strand × State α → Prop
  | cycle {strand : Strand} {s' : State α} : Standing m s' ∅ → Evolves s ∅ s' ∅ → Trail s s' es →
      e.segment ∈ es.map Endpoint.segment → es.head? = some strand.first →
      es.getLast? = some strand.last.twin → s'.links.get strand.first = .endpoint strand.last →
      strand.count = es.length → Stranded m s e es (strand, s')
  | path {strand : Strand} {s' : State α} : Standing m s' ∅ → Evolves s ∅ s' ∅ → Trail s s' es →
      e.segment ∈ es.map Endpoint.segment → es.head? = some strand.first →
      es.getLast? = some strand.last.twin → (∀ b, s'.links.get strand.first ≠ .endpoint b) →
      (∀ b, s'.links.get strand.last ≠ .endpoint b) → es.length < strand.count →
      strand.count ≤ 2 * es.length → Stranded m s e es (strand, s')

omit [Scalar α] in
theorem standing_onward (h : Standing m s ∅) (he : s.isFree e = true) :
    Standing m (s.claim e) (insert e {e.twin}) ∧ e ∉ ({e.twin} : Set Endpoint) := by
  refine ⟨?_, fun hmem => e.twin_ne hmem.symm⟩
  have := h.claim he
  rwa [LawfulSingleton.insert_empty_eq] at this

theorem followed_onward (hm : m.Traceable) (hj : t.junctions = m.junctions) (h : Standing m s ∅)
    (he : s.isFree e = true) : ∃ new, Followed m s s e {e.twin} [] new (t.follow s e) := by
  obtain ⟨hst, hnot⟩ := standing_onward h he
  exact followed hm hj hst hnot h.twin_free (.single he)

/-- What the walk back starts from, and that the walk onward did not come around. -/
theorem standing_back (hm : m.Traceable) (hj : t.junctions = m.junctions) (h : Standing m s ∅)
    (he : s.isFree e = true) (hw : t.follow s e = (onward, s'))
    (hback : s'.links.get e.twin ≠ .endpoint onward.last) :
    Standing m (s'.claim e.twin) (insert e.twin ∅) ∧
      ∃ new, Reached m s s e {e.twin} [] new onward.last s' {e.twin} ∧
        (∀ b, s'.links.get onward.last ≠ .endpoint b) ∧ onward.last ∉ ({e.twin} : Set Endpoint) ∧
        onward.count = new.length + 1 := by
  obtain ⟨new, hf⟩ := followed_onward hm hj h he
  rw [hw] at hf
  cases hf with
  | ended hr hnone hlast hcount =>
    have hfree : s'.isFree e.twin = false := hr.standing.claimed rfl
    rw [if_pos (.inl he)] at hcount
    refine ⟨?_, new, hr, hnone, hlast, hcount⟩
    rw [LawfulSingleton.insert_empty_eq]
    exact hr.standing.congr rfl rfl (State.isFree_claim_of_claimed hr.standing.twin_free hfree)
  | around hb hr hlb =>
    rw [Set.mem_singleton_iff] at hb
    rw [hb] at hlb
    exact absurd (hr.standing.returned hlb) hback

omit [Scalar α] in
/-- The walk back goes on from the trail of the walk onward, read backwards. -/
theorem trail_back {new : List Endpoint}
    (hr : Reached m s s e {e.twin} [] new onward.last s' {e.twin})
    (hpair : ∀ a, s.isFree a.twin = s.isFree a) :
    Trail s (s'.claim e.twin) (e.twin :: backward new) := by
  have htrail := hr.trail.backward hpair
  rw [backward_concat] at htrail
  exact htrail.evolve id
    (State.isFree_claim_of_claimed hr.standing.twin_free (hr.standing.claimed rfl))

omit [Scalar α] in
/-- When the walk onward starts, both endpoints of its segment are open. -/
theorem evolves_onward (h : Standing m s ∅) (he : s.isFree e = true) :
    Evolves s ∅ (s.claim e) (insert e {e.twin}) := by
  have := Evolves.claim h he
  rwa [LawfulSingleton.insert_empty_eq] at this

/-- A walk onward that came around makes a cycle. -/
theorem stranded_around (hm : m.Traceable) (hj : t.junctions = m.junctions) (h : Standing m s ∅)
    (he : s.isFree e = true) (hw : t.follow s e = (onward, s'))
    (hback : s'.links.get e.twin = .endpoint onward.last) :
    ∃ es, Stranded m s e es (⟨onward.last, e.twin, onward.count⟩, s') := by
  obtain ⟨new, hf⟩ := followed_onward hm hj h he
  rw [hw] at hf
  cases hf with
  | ended hr hnone => exact absurd (hr.standing.returned hback) (hnone e.twin)
  | around hb hr hlb hcount =>
    rw [Set.mem_singleton_iff] at hb
    rw [hb] at hr hlb
    have hdone : ({e.twin} : Set Endpoint) \ {e.twin} = ∅ :=
      Set.ext fun _ => ⟨fun hx => (hx.2 hx.1).elim, fun hx => hx.elim⟩
    rw [hdone] at hr
    refine ⟨new ++ [e], .cycle hr.standing ((evolves_onward h he).trans hr.evolves) hr.trail ?_
      hr.head ?_ hlb ?_⟩
    · simp
    · simp
    · rw [hcount, List.length_append, List.length_singleton]

/-- A walk back that did not find the end of the walk onward makes a path with it. -/
theorem stranded_back (hm : m.Traceable) (hj : t.junctions = m.junctions) (h : Standing m s ∅)
    (he : s.isFree e = true) (hw : t.follow s e = (onward, s'))
    (hback : s'.links.get e.twin ≠ .endpoint onward.last) {back : Walk} {s'' : State α}
    (hw' : t.follow s' e.twin = (back, s'')) :
    ∃ es, Stranded m s e es (⟨onward.last, back.last, onward.count + 1 + back.count⟩, s'') := by
  obtain ⟨hst, new, hr, hnone, hlast, hcount⟩ := standing_back hm hj h he hw hback
  obtain ⟨new', hf⟩ :=
    followed hm hj hst (Set.notMem_empty _) hr.standing.twin_free (trail_back hr h.twin_free)
  rw [hw'] at hf
  cases hf with
  | around hb => exact absurd hb (Set.notMem_empty _)
  | ended hr' hnone' _ hcount' =>
    have hall : new' ++ e.twin :: backward new = new' ++ backward (new ++ [e]) := by
      rw [backward_concat]
    have hlen : (new' ++ e.twin :: backward new).length = new'.length + (new.length + 1) := by
      rw [List.length_append, List.length_cons, length_backward]
    have hev : Evolves s' {e.twin} s'' ∅ := by
      have hclaim : Evolves s' {e.twin} (s'.claim e.twin) (insert e.twin ∅) := by
        rw [LawfulSingleton.insert_empty_eq]
        exact .of_subset subset_rfl rfl
          (State.isFree_claim_of_claimed hr.standing.twin_free (hr.standing.claimed rfl))
      exact hclaim.trans hr'.evolves
    -- the segment of the start was claimed, so that the walk back does not count it
    have hback : new'.length ≤ back.count ∧ back.count ≤ 2 * new'.length := by
      rw [hcount', hr.standing.claimed rfl]
      cases new' with
      | nil => exact ⟨Nat.le_refl 0, Nat.le_refl 0⟩
      | cons x new' =>
        rw [if_pos (.inr (List.cons_ne_nil x new')), List.length_cons]
        omega
    -- the end of the walk onward was settled before the walk back
    have hset : s'.Settled {e.twin} onward.last := by
      refine ⟨?_, hlast⟩
      rw [← Bool.not_eq_true, hr.trail.isFree_iff]
      exact fun hf => hf.2 (List.mem_map_of_mem (List.mem_of_mem_head? hr.head))
    refine ⟨backward (new' ++ e.twin :: backward new),
      .path hr'.standing ((evolves_onward h he).trans (hr.evolves.trans hev))
        (hr'.trail.backward h.twin_free) ?_ ?_ ?_ ?_ hnone' ?_ ?_⟩
    · rw [map_segment_backward, List.mem_reverse, List.map_append, List.map_cons,
        Endpoint.segment_twin]
      exact List.mem_append_right _ List.mem_cons_self
    · rw [head?_backward, hall, List.getLast?_append, getLast?_backward, hr.head]
      simp
    · rw [getLast?_backward, hr'.head]
      rfl
    · rw [hev.kept hset]
      exact hnone
    · show _ < onward.count + 1 + back.count
      rw [length_backward, hlen]
      omega
    · show onward.count + 1 + back.count ≤ _
      rw [length_backward, hlen]
      omega

theorem stranded_bothWays (hm : m.Traceable) (hj : t.junctions = m.junctions) (h : Standing m s ∅)
    (he : s.isFree e = true) : ∃ es, Stranded m s e es (t.bothWays s e) := by
  rcases hw : t.follow s e with ⟨onward, s'⟩
  rw [bothWays, hw]
  dsimp only
  split
  · rename_i hback
    exact stranded_around hm hj h he hw hback
  · rename_i hback
    rcases hw' : t.follow s' e.twin with ⟨back, s''⟩
    exact stranded_back hm hj h he hw hback hw'

/-! ## What the strand tells of its segments -/

section

omit [Scalar α]

variable {r : Strand × State α}

theorem Stranded.standing (h : Stranded m s e es r) : Standing m r.2 ∅ := by
  cases h with
  | cycle hst => exact hst
  | path hst => exact hst

theorem Stranded.evolves (h : Stranded m s e es r) : Evolves s ∅ r.2 ∅ := by
  cases h with
  | cycle _ hev => exact hev
  | path _ hev => exact hev

theorem Stranded.trail (h : Stranded m s e es r) : Trail s r.2 es := by
  cases h with
  | cycle _ _ ht => exact ht
  | path _ _ ht => exact ht

theorem Stranded.mem (h : Stranded m s e es r) : e.segment ∈ es.map Endpoint.segment := by
  cases h with
  | cycle _ _ _ he => exact he
  | path _ _ _ he => exact he

/-- The two walks claim the segment they start from. -/
theorem Stranded.isFree_start (h : Stranded m s e es r) : r.2.isFree e = false := by
  rw [← Bool.not_eq_true]
  exact fun hfree => (h.trail.isFree_iff.1 hfree).2 h.mem

/-- The segments of a strand are a whole chain, and the strand tells whether it comes around. -/
theorem Stranded.whole (h : Stranded m s e es r) :
    r.2.links.Whole (r.1.isCycle r.2.links) es := by
  have hne {strand : Strand} (hfirst : es.head? = some strand.first) : es ≠ [] := fun hnil => by
    rw [hnil] at hfirst
    cases hfirst
  cases h with
  | @cycle strand s' hst _ ht _ hfirst hlast hl =>
    have his : strand.isCycle s'.links = true := beq_iff_eq.2 hl
    refine ⟨ht.nodup, ht.follows, hne hfirst, fun _ x hx y hy => ?_, fun hc => ?_⟩
    · rw [hfirst] at hx
      rw [hlast] at hy
      cases hx
      cases hy
      refine ⟨?_, ?_⟩
      · rw [Endpoint.twin_twin]
        exact hst.returned hl
      · rw [Endpoint.twin_twin]
        exact hl
    · rw [his] at hc
      cases hc
  | @path strand s' _ _ ht _ hfirst hlast hnone hnone' =>
    have his : strand.isCycle s'.links = false := beq_eq_false_iff_ne.2 (hnone _)
    refine ⟨ht.nodup, ht.follows, hne hfirst, fun hc => ?_, fun _ x hx y hy => ?_⟩
    · rw [his] at hc
      cases hc
    · rw [hfirst] at hx
      rw [hlast] at hy
      cases hx
      cases hy
      rw [Endpoint.twin_twin, Link.endpoint?_eq_none_iff, Link.endpoint?_eq_none_iff]
      exact ⟨hnone, hnone'⟩

theorem Stranded.head? (h : Stranded m s e es r) : es.head? = some r.1.first := by
  cases h with
  | cycle _ _ _ _ hfirst => exact hfirst
  | path _ _ _ _ hfirst => exact hfirst

theorem Stranded.getLast? (h : Stranded m s e es r) : es.getLast? = some r.1.last.twin := by
  cases h with
  | cycle _ _ _ _ _ hlast => exact hlast
  | path _ _ _ _ _ hlast => exact hlast

/-- The vertices are collected from every segment of a strand once, in the order of the chain,
although on a path more segments were counted than there are. -/
theorem Stranded.chain_eq (h : Stranded m s e es r) :
    chain r.2.links r.1.first r.1.count = es := by
  obtain ⟨tail, rfl⟩ := List.head?_eq_some_iff.1 h.head?
  have hfollows := h.trail.follows
  cases h with
  | cycle _ _ _ _ _ _ _ hcount =>
    rw [hcount]
    exact chain_eq_of_length hfollows
  | path _ _ _ _ _ hlast _ hnone hover =>
    refine chain_eq_of_unlinked hfollows (Nat.lt_of_succ_lt hover) fun y hy => ?_
    rw [hlast] at hy
    cases hy
    rwa [Endpoint.twin_twin, Link.endpoint?_eq_none_iff]

theorem Stranded.count_of_isCycle (h : Stranded m s e es r) (hc : r.1.isCycle r.2.links = true) :
    r.1.count = es.length := by
  cases h with
  | cycle _ _ _ _ _ _ _ hcount => exact hcount
  | path _ _ _ _ _ _ hnone => exact absurd (beq_iff_eq.1 hc) (hnone _)

/-- On a path more segments are counted than there are. -/
theorem Stranded.length_lt_count (h : Stranded m s e es r)
    (hc : r.1.isCycle r.2.links = false) : es.length < r.1.count := by
  cases h with
  | cycle _ _ _ _ _ _ hl => exact absurd hl (beq_eq_false_iff_ne.1 hc)
  | path _ _ _ _ _ _ _ _ hover => exact hover

/-- A strand is left out if it comes around after at most two segments. -/
theorem Stranded.isDegenerate_eq (h : Stranded m s e es r) :
    r.1.isDegenerate r.2.links = (r.1.isCycle r.2.links && decide (es.length ≤ 2)) := by
  cases h with
  | cycle _ _ _ _ _ _ _ hcount => rw [Strand.isDegenerate, hcount]
  | @path strand s' _ _ _ _ _ _ hnone =>
    have his : strand.isCycle s'.links = false := beq_eq_false_iff_ne.2 (hnone _)
    rw [Strand.isDegenerate, his, Bool.false_and, Bool.false_and]

/-- The curve of a strand is closed if the strand comes around after more than two segments. -/
theorem Stranded.isClosed_eq (h : Stranded m s e es r) :
    r.1.isClosed r.2.links = (r.1.isCycle r.2.links && decide (2 < es.length)) := by
  cases h with
  | @cycle strand s' _ _ _ _ _ _ hl hcount =>
    have his : strand.isCycle s'.links = true := beq_iff_eq.2 hl
    rw [Strand.isClosed, his, hcount, Bool.true_or]
  | @path strand s' _ _ ht _ hfirst hlast hnone _ _ hcount =>
    have his : strand.isCycle s'.links = false := beq_eq_false_iff_ne.2 (hnone _)
    rw [Strand.isClosed, his, Bool.false_or, Bool.false_and]
    -- the ends of one segment are each other's twins as well, but then at most two were counted
    by_cases htwin : strand.first.twin = strand.last
    · obtain ⟨tail, rfl⟩ := List.head?_eq_some_iff.1 hfirst
      rw [← htwin, Endpoint.twin_twin] at hlast
      have hnil : tail = [] := by
        cases tail with
        | nil => rfl
        | cons z tail =>
          rw [List.getLast?_cons_cons] at hlast
          have hmem := List.mem_map_of_mem (f := Endpoint.segment) (List.mem_of_getLast? hlast)
          exact absurd hmem (List.nodup_cons.1 ht.nodup).1
      rw [hnil, List.length_singleton] at hcount
      have hle : ¬ 2 < strand.count := Nat.not_lt.2 hcount
      rw [decide_eq_false hle, Bool.and_false]
    · rw [beq_eq_false_iff_ne.2 htwin, Bool.false_and]

end

/-! ## From strand to strand -/

theorem strand_eq (t : Tracer α) (s : State α) (e : Endpoint) :
    t.strand s e = if (t.bothWays s e).2.isFree e then
      (⟨e, e.twin, 1⟩, (t.bothWays s e).2.claim e) else t.bothWays s e := by
  unfold strand bothWays
  dsimp only

/-- A strand is what two walks make: no start is left that nobody claimed. -/
theorem strand_eq_bothWays (hm : m.Traceable) (hj : t.junctions = m.junctions)
    (h : Standing m s ∅) (he : s.isFree e = true) :
    (t.bothWays s e).2.isFree e = false ∧ t.strand s e = t.bothWays s e := by
  obtain ⟨es, hs⟩ := stranded_bothWays hm hj h he
  have hclaimed : (t.bothWays s e).2.isFree e = false := hs.isFree_start
  refine ⟨hclaimed, ?_⟩
  rw [strand_eq, if_neg (Bool.not_eq_true _ ▸ hclaimed)]

theorem stranded (hm : m.Traceable) (hj : t.junctions = m.junctions) (h : Standing m s ∅)
    (he : s.isFree e = true) : ∃ es, Stranded m s e es (t.strand s e) := by
  rw [(strand_eq_bothWays hm hj h he).2]
  exact stranded_bothWays hm hj h he

/-- A strand keeps what departing and claiming keep. -/
theorem strand_keeps {P : State α → Prop} (hd : ∀ s e, P s → P (t.depart s e).2)
    (hc : ∀ s e, P s → P (s.claim e)) (h : P s) : P (t.strand s e).2 := by
  have hboth : P (t.bothWays s e).2 := by
    have hfollow := follow_keeps (e := e) hd hc h
    rcases hw : t.follow s e with ⟨w, s'⟩
    rw [hw] at hfollow
    rw [bothWays, hw]
    dsimp only
    split
    · exact hfollow
    · exact follow_keeps hd hc hfollow
  rw [strand_eq]
  generalize t.bothWays s e = r at hboth ⊢
  split
  · exact hc r.2 e hboth
  · exact hboth

/-- What is traced of a matching from its first `k` starts. -/
def after (t : Tracer α) (m : Matching α) (k : Nat) : Traced α :=
  (t.starts.take k).foldl t.traceFrom ⟨.start m, #[]⟩

theorem after_zero (t : Tracer α) (m : Matching α) : t.after m 0 = ⟨.start m, #[]⟩ := by
  rw [after, List.take_zero, List.foldl_nil]

theorem after_succ {k : Nat} (hk : t.starts[k]? = some e) :
    t.after m (k + 1) = t.traceFrom (t.after m k) e := by
  obtain ⟨hlt, rfl⟩ := List.getElem?_eq_some_iff.1 hk
  rw [after, List.take_succ_eq_append_getElem hlt, List.foldl_append, after]
  rfl

theorem after_of_length_le {k : Nat} (hk : t.starts.length ≤ k) :
    t.after m k = t.traceAll (.start m) := by
  rw [after, List.take_of_length_le hk, traceAll]

theorem after_succ_of_eq_none {k : Nat} (hk : t.starts[k]? = none) :
    t.after m (k + 1) = t.after m k := by
  have hlen := List.getElem?_eq_none_iff.1 hk
  rw [after_of_length_le (Nat.le_succ_of_le hlen), after_of_length_le hlen]

/-- A start is skipped if its segment was claimed already. -/
theorem traceFrom_of_isFree_eq_false {traced : Traced α} (he : traced.state.isFree e = false) :
    t.traceFrom traced e = traced := by
  rw [traceFrom, he, if_neg Bool.false_ne_true]

/-- What becomes of a strand: it is reported and left out, or its curve is added. -/
theorem traceFrom_of_isFree {traced : Traced α} {r : Strand × State α}
    (he : traced.state.isFree e = true) (hr : t.strand traced.state e = r) :
    (r.1.isDegenerate r.2.links = true ∧ t.traceFrom traced e =
      { traced with state := r.2.report (.info (.degenerateCycle r.1.first)) }) ∨
    (r.1.isDegenerate r.2.links = false ∧ t.traceFrom traced e =
      { state := r.2, curves := t.addCurve traced.curves r.2.links r.1 }) := by
  unfold traceFrom
  rw [if_pos he, hr]
  rcases r with ⟨strand, s'⟩
  dsimp only
  cases strand.isDegenerate s'.links with
  | true => exact .inl ⟨rfl, rfl⟩
  | false => exact .inr ⟨rfl, rfl⟩

omit [Scalar α] in
/-- A notice about a cycle that was left out is not one that the walks give. -/
theorem standing_report (h : Standing m s ∅) (e : Endpoint) :
    Standing m (s.report (.info (.degenerateCycle e))) ∅ := by
  have hx : (s.report (.info (.degenerateCycle e))).exhausted = s.exhausted := by
    rw [State.exhausted_report]
    exact List.append_nil _
  refine { h with nodup := hx ▸ h.nodup, mem_exhausted := ?_, unbroken := fun n hn => ?_ }
  · intro a
    rw [hx]
    exact h.mem_exhausted
  · rw [State.report, Array.mem_push] at hn
    rcases hn with hn | rfl
    · exact h.unbroken n hn
    · rfl

/-- What one start leaves behind: what was there before it, or what its strand leads to. -/
inductive Iterated (t : Tracer α) (m : Matching α) (k : Nat) : Prop
  | skipped : (t.after m (k + 1)).state = (t.after m k).state →
      (∀ e, t.starts[k]? = some e → (t.after m k).state.isFree e = false) → Iterated t m k
  | walked {e : Endpoint} {es : List Endpoint} {r : Strand × State α} : t.starts[k]? = some e →
      (t.after m k).state.isFree e = true → t.strand (t.after m k).state e = r →
      Stranded m (t.after m k).state e es r → (t.after m (k + 1)).state.links = r.2.links →
      (∀ a, (t.after m (k + 1)).state.isFree a = r.2.isFree a) →
      Standing m (t.after m (k + 1)).state ∅ → Iterated t m k

theorem iterated_of_standing (hm : m.Traceable) (hj : t.junctions = m.junctions) {k : Nat}
    (h : Standing m (t.after m k).state ∅) : Iterated t m k := by
  cases hk : t.starts[k]? with
  | none =>
    refine .skipped ?_ fun e he => ?_
    · rw [after_succ_of_eq_none hk]
    · rw [hk] at he
      cases he
  | some e =>
    have hsucc := after_succ (m := m) hk
    cases he : (t.after m k).state.isFree e with
    | false =>
      refine .skipped ?_ fun e' he' => ?_
      · rw [hsucc, traceFrom_of_isFree_eq_false he]
      · rw [hk] at he'
        cases he'
        exact he
    | true =>
      obtain ⟨es, hs⟩ := stranded hm hj h he
      obtain ⟨r, hr⟩ : ∃ r, t.strand (t.after m k).state e = r := ⟨_, rfl⟩
      rw [hr] at hs
      rcases traceFrom_of_isFree he hr with ⟨-, heq⟩ | ⟨-, heq⟩
      · rw [← hsucc] at heq
        refine .walked hk he hr hs (by rw [heq]; rfl) (fun a => by rw [heq]; rfl) ?_
        rw [heq]
        exact standing_report hs.standing _
      · rw [← hsucc] at heq
        refine .walked hk he hr hs (by rw [heq]) (fun a => by rw [heq]) ?_
        rw [heq]
        exact hs.standing

/-- Between two strands everything stands and nothing is open. -/
theorem standing_after (hm : m.Traceable) (hj : t.junctions = m.junctions) (k : Nat) :
    Standing m (t.after m k).state ∅ := by
  induction k with
  | zero =>
    rw [after_zero]
    exact .start hm
  | succ k ih =>
    cases iterated_of_standing hm hj ih with
    | skipped heq => rwa [heq]
    | walked _ _ _ _ _ _ hst => exact hst

theorem iterated (hm : m.Traceable) (hj : t.junctions = m.junctions) (k : Nat) : Iterated t m k :=
  iterated_of_standing hm hj (standing_after hm hj k)

/-- From strand to strand, what is settled stays as it is. -/
theorem evolves_after (hm : m.Traceable) (hj : t.junctions = m.junctions) {i k : Nat} (h : i ≤ k) :
    Evolves (t.after m i).state ∅ (t.after m k).state ∅ := by
  induction k, h using Nat.le_induction with
  | base => exact .refl _ _
  | succ k _ ih =>
    refine ih.trans ?_
    cases iterated hm hj k with
    | skipped heq =>
      rw [heq]
      exact .refl _ _
    | walked _ _ _ hs hl hf => exact hs.evolves.trans (.of_subset subset_rfl hl hf)

/-- What a start left free was free before it. -/
theorem isFree_of_after_succ (hm : m.Traceable) (hj : t.junctions = m.junctions) {k : Nat}
    {a : Endpoint} (h : (t.after m (k + 1)).state.isFree a = true) :
    (t.after m k).state.isFree a = true := by
  cases iterated hm hj k with
  | skipped heq => rwa [heq] at h
  | walked _ _ _ hs _ hf =>
    rw [hf] at h
    exact (hs.trail.isFree_iff.1 h).1

theorem isFree_after_start (hm : m.Traceable) (hj : t.junctions = m.junctions) {k : Nat}
    (hk : t.starts[k]? = some e) : (t.after m (k + 1)).state.isFree e = false := by
  cases iterated hm hj k with
  | skipped heq hclaimed => rw [heq, hclaimed e hk]
  | walked hk' _ _ hs _ hf =>
    rw [hk] at hk'
    cases hk'
    rw [hf, hs.isFree_start]

theorem isFree_of_after (hm : m.Traceable) (hj : t.junctions = m.junctions) {i k : Nat} (h : i ≤ k)
    {a : Endpoint} (ha : (t.after m k).state.isFree a = true) :
    (t.after m i).state.isFree a = true := by
  induction k, h using Nat.le_induction with
  | base => exact ha
  | succ k _ ih => exact ih (isFree_of_after_succ hm hj ha)

omit [Scalar α] in
/-- A free endpoint belongs to the segment of a start. -/
theorem exists_start (hm : m.Traceable) (hs : t.segments = m.segments) {a : Endpoint}
    (ha : (State.start m).isFree a = true) :
    ∃ (k : Nat) (e : Endpoint), t.starts[k]? = some e ∧ e.segment = a.segment := by
  have hlt : a.index < m.segments.size := hm.size_excluded ▸ (State.isFree_start.1 ha).1
  have hmem : Segments.start a ∈ t.starts := by
    have := hm.size_even
    rw [starts, hs, List.mem_filter, Segments.mem_endpoints hm.size_le, Segments.start]
    unfold Endpoint.isStart
    split
    · rename_i heven
      exact ⟨hlt, heven⟩
    · rename_i hodd
      rw [Bool.not_eq_true, beq_eq_false_iff_ne] at hodd
      rw [Endpoint.index_twin, if_neg hodd]
      exact ⟨by omega, beq_iff_eq.2 (by omega)⟩
  obtain ⟨k, hk⟩ := List.mem_iff_getElem?.1 hmem
  refine ⟨k, _, hk, ?_⟩
  rw [Segments.start]
  split
  · rfl
  · exact a.segment_twin

theorem isFree_traceAll (hm : m.Traceable) (hj : t.junctions = m.junctions)
    (hs : t.segments = m.segments) (a : Endpoint) :
    (t.traceAll (.start m)).state.isFree a = false := by
  rw [← Bool.not_eq_true, ← after_of_length_le (Nat.le_refl _)]
  intro ha
  have hstart := isFree_of_after hm hj (Nat.zero_le _) ha
  rw [after_zero] at hstart
  obtain ⟨k, e, hk, hea⟩ := exists_start hm hs hstart
  have hlt : k + 1 ≤ t.starts.length := (List.getElem?_eq_some_iff.1 hk).1
  have hfree := isFree_of_after hm hj hlt ha
  have hclaimed := isFree_after_start hm hj hk
  have htwin := (standing_after hm hj (k + 1)).twin_free e
  rcases Endpoint.segment_eq_iff.1 hea with rfl | rfl
  · rw [hfree] at hclaimed
    cases hclaimed
  · rw [Endpoint.twin_twin, hclaimed, hfree] at htwin
    cases htwin

end Tracer

/-- The first start of the star finds its segment free. -/
theorem starts_star :
    let t := Tracer.ofMatching Matching.starMatching .standard
    t.starts[0]? = some (.ofIndex 0) ∧
      (t.after Matching.starMatching 0).state.isFree (.ofIndex 0) = true := by
  dsimp only
  rw [Tracer.after_zero]
  decide +kernel

end DoubleCurve.Trace
