import DoubleCurve.Proofs.Trace.Following
import DoubleCurve.Proofs.Trace.Standing

/-!
# What a walk does

A walk stands on a segment that it claims in its next step. All statements are
about the state in which this segment is claimed already: then the endpoint by
which the walk leaves is an open end, and departing settles it (`Departed`). The
segments of a walk make a `Trail`: they follow one another, and they are what was
claimed since a state before it.

* `departed`: how a walk leaves an endpoint;
* `walked`: where it ends, by induction on its steps;
* `followed`: that nothing is left to take at its end but the last segment.
-/

namespace DoubleCurve.Trace

variable {α : Type} {m : Matching α} {s s' s'' : State α} {ends ends' ends'' rest : Set Endpoint}
  {a b e next : Endpoint} {j : Junction}

/-! ## Going on -/

/-- What stays as it is when a trace goes on from one state and its open ends to another. -/
structure Evolves (s : State α) (ends : Set Endpoint) (s' : State α) (ends' : Set Endpoint) :
    Prop where
  settled {a : Endpoint} : s.Settled ends a → s'.Settled ends' a
  kept {a : Endpoint} : s.Settled ends a → s'.links.get a = s.links.get a
  linked {a b : Endpoint} : s.links.get a = .endpoint b → s'.links.get a = .endpoint b

namespace Evolves

theorem trans (h : Evolves s ends s' ends') (h' : Evolves s' ends' s'' ends'') :
    Evolves s ends s'' ends'' where
  settled ha := h'.settled (h.settled ha)
  kept ha := (h'.kept (h.settled ha)).trans (h.kept ha)
  linked ha := h'.linked (h.linked ha)

/-- Settling open ends changes no link. -/
theorem of_subset (hends : ends' ⊆ ends) (hl : s'.links = s.links)
    (hf : ∀ a, s'.isFree a = s.isFree a) : Evolves s ends s' ends' where
  settled ha := ⟨(hf _).trans ha.1, fun hmem => ha.2 (hends hmem)⟩
  kept _ := by rw [hl]
  linked ha := by rwa [hl]

theorem claim (h : Standing m s ends) (he : s.isFree e = true) :
    Evolves s ends (s.claim e) (insert e (insert e.twin ends)) where
  settled {a} ha := by
    have het : s.isFree e.twin = true := by rw [h.twin_free, he]
    refine ⟨by rw [State.isFree_claim, ha.1, Bool.false_and], ?_⟩
    rintro (rfl | rfl | hmem)
    · rw [ha.1] at he
      cases he
    · rw [ha.1] at het
      cases het
    · exact ha.2 hmem
  kept _ := rfl
  linked ha := ha

end Evolves

/-- A walk that leaves by `e` arrives at a free endpoint: its segment can be claimed, and when the
link to it is settled, its other end is open instead of `e`. -/
theorem arrive (h : Standing m s (insert e rest)) (he : e ∉ rest) (hfree : s.isFree next = true) :
    Standing m (s.claim next.twin) (insert next.twin (insert next (insert e rest))) ∧
      Evolves s (insert e rest) (s.claim next.twin)
        (insert next.twin (insert next (insert e rest))) ∧
      ∀ c, c ∈ insert next.twin rest ↔
        c ∈ insert next.twin (insert next (insert e rest)) ∧ c ≠ e ∧ c ≠ next := by
  have htwin : s.isFree next.twin = true := by rw [h.twin_free, hfree]
  have hclaim := h.claim htwin
  have hgo := Evolves.claim h htwin
  rw [Endpoint.twin_twin] at hclaim hgo
  refine ⟨hclaim, hgo, fun c => ?_⟩
  have hne := next.twin_ne
  have hopen {c : Endpoint} (hc : c ∈ insert e rest) : c ≠ next ∧ c ≠ next.twin := by
    have := h.claimed hc
    grind
  have := hopen (Set.mem_insert e rest)
  have := @hopen c
  simp only [Set.mem_insert_iff] at *
  grind

/-- Claiming a segment twice changes nothing. -/
theorem State.isFree_claim_of_claimed (hpair : ∀ a, s.isFree a.twin = s.isFree a)
    (he : s.isFree e = false) (a : Endpoint) : (s.claim e).isFree a = s.isFree a := by
  rw [State.isFree_claim]
  by_cases ha : a.segment = e.segment
  · rw [ha, bne_self_eq_false, Bool.and_false]
    rcases Endpoint.segment_eq_iff.1 ha with rfl | rfl
    · exact he.symm
    · rw [hpair, he]
  · rw [bne_iff_ne.2 ha, Bool.and_true]

namespace Tracer

variable [Scalar α] {t : Tracer α} {u : Usages}

omit [Scalar α] in
theorem isWayOut_iff :
    isWayOut u e a = true ↔ a ≠ e ∧ a ≠ e.twin ∧ u.isFree a = true := by
  rw [isWayOut, Bool.and_eq_true, Bool.and_eq_true, bne_iff_ne, bne_iff_ne, and_assoc]

theorem keepBetter_cases {f : Endpoint → α} {c : Endpoint} {p : Endpoint × α}
    {best : Option (Endpoint × α)} (h : keepBetter f best c = some p) : p.1 = c ∨ best = some p := by
  unfold keepBetter at h
  dsimp only at h
  split at h
  · split at h
    · exact .inl (congrArg Prod.fst (Option.some.inj h)).symm
    · cases h
  · split at h
    · exact .inl (congrArg Prod.fst (Option.some.inj h)).symm
    · exact .inr h

theorem mem_of_foldl_keepBetter {f : Endpoint → α} {l : List Endpoint} {p : Endpoint × α}
    {best : Option (Endpoint × α)} (h : l.foldl (keepBetter f) best = some p) :
    p.1 ∈ l ∨ best = some p := by
  induction l generalizing best with
  | nil => exact .inr h
  | cons c l ih =>
    rcases ih h with hmem | hbest
    · exact .inl (List.mem_cons_of_mem c hmem)
    · refine (keepBetter_cases hbest).imp_left fun hp => ?_
      rw [hp]
      exact List.mem_cons_self

/-- The way out of a junction is by a member that is a way out. -/
theorem mem_of_straightest? (h : t.straightest? u e j = some next) :
    next ∈ t.junctions.members j ∧ isWayOut u e next = true := by
  rw [straightest?, Option.map_eq_some_iff] at h
  obtain ⟨p, hp, rfl⟩ := h
  rcases mem_of_foldl_keepBetter hp with hmem | hnone
  · exact List.mem_filter.1 hmem
  · cases hnone

/-- How a walk that leaves by `e` departs, when `rest` are the open ends beside `e`. -/
inductive Departed (m : Matching α) (s : State α) (e : Endpoint) (rest : Set Endpoint) :
    Option Endpoint × State α → Prop
  | ended {s' : State α} : s'.usages = s.usages → Standing m (s'.claim e) rest →
      (∀ b, s'.links.get e ≠ .endpoint b) → Evolves (s.claim e) (insert e rest) (s'.claim e) rest →
      Departed m s e rest (none, s')
  /-- The segment of `next` is free. When it is claimed too, its other end is open instead of
  `e`. -/
  | onward {s' : State α} {next : Endpoint} : s'.usages = s.usages →
      (s'.claim e).isFree next = true → s'.links.get e = .endpoint next →
      Standing m ((s'.claim e).claim next.twin) (insert next.twin rest) →
      Evolves (s.claim e) (insert e rest) ((s'.claim e).claim next.twin) (insert next.twin rest) →
      Departed m s e rest (some next, s')
  | around {next : Endpoint} : next ∈ rest → (s.claim e).isFree next = false →
      s.links.get e = .endpoint next → Standing m (s.claim e) (rest \ {next}) →
      Departed m s e rest (some next, s)

omit [Scalar α] in
theorem mend_eq_self (h : s.links.get next = .endpoint e) : mend s e next = s := by
  rw [mend, if_pos h]

omit [Scalar α] in
theorem departed_of_linked (h : Standing m (s.claim e) (insert e rest)) (he : e ∉ rest)
    (hl : s.links.get e = .endpoint next) : Departed m s e rest (some next, s) := by
  by_cases hfree : (s.claim e).isFree next = true
  · obtain ⟨hclaim, hgo, hends⟩ := arrive h he hfree
    have hle : ((s.claim e).claim next.twin).links.get e = .endpoint next := by
      rw [State.links_claim, State.links_claim, hl]
    refine .onward rfl hfree hl (hclaim.cross (by simp) (by simp) hle hends) (hgo.trans ?_)
    exact .of_subset (fun c hc => ((hends c).1 hc).1) rfl fun _ => rfl
  · -- a settled endpoint is not linked to an open one, so `next` is open as well
    rw [Bool.not_eq_true] at hfree
    have hne : next ≠ e := fun hne => h.ne_self e (by rw [State.links_claim, hl, hne])
    have hrest : next ∈ rest := by
      by_contra hrest
      have hset : (s.claim e).Settled (insert e rest) next :=
        ⟨hfree, fun hmem => hmem.elim hne hrest⟩
      exact (h.closed hset (h.returned hl)).2 (Set.mem_insert e rest)
    refine .around hrest hfree hl (h.cross (Set.mem_insert e rest) (.inr hrest) hl fun c => ?_)
    rw [Set.mem_sdiff, Set.mem_singleton_iff, Set.mem_insert_iff]
    grind

omit [Scalar α] in
theorem claim_relinked (s : State α) (l : Links) (e : Endpoint) :
    { s.claim e with links := l } = { s with links := l }.claim e := rfl

omit [Scalar α] in
/-- A walk departs from a junction by a member that is a way out. -/
theorem departed_of_wayOut (hm : m.Traceable) (h : Standing m (s.claim e) (insert e rest))
    (he : e ∉ rest) (hl : s.links.get e = .junction j) (hmem : next ∈ m.junctions.members j)
    (hout : isWayOut s.usages e next = true) :
    Departed m s e rest (some next, { s with links := s.links.pair e next }) := by
  obtain ⟨hne, hnt, hu⟩ := isWayOut_iff.1 hout
  have hseg : next.segment ≠ e.segment := fun hseg =>
    (Endpoint.segment_eq_iff.1 hseg).elim hne hnt
  have hfree : (s.claim e).isFree next = true := by
    rw [State.isFree_claim, bne_iff_ne.2 hseg, Bool.and_true]
    exact hu
  obtain ⟨hclaim, hgo, hends⟩ := arrive h he hfree
  have hln : s.links.get next = .junction j := by
    rw [← s.links_claim (e := e), h.original (.inl hfree), hm.tied.mem_iff.1 hmem]
  have hget := Links.get_pair (Links.index_lt_of_get_ne (by rw [hl]; simp) : e.index < _)
    (Links.index_lt_of_get_ne (by rw [hln]; simp) : next.index < _)
  have hlinks : ((s.claim e).claim next.twin).links = s.links := by
    rw [State.links_claim, State.links_claim]
  have hst := hclaim.relink (by simp) (by simp) hne.symm (by rwa [hlinks]) (by rwa [hlinks]) hends
  rw [hlinks, claim_relinked, claim_relinked] at hst
  refine .onward rfl hfree ?_ hst ⟨?_, ?_, ?_⟩
  · show (s.links.pair e next).get e = _
    rw [hget, if_neg hne.symm, if_pos rfl]
  · intro a ha
    exact ⟨(hgo.settled ha).1, fun hmem => (hgo.settled ha).2 ((hends a).1 hmem).1⟩
  · intro a ha
    have hae : a ≠ e := fun hae => ha.2 (hae ▸ Set.mem_insert e rest)
    have han : a ≠ next := fun han => by
      rw [← han, ha.1] at hfree
      cases hfree
    show (s.links.pair e next).get a = _
    rw [hget, if_neg han, if_neg hae, State.links_claim]
  · intro a b ha
    rw [State.links_claim] at ha
    show (s.links.pair e next).get a = _
    rw [hget]
    grind

/-- A walk departs in one of three ways. -/
theorem departed (hm : m.Traceable) (hj : t.junctions = m.junctions)
    (h : Standing m (s.claim e) (insert e rest)) (he : e ∉ rest) :
    Departed m s e rest (t.depart s e) := by
  have hends (c : Endpoint) : c ∈ rest ↔ c ∈ insert e rest ∧ c ≠ e := by
    rw [Set.mem_insert_iff]
    grind
  have hsub : rest ⊆ insert e rest := fun c hc => .inr hc
  unfold depart
  split
  · rename_i hl
    exact .ended rfl (h.stop hl hends) (by simp [hl]) (.of_subset hsub rfl fun _ => rfl)
  · rename_i next hl
    have hback : s.links.get next = .endpoint e := h.returned hl
    rw [mend_eq_self hback]
    exact departed_of_linked h he hl
  · rename_i j hl
    split
    · rename_i next hnext
      obtain ⟨hmem, hout⟩ := mem_of_straightest? hnext
      exact departed_of_wayOut hm h he hl (hj ▸ hmem) hout
    · refine .ended rfl ?_ (by simp [hl]) (.of_subset hsub rfl fun _ => rfl)
      exact h.exhaust (Set.mem_insert e rest) hl rfl rfl hends

end Tracer

/-! ## The segments walked over -/

/-- The segments claimed since a state, each by the endpoint at which it is entered when they are
read from the last one claimed. -/
structure Trail (before s : State α) (es : List Endpoint) : Prop where
  follows : es.IsChain s.links.Follows
  nodup : (es.map Endpoint.segment).Nodup
  free {x : Endpoint} : x ∈ es → before.isFree x = true
  isFree_iff {a : Endpoint} :
    s.isFree a = true ↔ before.isFree a = true ∧ a.segment ∉ es.map Endpoint.segment

namespace Trail

variable {before : State α} {es : List Endpoint}

theorem single (h : s.isFree e = true) : Trail s (s.claim e) [e] := by
  refine ⟨List.isChain_singleton e, List.nodup_singleton _, fun hx => ?_, fun {a} => ?_⟩
  · rwa [List.mem_singleton.1 hx]
  · rw [State.isFree_claim, Bool.and_eq_true, bne_iff_ne, List.map_singleton, List.mem_singleton]

/-- Relinking junctions leaves a trail as it is. -/
theorem evolve (h : Trail before s es)
    (hl : ∀ {a b : Endpoint}, s.links.get a = .endpoint b → s'.links.get a = .endpoint b)
    (hf : ∀ a, s'.isFree a = s.isFree a) : Trail before s' es where
  follows := h.follows.imp fun _ _ hab => ⟨hl hab.1, hl hab.2⟩
  nodup := h.nodup
  free := h.free
  isFree_iff {a} := by rw [hf, h.isFree_iff]

theorem step (h : Trail before s (e :: es)) (hfree : s.isFree next.twin = true)
    (hl : s.links.get e = .endpoint next) (hback : s.links.get next = .endpoint e) :
    Trail before (s.claim next.twin) (next.twin :: e :: es) := by
  obtain ⟨hb, hnot⟩ := h.isFree_iff.1 hfree
  refine ⟨h.follows.cons_cons ⟨?_, ?_⟩, List.nodup_cons.2 ⟨hnot, h.nodup⟩, fun hx => ?_, fun {a} => ?_⟩
  · rw [State.links_claim, Endpoint.twin_twin, hback]
  · rw [State.links_claim, Endpoint.twin_twin, hl]
  · rcases List.mem_cons.1 hx with rfl | hx
    · exact hb
    · exact h.free hx
  · rw [State.isFree_claim, Bool.and_eq_true, bne_iff_ne, h.isFree_iff, List.map_cons (a := next.twin),
      List.mem_cons, not_or, and_assoc, and_comm (a := a.segment ≠ _)]

/-- A trail can be read backwards. -/
theorem backward (h : Trail before s es) (htwin : ∀ a, before.isFree a.twin = before.isFree a) :
    Trail before s (backward es) where
  follows := isChain_backward h.follows
  nodup := by
    rw [map_segment_backward]
    exact List.nodup_reverse.2 h.nodup
  free hx := by
    rw [← htwin]
    exact h.free (mem_backward.1 hx)
  isFree_iff {a} := by rw [map_segment_backward, List.mem_reverse, h.isFree_iff]

end Trail

namespace Tracer

variable [Scalar α] {t : Tracer α} {before : State α} {es new : List Endpoint} {last : Endpoint}

/-- Where a walk is that left by `e` and walked over `new` since, when it was over `es` before. -/
structure Reached (m : Matching α) (before s : State α) (e : Endpoint) (rest : Set Endpoint)
    (es new : List Endpoint) (last : Endpoint) (s' : State α) (ends : Set Endpoint) : Prop where
  head : (new ++ e :: es).head? = some last
  trail : Trail before s' (new ++ e :: es)
  evolves : Evolves (s.claim e) (insert e rest) s' ends
  standing : Standing m s' ends

omit [Scalar α] in
theorem Reached.prepend
    (hev : Evolves (s.claim e) (insert e rest) (s'.claim a) (insert a rest))
    (h : Reached m before s' a rest (e :: es) new last s'' ends) :
    Reached m before s e rest es (new ++ [a]) last s'' ends := by
  have happ : new ++ [a] ++ e :: es = new ++ a :: e :: es := by
    rw [List.append_assoc, List.singleton_append]
  exact ⟨happ ▸ h.head, happ ▸ h.trail, hev.trans h.evolves, h.standing⟩

/-- How a walk ends that left by `e`. -/
inductive Walked (m : Matching α) (before s : State α) (e : Endpoint) (rest : Set Endpoint)
    (es new : List Endpoint) : Walk × State α → Prop
  /-- There was no way on. The last segment is not claimed by the walk. -/
  | ended {w : Walk} {s' : State α} :
      Reached m before s e rest es new w.last (s'.claim w.last) rest →
      (∀ b, s'.links.get w.last ≠ .endpoint b) → w.last ∉ rest →
      (∀ a, s'.isFree a.twin = s'.isFree a) →
      (s'.isFree w.last = true ↔ s.isFree e = true ∨ new ≠ []) → w.count = new.length →
      Walked m before s e rest es new (w, s')
  | around {w : Walk} {s' : State α} {b : Endpoint} : b ∈ rest → s'.isFree b = false →
      Reached m before s e rest es new w.last s' (rest \ {b}) →
      s'.links.get w.last = .endpoint b → s'.isFree w.last = false → w.count = new.length + 1 →
      Walked m before s e rest es new (w, s')

omit [Scalar α] in
/-- Where a walk goes on, its other end is free and no open end. -/
theorem twin_of_onward (h : Standing m (s.claim e) (insert e rest)) (hu : s'.usages = s.usages)
    (hfree : (s'.claim e).isFree next = true) :
    (s'.claim e).isFree next.twin = true ∧ next.twin ∉ rest := by
  have hf (a : Endpoint) : (s'.claim e).isFree a = (s.claim e).isFree a := by
    rw [State.isFree_claim, State.isFree_claim, State.isFree, hu, State.isFree]
  have htwin : (s.claim e).isFree next.twin = true := by rw [h.twin_free, ← hf, hfree]
  refine ⟨by rw [hf, htwin], fun hmem => ?_⟩
  rw [h.claimed (.inr hmem)] at htwin
  cases htwin

/-- Every walk ends in one of two ways. -/
theorem walked (hm : m.Traceable) (hj : t.junctions = m.junctions)
    (h : Standing m (s.claim e) (insert e rest)) (he : e ∉ rest)
    (hs : ∀ a, s.isFree a.twin = s.isFree a) (ht : Trail before (s.claim e) (e :: es)) :
    ∃ new, Walked m before s e rest es new (t.walk s e) := by
  have hdep := departed hm hj h he
  fun_induction t.walk s e generalizing es with
  | case1 s e s' hd =>
    rw [hd] at hdep
    cases hdep with
    | ended hu hst hnone hev =>
      have hf (a : Endpoint) : (s'.claim e).isFree a = (s.claim e).isFree a := by
        rw [State.isFree_claim, State.isFree_claim, State.isFree, hu, State.isFree]
      refine ⟨[], .ended ⟨rfl, ht.evolve hev.linked hf, hev, hst⟩ hnone he (fun a => ?_) ?_ rfl⟩
      · rw [State.isFree, hu, State.isFree, hu]
        exact hs a
      · rw [State.isFree, hu, ← State.isFree]
        simp
  | case2 s e next s' hd claimed hfree w s'' hw =>
    rename_i ih
    rw [hd] at hdep
    cases hdep with
    | onward hu _ hl hst hev =>
      have hf (a : Endpoint) : claimed.isFree a = (s.claim e).isFree a := by
        rw [State.isFree_claim, State.isFree_claim, State.isFree, hu, State.isFree]
      obtain ⟨htwin, hnot⟩ := twin_of_onward h hu hfree
      have hlinks : (claimed.claim next.twin).links = s'.links := by
        rw [State.links_claim, State.links_claim]
      have hback : claimed.links.get next = .endpoint e := by
        rw [State.links_claim, ← hlinks]
        exact hst.returned (by rw [hlinks, hl])
      have hgo : claimed.links.get e = .endpoint next := by rw [State.links_claim, hl]
      have htrail : Trail before claimed (e :: es) := ht.evolve hev.linked hf
      have hs' (a : Endpoint) : claimed.isFree a.twin = claimed.isFree a := by
        rw [hf, h.twin_free, hf]
      obtain ⟨new, hwalked⟩ :=
        ih hst hnot hs' (htrail.step htwin hgo hback) (departed hm hj hst hnot)
      rw [hw] at hwalked
      refine ⟨new ++ [next.twin], ?_⟩
      cases hwalked with
      | ended hr hnone hlast hpair hwas hcount =>
        refine .ended (hr.prepend hev) hnone hlast hpair ?_ ?_
        · rw [hwas, htwin]
          simp
        · rw [List.length_append, hcount, List.length_singleton]
      | around hb hbf hr hlb hlast hcount =>
        refine .around hb hbf (hr.prepend hev) hlb hlast ?_
        rw [List.length_append, hcount, List.length_singleton]
    | around _ hnf => exact absurd hfree (by rw [hnf]; simp)
  | case3 s e next s' hd claimed =>
    rename_i hfree
    rw [hd] at hdep
    cases hdep with
    | onward _ hfree' => exact absurd hfree' hfree
    | around hrest hnf hl hst =>
      refine ⟨[], .around hrest hnf ⟨rfl, ht, .of_subset ?_ rfl fun _ => rfl, hst⟩ hl ?_ rfl⟩
      · exact fun c hc => .inr hc.1
      · exact State.isFree_claim_self s e

/-- How a walk ends when what is free at its end is taken. -/
inductive Followed (m : Matching α) (before s : State α) (e : Endpoint) (rest : Set Endpoint)
    (es new : List Endpoint) : Walk × State α → Prop
  | ended {w : Walk} {s' : State α} : Reached m before s e rest es new w.last s' rest →
      (∀ b, s'.links.get w.last ≠ .endpoint b) → w.last ∉ rest →
      (w.count = if s.isFree e = true ∨ new ≠ [] then new.length + 1 else 0) →
      Followed m before s e rest es new (w, s')
  | around {w : Walk} {s' : State α} {b : Endpoint} : b ∈ rest →
      Reached m before s e rest es new w.last s' (rest \ {b}) →
      s'.links.get w.last = .endpoint b → w.count = new.length + 1 →
      Followed m before s e rest es new (w, s')

omit [Scalar α] in
theorem takePartner_of_walked {w : Walk} (h : Walked m before s e rest es new (w, s')) :
    takePartner w s' = (w, s') := by
  unfold takePartner
  split
  · rename_i partner hl
    cases h with
    | ended _ hnone => exact absurd hl (hnone partner)
    | around _ hbf _ hlb =>
      rw [hl] at hlb
      cases hlb
      rw [hbf]
      rfl
  · rfl

omit [Scalar α] in
/-- A claimed segment need not be claimed again. -/
theorem Reached.unclaim (h : Reached m before s e rest es new last (s'.claim last) ends)
    (hpair : ∀ a, s'.isFree a.twin = s'.isFree a) (hlast : s'.isFree last = false) :
    Reached m before s e rest es new last s' ends := by
  have hf (a : Endpoint) := (State.isFree_claim_of_claimed hpair hlast a).symm
  exact ⟨h.head, h.trail.evolve id hf, h.evolves.trans (.of_subset subset_rfl rfl hf),
    h.standing.congr rfl rfl hf⟩

theorem followed (hm : m.Traceable) (hj : t.junctions = m.junctions)
    (h : Standing m (s.claim e) (insert e rest)) (he : e ∉ rest)
    (hs : ∀ a, s.isFree a.twin = s.isFree a) (ht : Trail before (s.claim e) (e :: es)) :
    ∃ new, Followed m before s e rest es new (t.follow s e) := by
  obtain ⟨new, hw⟩ := walked hm hj h he hs ht
  refine ⟨new, ?_⟩
  rcases hwalk : t.walk s e with ⟨w, s'⟩
  rw [hwalk] at hw
  rw [follow, hwalk]
  dsimp only
  rw [takePartner_of_walked hw]
  show Followed m before s e rest es new (takeLast w s')
  unfold takeLast
  cases hw with
  | ended hr hnone hlast hpair hwas hcount =>
    split
    · rename_i hfree
      refine .ended hr hnone hlast ?_
      rw [if_pos (hwas.1 hfree), hcount]
    · rename_i hfree
      have hnew : ¬(s.isFree e = true ∨ new ≠ []) := fun hnew => hfree (hwas.2 hnew)
      rw [Bool.not_eq_true] at hfree
      refine .ended (hr.unclaim hpair hfree) hnone hlast ?_
      rw [if_neg hnew, hcount, List.length_eq_zero_iff]
      exact not_not.1 fun hne => hnew (.inr hne)
  | around hb _ hr hlb hlast hcount =>
    rw [hlast]
    exact .around hb hr hlb hcount

/-! ## What every step keeps -/

section

variable {P : State α → Prop}

/-- A walk keeps what departing and claiming keep. -/
theorem walk_keeps (hd : ∀ s e, P s → P (t.depart s e).2) (hc : ∀ s e, P s → P (s.claim e))
    (h : P s) : P (t.walk s e).2 := by
  have hdep := hd s e h
  fun_induction t.walk s e with
  | case1 s e s' heq => rwa [heq] at hdep
  | case2 s e next s' heq claimed hfree w s'' hw =>
    rename_i ih
    rw [heq] at hdep
    have hclaim : P claimed := hc s' e hdep
    have := ih hclaim (hd claimed next.twin hclaim)
    rwa [hw] at this
  | case3 s e next s' heq =>
    rw [heq] at hdep
    exact hc s' e hdep

/-- What is taken at the end of a walk is only claimed. -/
theorem follow_keeps_of_walk (hc : ∀ s e, P s → P (s.claim e)) (h : P (t.walk s e).2) :
    P (t.follow s e).2 := by
  have hpartner (w : Walk) {s : State α} (h : P s) : P (takePartner w s).2 := by
    unfold takePartner
    split
    · split
      · exact hc s _ h
      · exact h
    · exact h
  have hlast (w : Walk) {s : State α} (h : P s) : P (takeLast w s).2 := by
    unfold takeLast
    split
    · exact hc s _ h
    · exact h
  exact hlast _ (hpartner _ h)

theorem follow_keeps (hd : ∀ s e, P s → P (t.depart s e).2) (hc : ∀ s e, P s → P (s.claim e))
    (h : P s) : P (t.follow s e).2 :=
  follow_keeps_of_walk hc (walk_keeps hd hc h)

/-- A walk keeps what departing keeps while everything stands and what claiming keeps. -/
theorem walk_keeps_standing (hm : m.Traceable) (hj : t.junctions = m.junctions)
    (hd : ∀ s e, Standing m (s.claim e) (insert e rest) → e ∉ rest → P s → P (t.depart s e).2)
    (hc : ∀ s e, P s → P (s.claim e)) (hst : Standing m (s.claim e) (insert e rest)) (he : e ∉ rest)
    (h : P s) : P (t.walk s e).2 := by
  have hdep := departed hm hj hst he
  have hkept := hd s e hst he h
  fun_induction t.walk s e with
  | case1 s e s' heq => rwa [heq] at hkept
  | case2 s e next s' heq claimed hfree w s'' hw =>
    rename_i ih
    rw [heq] at hkept hdep
    have hclaim : P claimed := hc s' e hkept
    cases hdep with
    | onward hu _ _ hst' =>
      obtain ⟨-, hnot⟩ := twin_of_onward hst hu hfree
      have := ih hst' hnot hclaim (departed hm hj hst' hnot) (hd _ _ hst' hnot hclaim)
      rwa [hw] at this
    | around _ hnf => exact absurd hfree (by rw [hnf]; simp)
  | case3 s e next s' heq =>
    rw [heq] at hkept
    exact hc s' e hkept

theorem follow_keeps_standing (hm : m.Traceable) (hj : t.junctions = m.junctions)
    (hd : ∀ s e, Standing m (s.claim e) (insert e rest) → e ∉ rest → P s → P (t.depart s e).2)
    (hc : ∀ s e, P s → P (s.claim e)) (hst : Standing m (s.claim e) (insert e rest)) (he : e ∉ rest)
    (h : P s) : P (t.follow s e).2 :=
  follow_keeps_of_walk hc (walk_keeps_standing hm hj hd hc hst he h)

end

end Tracer

end DoubleCurve.Trace
