import DoubleCurve.Proofs.Matching.Build
import DoubleCurve.Trace.Curves
import Mathlib.Data.Set.Insert

/-!
# What stands while a matching is traced

A trace claims segments, relinks the members of junctions and reports what it
finds. `Standing` says how far this can have gone. It speaks of the open ends of
the walk that is going on: endpoints of claimed segments that the walk has not
left yet. Every other endpoint that is not free is settled: what it is linked to
is settled as well, or it has no link, or it was reported at its junction.

The steps of a trace are made of these transitions:

* `Standing.claim`: both endpoints of a free segment become open ends;
* `Standing.cross`: two open ends that are linked already are settled;
* `Standing.relink`: two open ends at one junction are linked and settled;
* `Standing.stop`, `Standing.exhaust`: one open end is settled without a link to
  another endpoint.
-/

namespace DoubleCurve.Trace

/-- The endpoint at which a notice reports an exhausted junction, if it does. -/
def exhaustedAt? {α : Type} (n : Notice α) : Option Endpoint :=
  match n.finding with
  | .exhaustedJunction _ _ e _ => some e
  | _ => none

/-- Whether a notice reports a link that was not returned. -/
def isBrokenLink {α : Type} (n : Notice α) : Bool :=
  match n.finding with
  | .brokenLink .. => true
  | _ => false

variable {α : Type}

namespace State

/-- Where exhausted junctions were reported, in order. -/
def exhausted (s : State α) : List Endpoint := s.notices.toList.filterMap exhaustedAt?

/-- Whether `a` is neither free nor an open end. -/
def Settled (s : State α) (ends : Set Endpoint) (a : Endpoint) : Prop :=
  s.isFree a = false ∧ a ∉ ends

theorem exhausted_report (s : State α) (n : Notice α) :
    (s.report n).exhausted = s.exhausted ++ (exhaustedAt? n).toList := by
  rw [exhausted, report, Array.toList_push, List.filterMap_append, List.filterMap_cons,
    List.filterMap_nil, exhausted]
  cases exhaustedAt? n <;> rfl

end State

/-- What stands while `m` is traced and `ends` are the open ends. -/
structure Standing (m : Matching α) (s : State α) (ends : Set Endpoint) : Prop where
  returned {a b : Endpoint} : s.links.get a = .endpoint b → s.links.get b = .endpoint a
  ne_self (a : Endpoint) : s.links.get a ≠ .endpoint a
  twin_free (a : Endpoint) : s.isFree a.twin = s.isFree a
  /-- The links of free endpoints and open ends are those of the matching. -/
  original {a : Endpoint} : s.isFree a = true ∨ a ∈ ends → s.links.get a = m.links.get a
  relinked {a : Endpoint} : s.links.get a ≠ m.links.get a →
    ∃ b j, s.links.get a = .endpoint b ∧ m.links.get a = .junction j ∧ m.links.get b = .junction j
  claimed {a : Endpoint} : a ∈ ends → s.isFree a = false
  closed {a b : Endpoint} : s.Settled ends a → s.links.get a = .endpoint b → s.Settled ends b
  nodup : s.exhausted.Nodup
  /-- The endpoints that were reported are the settled ones whose link is a junction. -/
  mem_exhausted {a : Endpoint} : a ∈ s.exhausted ↔ s.Settled ends a ∧ ∃ j, s.links.get a = .junction j
  unbroken : ∀ n ∈ s.notices, isBrokenLink n = false

namespace Standing

variable {m : Matching α} {s s' : State α} {ends ends' : Set Endpoint} {a b e : Endpoint}
  {j : Junction} {n : Notice α}

/-- What is linked can be walked over at first. -/
theorem isFree_start_of_linked (h : m.Traceable) (ha : m.links.get a ≠ .unpaired) :
    (State.start m).isFree a = true := by
  obtain ⟨hmem, hx⟩ := List.mem_filter.1 (h.tied.mem_of_linked ha)
  rw [Segments.mem_endpoints h.size_le] at hmem
  exact State.isFree_start.2 ⟨h.size_excluded ▸ hmem, by simpa using hx⟩

/-- Before the first walk everything stands and nothing is open. -/
theorem start (h : m.Traceable) : Standing m (.start m) ∅ := by
  have hlinked {a : Endpoint} (ha : m.links.get a ≠ .unpaired) := isFree_start_of_linked h ha
  refine ⟨h.tied.returned, h.tied.ne_self, fun a => ?_, fun _ => rfl, fun ha => (ha rfl).elim,
    fun ha => ha.elim, fun ha hb => ?_, List.nodup_nil, fun {a} => ?_, fun n hn => ?_⟩
  · have htwin : a.twin.index < m.excluded.size ↔ a.index < m.excluded.size := by
      have := h.size_even
      rw [← h.size_excluded] at this
      rw [Endpoint.index_twin]
      split <;> omega
    rw [Bool.eq_iff_iff, State.isFree_start, State.isFree_start, htwin, h.excluded_twin]
  · change m.links.get _ = _ at hb
    have := ha.1
    rw [hlinked (by rw [hb]; simp)] at this
    cases this
  · refine ⟨fun ha => by simp [State.exhausted, State.start] at ha, fun ⟨ha, j, hj⟩ => ?_⟩
    change m.links.get _ = _ at hj
    rw [State.Settled, hlinked (by rw [hj]; simp)] at ha
    cases ha.1
  · simp [State.start] at hn

/-- What stands depends on usages only through what is free. -/
theorem congr (h : Standing m s ends) (hl : s'.links = s.links) (hn : s'.notices = s.notices)
    (hf : ∀ a, s'.isFree a = s.isFree a) : Standing m s' ends := by
  have hx : s'.exhausted = s.exhausted := by rw [State.exhausted, hn, State.exhausted]
  have hs (a : Endpoint) : s'.Settled ends a ↔ s.Settled ends a := by
    rw [State.Settled, hf, State.Settled]
  refine ⟨hl ▸ h.returned, hl ▸ h.ne_self, fun a => ?_, ?_, hl ▸ h.relinked, ?_, ?_, hx ▸ h.nodup, ?_,
    hn ▸ h.unbroken⟩
  · rw [hf, hf, h.twin_free]
  · intro a
    rw [hf, hl]
    exact h.original
  · intro a
    rw [hf]
    exact h.claimed
  · intro a b
    rw [hs, hs, hl]
    exact h.closed
  · intro a
    rw [hx, hs, hl]
    exact h.mem_exhausted

/-- Both endpoints of a free segment become open ends. -/
theorem claim (h : Standing m s ends) (he : s.isFree e = true) :
    Standing m (s.claim e) (insert e (insert e.twin ends)) := by
  have het : s.isFree e.twin = true := by rw [h.twin_free, he]
  have hs (a : Endpoint) :
      (s.claim e).Settled (insert e (insert e.twin ends)) a ↔ s.Settled ends a := by
    simp only [State.Settled, State.isFree_claim, Set.mem_insert_iff, Bool.and_eq_false_iff, bne_eq_false_iff_eq,
      Endpoint.segment_eq_iff]
    grind
  refine ⟨h.returned, h.ne_self, fun a => ?_, ?_, h.relinked, ?_, ?_, h.nodup, ?_, h.unbroken⟩
  · rw [State.isFree_claim, State.isFree_claim, h.twin_free, Endpoint.segment_twin]
  · rintro a (ha | rfl | rfl | ha)
    · rw [State.isFree_claim, Bool.and_eq_true] at ha
      exact h.original (.inl ha.1)
    · exact h.original (.inl he)
    · exact h.original (.inl het)
    · exact h.original (.inr ha)
  · rintro a (rfl | rfl | ha)
    · exact State.isFree_claim_self s a
    · rw [State.isFree_claim, Endpoint.segment_twin, bne_self_eq_false, Bool.and_false]
    · rw [State.isFree_claim, h.claimed ha, Bool.false_and]
  · intro a b
    rw [hs, hs]
    exact h.closed
  · intro a
    rw [hs]
    exact h.mem_exhausted

/-! ## Settling open ends -/

/-- Open ends can be settled that are linked to one another or to nothing. -/
theorem settle (h : Standing m s ends) (hsub : ends' ⊆ ends)
    (hj : ∀ a ∈ ends, a ∉ ends' → ∀ j, s.links.get a ≠ .junction j)
    (hb : ∀ a ∈ ends, a ∉ ends' → ∀ b, s.links.get a = .endpoint b → b ∈ ends ∧ b ∉ ends') :
    Standing m s ends' := by
  refine { h with original := ?_, claimed := ?_, closed := ?_, mem_exhausted := ?_ }
  · exact fun ha => h.original (ha.imp_right fun ha => hsub ha)
  · exact fun ha => h.claimed (hsub ha)
  · intro a b ⟨hfree, ha⟩ hab
    by_cases hmem : a ∈ ends
    · obtain ⟨hbm, hbn⟩ := hb a hmem ha b hab
      exact ⟨h.claimed hbm, hbn⟩
    · obtain ⟨hbf, hbn⟩ := h.closed ⟨hfree, hmem⟩ hab
      exact ⟨hbf, fun hb => hbn (hsub hb)⟩
  · intro a
    rw [h.mem_exhausted]
    refine ⟨fun ⟨⟨hfree, ha⟩, hja⟩ => ⟨⟨hfree, fun ha' => ha (hsub ha')⟩, hja⟩,
      fun ⟨⟨hfree, ha⟩, hja⟩ => ⟨⟨hfree, fun hmem => ?_⟩, hja⟩⟩
    obtain ⟨j, hja⟩ := hja
    exact hj a hmem ha j hja

/-- Two open ends that are linked already are settled. -/
theorem cross (h : Standing m s ends) (ha : a ∈ ends) (hb : b ∈ ends)
    (hab : s.links.get a = .endpoint b) (hends : ∀ c, c ∈ ends' ↔ c ∈ ends ∧ c ≠ a ∧ c ≠ b) :
    Standing m s ends' := by
  have hba := h.returned hab
  refine h.settle (fun c hc => ((hends c).1 hc).1) (fun c hc hc' j hj => ?_)
    (fun c hc hc' d hd => ?_)
  · rw [hends] at hc'
    grind
  · rw [hends] at hc' ⊢
    grind

/-- An open end that is linked to nothing is settled. -/
theorem stop (h : Standing m s ends) (ha : s.links.get a = .unpaired)
    (hends : ∀ c, c ∈ ends' ↔ c ∈ ends ∧ c ≠ a) : Standing m s ends' := by
  refine h.settle (fun c hc => ((hends c).1 hc).1) (fun c hc hc' j hj => ?_)
    (fun c hc hc' d hd => ?_)
  · rw [hends] at hc'
    grind
  · rw [hends] at hc'
    grind

/-- An open end at a junction is reported and settled. -/
theorem exhaust (h : Standing m s ends) (ha : a ∈ ends) (hj : s.links.get a = .junction j)
    (hx : exhaustedAt? n = some a) (hn : isBrokenLink n = false)
    (hends : ∀ c, c ∈ ends' ↔ c ∈ ends ∧ c ≠ a) : Standing m (s.report n) ends' := by
  have hexhausted : (s.report n).exhausted = s.exhausted ++ [a] := by
    rw [State.exhausted_report, hx]
    rfl
  have hs (c : Endpoint) : (s.report n).Settled ends' c ↔ s.Settled ends c ∨ c = a := by
    have := h.claimed ha
    rw [State.Settled, State.Settled, hends, State.isFree_report]
    grind
  have hnot : a ∉ s.exhausted := fun hmem => (h.mem_exhausted.1 hmem).1.2 ha
  refine ⟨h.returned, h.ne_self, h.twin_free, fun hc => h.original (hc.imp_right fun hc => ?_),
    h.relinked, fun hc => h.claimed ((hends _).1 hc).1, fun {c d} hc hd => ?_, ?_, fun {c} => ?_,
    fun k hk => ?_⟩
  · exact ((hends _).1 hc).1
  · rw [hs] at hc ⊢
    rcases hc with hc | rfl
    · exact .inl (h.closed hc hd)
    · rw [State.links_report, hj] at hd
      cases hd
  · rw [hexhausted]
    exact h.nodup.append (List.nodup_singleton a) (List.disjoint_singleton.2 hnot)
  · rw [hexhausted, List.mem_append, List.mem_singleton, h.mem_exhausted, hs, State.links_report]
    grind
  · rw [State.report, Array.mem_push] at hk
    rcases hk with hk | rfl
    · exact h.unbroken k hk
    · exact hn

/-- Two open ends at one junction are linked to each other and settled. -/
theorem relink (h : Standing m s ends) (ha : a ∈ ends) (hb : b ∈ ends) (hab : a ≠ b)
    (hja : s.links.get a = .junction j) (hjb : s.links.get b = .junction j)
    (hends : ∀ c, c ∈ ends' ↔ c ∈ ends ∧ c ≠ a ∧ c ≠ b) :
    Standing m { s with links := s.links.pair a b } ends' := by
  have hget := Links.get_pair (Links.index_lt_of_get_ne (by rw [hja]; simp) : a.index < _)
    (Links.index_lt_of_get_ne (by rw [hjb]; simp) : b.index < _)
  have hma : m.links.get a = .junction j := by rw [← h.original (.inr ha), hja]
  have hmb : m.links.get b = .junction j := by rw [← h.original (.inr hb), hjb]
  have hfa := h.claimed ha
  have hfb := h.claimed hb
  have hs (c : Endpoint) :
      ({ s with links := s.links.pair a b } : State α).Settled ends' c ↔
        s.Settled ends c ∨ c = a ∨ c = b := by
    show s.isFree c = false ∧ c ∉ ends' ↔ _
    rw [State.Settled, hends]
    grind
  refine ⟨fun {c d} hc => ?_, fun c hc => ?_, h.twin_free, fun {c} hc => ?_, fun {c} hc => ?_,
    fun hc => h.claimed ((hends _).1 hc).1, fun {c d} hc hd => ?_, h.nodup, fun {c} => ?_,
    h.unbroken⟩
  · have := @h.returned c d
    have := @h.returned d c
    grind
  · have := h.ne_self c
    grind
  · have hc : s.isFree c = true ∨ c ∈ ends' := hc
    rw [hends] at hc
    have := @h.original c
    have hne : c ≠ a ∧ c ≠ b := by grind
    rw [hget, if_neg hne.2, if_neg hne.1]
    grind
  · have := @h.relinked c
    grind
  · rw [hs] at hc ⊢
    have := @h.closed c d
    grind
  · show c ∈ s.exhausted ↔ _
    rw [h.mem_exhausted, hs, hget]
    have : ¬ s.Settled ends a := fun hset => hset.2 ha
    have : ¬ s.Settled ends b := fun hset => hset.2 hb
    grind

end Standing

end DoubleCurve.Trace
