import DoubleCurve.Proofs.Trace.Strands

/-!
# A trace keeps to the matching

A trace works on a copy of the links and relinks junctions as it passes through.
`Keeps` says that it does no more than that: links stay symmetric, a free endpoint
is linked as the matching has it, and a new link joins two members of one
junction.

Some endpoints are exempt while a walk passes through a junction, since they are
linked to each other before their segments are claimed: the one by which the walk
leaves, whose segment is claimed in the same step, and the one at which it arrives,
whose segment is claimed in the next step. `Passes` names the states of a trace
with the endpoints that are exempt in each, and `exists_free_relinked_star` shows
both of them free and relinked.

`keeps_of_build` states this of every state of a trace, with what follows: no
link is ever found broken, what is provided for the end of a walk and for a start
that nobody claimed is never needed, and a junction is reported exhausted once for
every endpoint that is left linked to it.
-/

namespace DoubleCurve.Trace

variable {α : Type} {m : Matching α} {s s' : State α} {a e next : Endpoint}
  {rest passing : Set Endpoint}

/-- Links that are symmetric and those of a matching, but for members of junctions that are linked
to one another. These are not free, apart from those the walk is `passing`. -/
structure Keeps (m : Matching α) (s : State α) (passing : Set Endpoint) : Prop where
  returned {a b : Endpoint} : s.links.get a = .endpoint b → s.links.get b = .endpoint a
  original {a : Endpoint} : s.isFree a = true → a ∉ passing → s.links.get a = m.links.get a
  relinked {a : Endpoint} : s.links.get a ≠ m.links.get a → ∃ b j, s.links.get a = .endpoint b ∧
    b ≠ a ∧ a ∈ m.junctions.members j ∧ b ∈ m.junctions.members j

theorem Standing.keeps {ends : Set Endpoint} (hm : m.Traceable) (h : Standing m s ends)
    (hl : s'.links = s.links)
    (hf : ∀ a, s'.isFree a = true → a ∉ passing → s.isFree a = true ∨ a ∈ ends) :
    Keeps m s' passing := by
  refine ⟨fun {a b} hab => ?_, fun {a} ha hp => ?_, fun {a} ha => ?_⟩
  · rw [hl] at hab ⊢
    exact h.returned hab
  · rw [hl]
    exact h.original (hf a ha hp)
  · rw [hl] at ha ⊢
    obtain ⟨b, j, hab, hja, hjb⟩ := h.relinked ha
    refine ⟨b, j, hab, fun hba => h.ne_self a (hba ▸ hab), ?_⟩
    rw [hm.tied.mem_iff, hm.tied.mem_iff]
    exact ⟨hja, hjb⟩

/-- Claiming a segment ends the exemption of its endpoints. -/
theorem Keeps.claim (h : Keeps m s (insert e.twin (insert e passing))) :
    Keeps m (s.claim e) passing := by
  refine ⟨h.returned, fun {a} ha hp => h.original ?_ ?_, h.relinked⟩
  · rw [State.isFree_claim, Bool.and_eq_true] at ha
    exact ha.1
  · rw [State.isFree_claim, Bool.and_eq_true, bne_iff_ne] at ha
    rw [Set.mem_insert_iff, Set.mem_insert_iff, not_or, not_or]
    refine ⟨fun hae => ha.2 ?_, fun hae => ha.2 ?_, hp⟩
    · rw [hae, Endpoint.segment_twin]
    · rw [hae]

namespace Tracer

variable [Scalar α] {t : Tracer α}

/-- The walks of a trace, by the state and the endpoint that each begins with. -/
inductive Begins (t : Tracer α) (m : Matching α) : State α → Endpoint → Prop
  /-- The walk onward from a start that is free. -/
  | onward {k : Nat} {e : Endpoint} : t.starts[k]? = some e →
      (t.after m k).state.isFree e = true → Begins t m (t.after m k).state e
  /-- The walk back, unless the walk onward came around. -/
  | back {k : Nat} {e : Endpoint} {w : Walk} {s : State α} : t.starts[k]? = some e →
      (t.after m k).state.isFree e = true → t.follow (t.after m k).state e = (w, s) →
      s.links.get e.twin ≠ .endpoint w.last → Begins t m s e.twin

/-- The steps of all walks, by the state and the endpoint by which the walk is about to leave. -/
inductive Stands (t : Tracer α) (m : Matching α) : State α → Endpoint → Prop
  | first {s : State α} {e : Endpoint} : t.Begins m s e → Stands t m s e
  | next {s s' : State α} {e next : Endpoint} : Stands t m s e →
      t.depart s e = (some next, s') → (s'.claim e).isFree next = true →
      Stands t m (s'.claim e) next.twin

/-- The states that a trace passes through, with the endpoints that may be linked anew and free. -/
inductive Passes (t : Tracer α) (m : Matching α) : State α → Set Endpoint → Prop
  /-- Between two starts. -/
  | between (k : Nat) : Passes t m (t.after m k).state ∅
  /-- Before a walk. -/
  | begun {s : State α} {e : Endpoint} : t.Begins m s e → Passes t m s ∅
  /-- Before a step of a walk, which may have arrived through a junction. -/
  | arrived {s : State α} {e : Endpoint} : t.Stands m s e → Passes t m s {e.twin}
  /-- In a step, when the links have been changed. -/
  | relinked {s s' : State α} {e next : Endpoint} : t.Stands m s e →
      t.depart s e = (some next, s') → Passes t m s' {e.twin, e, next}
  /-- After a step, when the segment has been claimed. -/
  | advanced {s s' : State α} {e next : Endpoint} : t.Stands m s e →
      t.depart s e = (some next, s') → Passes t m (s'.claim e) {next}
  /-- In the last step, when there is no way on. -/
  | stuck {s s' : State α} {e : Endpoint} : t.Stands m s e →
      t.depart s e = (none, s') → Passes t m s' {e.twin}
  /-- After a walk. -/
  | ended {s : State α} {e : Endpoint} : t.Begins m s e → Passes t m (t.follow s e).2 ∅

theorem Begins.standing_before (hm : m.Traceable) (hj : t.junctions = m.junctions)
    (h : t.Begins m s e) : ∃ ends, Standing m s ends := by
  cases h with
  | @onward k => exact ⟨_, standing_after hm hj k⟩
  | @back k _ _ _ _ hfree hw hback =>
    obtain ⟨-, new, hr, -⟩ := standing_back hm hj (standing_after hm hj k) hfree hw hback
    exact ⟨_, hr.standing⟩

theorem Begins.standing (hm : m.Traceable) (hj : t.junctions = m.junctions) (h : t.Begins m s e) :
    ∃ before rest es, Standing m (s.claim e) (insert e rest) ∧ e ∉ rest ∧
      (∀ a, s.isFree a.twin = s.isFree a) ∧ Trail before (s.claim e) (e :: es) := by
  cases h with
  | @onward k _ _ hfree =>
    have hst := standing_after hm hj k
    obtain ⟨hopen, hnot⟩ := standing_onward hst hfree
    exact ⟨_, _, [], hopen, hnot, hst.twin_free, .single hfree⟩
  | @back k _ _ _ _ hfree hw hback =>
    have hst := standing_after hm hj k
    obtain ⟨hopen, new, hr, -⟩ := standing_back hm hj hst hfree hw hback
    exact ⟨_, _, _, hopen, Set.notMem_empty _, hr.standing.twin_free, trail_back hr hst.twin_free⟩

theorem Stands.standing (hm : m.Traceable) (hj : t.junctions = m.junctions) (h : t.Stands m s e) :
    ∃ rest, Standing m (s.claim e) (insert e rest) ∧ e ∉ rest := by
  induction h with
  | first h =>
    obtain ⟨_, rest, _, hst, he, -⟩ := h.standing hm hj
    exact ⟨rest, hst, he⟩
  | @next s s' e next _ hd hfree ih =>
    obtain ⟨rest, hst, he⟩ := ih
    have hdep := departed hm hj hst he
    rw [hd] at hdep
    cases hdep with
    | onward hu _ _ hst' =>
      refine ⟨rest, hst', fun hmem => ?_⟩
      have htwin := hst.twin_free next
      rw [hst.claimed (.inr hmem), State.isFree_claim, State.isFree, ← hu] at htwin
      rw [State.isFree_claim, State.isFree, ← htwin] at hfree
      cases hfree
    | around _ hnf => exact absurd hfree (by rw [hnf]; simp)

omit [Scalar α] in
/-- Before a step, only the endpoint at which the walk arrived may be linked anew and free. -/
theorem keeps_arrived (hm : m.Traceable) (hst : Standing m (s.claim e) (insert e rest))
    (hl : s'.links = s.links) (hu : s'.usages = s.usages) : Keeps m s' {e.twin} := by
  refine hst.keeps hm hl fun a hfree hne => ?_
  rw [State.isFree, hu] at hfree
  by_cases ha : a = e
  · exact .inr (.inl ha)
  · refine .inl ?_
    rw [State.isFree_claim, State.isFree, hfree, Bool.true_and, bne_iff_ne]
    exact fun hseg => (Endpoint.segment_eq_iff.1 hseg).elim ha hne

omit [Scalar α] in
/-- When the links have been changed, so may the endpoint by which the walk leaves and the one at
which it is going to arrive. -/
theorem keeps_relinked (hm : m.Traceable) (h : Departed m s e rest (some next, s')) :
    Keeps m s' {e.twin, e, next} := by
  have hclaim {a : Endpoint} (ha : s'.isFree a = true) (hp : a ∉ ({e.twin, e, next} : Set _)) :
      (s'.claim e).isFree a = true := by
    rw [State.isFree_claim, ha, Bool.true_and, bne_iff_ne]
    exact fun hseg => (Endpoint.segment_eq_iff.1 hseg).elim (fun h => hp (.inr (.inl h)))
      fun h => hp (.inl h)
  cases h with
  | onward _ _ _ hst =>
    refine hst.keeps hm rfl fun a ha hp => ?_
    by_cases hseg : a.segment = next.segment
    · rcases Endpoint.segment_eq_iff.1 hseg with rfl | rfl
      · exact absurd (.inr (.inr rfl)) hp
      · exact .inr (Set.mem_insert _ _)
    · refine .inl ?_
      rw [State.isFree_claim, hclaim ha hp, Bool.true_and, bne_iff_ne, Endpoint.segment_twin]
      exact hseg
  | around _ _ _ hst => exact hst.keeps hm rfl fun a ha hp => .inl (hclaim ha hp)

theorem links_of_depart_eq_none (h : t.depart s e = (none, s')) : s'.links = s.links := by
  unfold depart at h
  split at h
  · cases h
    rfl
  · cases h
  · split at h
    · cases h
    · cases h
      rfl

/-- A step links the endpoint by which it leaves to the one at which it arrives. -/
theorem Stands.linked_of_depart (hm : m.Traceable) (hj : t.junctions = m.junctions)
    (h : t.Stands m s e) (hd : t.depart s e = (some next, s')) : s'.links.get e = .endpoint next := by
  obtain ⟨rest, hst, he⟩ := h.standing hm hj
  have hdep := departed hm hj hst he
  rw [hd] at hdep
  cases hdep with
  | onward _ _ hlinked => exact hlinked
  | around _ _ hlinked => exact hlinked

/-- A trace keeps to the matching in all its states. -/
theorem Passes.keeps (hm : m.Traceable) (hj : t.junctions = m.junctions)
    (h : t.Passes m s passing) : Keeps m s passing := by
  cases h with
  | between k => exact (standing_after hm hj k).keeps hm rfl fun a ha _ => .inl ha
  | begun h =>
    obtain ⟨ends, hst⟩ := h.standing_before hm hj
    exact hst.keeps hm rfl fun a ha _ => .inl ha
  | arrived h =>
    obtain ⟨rest, hst, -⟩ := h.standing hm hj
    exact keeps_arrived hm hst rfl rfl
  | relinked h hd =>
    obtain ⟨rest, hst, he⟩ := h.standing hm hj
    exact keeps_relinked hm (hd ▸ departed hm hj hst he)
  | advanced h hd =>
    obtain ⟨rest, hst, he⟩ := h.standing hm hj
    exact (keeps_relinked hm (hd ▸ departed hm hj hst he)).claim
  | @stuck s₀ _ e h hd =>
    obtain ⟨rest, hst, -⟩ := h.standing hm hj
    refine keeps_arrived hm hst (links_of_depart_eq_none hd) ?_
    rw [← usages_depart t s₀ e, hd]
  | ended h =>
    obtain ⟨_, _, _, hst, he, hpair, htrail⟩ := h.standing hm hj
    obtain ⟨_, hf⟩ := followed hm hj hst he hpair htrail
    generalize t.follow _ _ = r at hf ⊢
    cases hf with
    | ended hr => exact hr.standing.keeps hm rfl fun a ha _ => .inl ha
    | around _ hr => exact hr.standing.keeps hm rfl fun a ha _ => .inl ha

/-- In the end every endpoint whose link is a junction was reported once, and no other. -/
theorem count_exhausted (hm : m.Traceable) (hj : t.junctions = m.junctions)
    (hs : t.segments = m.segments) (a : Endpoint) :
    (t.traceAll (.start m)).state.exhausted.count a =
      if ((t.traceAll (.start m)).state.links.get a).junction?.isSome then 1 else 0 := by
  have hst : Standing m (t.traceAll (.start m)).state ∅ := by
    rw [← after_of_length_le (Nat.le_refl _)]
    exact standing_after hm hj _
  have hset : (t.traceAll (.start m)).state.Settled ∅ a :=
    ⟨isFree_traceAll hm hj hs a, Set.notMem_empty a⟩
  have hmem := hst.mem_exhausted (a := a)
  split
  · rename_i hsome
    refine List.count_eq_one_of_mem hst.nodup (hmem.2 ⟨hset, ?_⟩)
    cases hl : (t.traceAll (.start m)).state.links.get a with
    | junction j => exact ⟨j, rfl⟩
    | unpaired =>
      rw [hl] at hsome
      cases hsome
    | endpoint b =>
      rw [hl] at hsome
      cases hsome
  · rename_i hnone
    refine List.count_eq_zero.2 fun hx => hnone ?_
    obtain ⟨-, j, hjl⟩ := hmem.1 hx
    rw [hjl]
    rfl

end Tracer

variable [Scalar α] {points : Array (Vec3 α)} {settings : Settings α} {found : Array (Notice α)}

/-- A trace of what was built keeps to the matching in all its states, whichever settings it is traced
with, and a step links the endpoint by which it leaves and the one at which it arrives to each other.
At the end of a walk there is never anything to take across the link, no start is left that its walks
did not claim, no link is reported broken, and the endpoints reported at exhausted junctions are
those still linked to one. -/
theorem keeps_of_build (h : Matching.build points settings = .ok (m, found))
    (settings' : Settings α) :
    let t := Tracer.ofMatching m settings'
    let last := (t.traceAll (.start m)).state
    (∀ s passing, t.Passes m s passing → Keeps m s passing) ∧
      (∀ s e next s', t.Stands m s e → t.depart s e = (some next, s') →
        s'.links.get e = .endpoint next ∧ s'.links.get next = .endpoint e) ∧
      (∀ s e, t.Begins m s e → Tracer.takePartner (t.walk s e).1 (t.walk s e).2 = t.walk s e) ∧
      (∀ k e, t.starts[k]? = some e → (t.after m k).state.isFree e = true →
        (t.bothWays (t.after m k).state e).2.isFree e = false ∧
        t.strand (t.after m k).state e = t.bothWays (t.after m k).state e) ∧
      (∀ n ∈ last.notices, isBrokenLink n = false) ∧
      ∀ a, last.exhausted.count a = if (last.links.get a).junction?.isSome then 1 else 0 := by
  have hm := Matching.traceable_of_build h
  intro t last
  have hj : t.junctions = m.junctions := rfl
  refine ⟨fun s passing hs => hs.keeps hm hj, fun s e next s' hse hd => ?_, fun s e hse => ?_,
    fun k e _ hfree => ?_, ?_, Tracer.count_exhausted hm hj rfl⟩
  · have hlinked := hse.linked_of_depart hm hj hd
    exact ⟨hlinked, ((Tracer.Passes.relinked hse hd).keeps hm hj).returned hlinked⟩
  · obtain ⟨before, rest, es, hst, he, hpair, htrail⟩ := hse.standing hm hj
    obtain ⟨new, hw⟩ := Tracer.walked hm hj hst he hpair htrail
    exact Tracer.takePartner_of_walked hw
  · exact Tracer.strand_eq_bothWays hm hj (Tracer.standing_after hm hj k) hfree
  · have hst := Tracer.standing_after (t := t) hm hj t.starts.length
    rw [Tracer.after_of_length_le (Nat.le_refl _)] at hst
    exact hst.unbroken

open Matching (star starMatching build_star)

theorem depart_star :
    let r := (Tracer.ofMatching starMatching .standard).depart (.start starMatching) (.ofIndex 0)
    r.1 = some (.ofIndex 4) ∧ r.2.isFree (.ofIndex 0) = true ∧
      (r.2.claim (.ofIndex 0)).isFree (.ofIndex 2) = true ∧
      (r.2.claim (.ofIndex 0)).isFree (.ofIndex 4) = true ∧
      r.2.links.get (.ofIndex 0) = .endpoint (.ofIndex 4) ∧
      r.2.links.get (.ofIndex 4) = .endpoint (.ofIndex 0) := by
  decide +kernel

theorem begins_star : (Tracer.ofMatching starMatching .standard).Begins starMatching
    (.start starMatching) (.ofIndex 0) := by
  have hbegins := Tracer.Begins.onward starts_star.1 starts_star.2
  rwa [Tracer.after_zero] at hbegins

/-- The first walk over the star leaves by endpoint 0 and arrives at endpoint 4. -/
theorem exists_passes_star :
    ∃ s : State Float,
      (Tracer.ofMatching starMatching .standard).Passes starMatching s
        {(Endpoint.ofIndex 0).twin, .ofIndex 0, .ofIndex 4} ∧
      (Tracer.ofMatching starMatching .standard).Passes starMatching (s.claim (.ofIndex 0))
        {.ofIndex 4} ∧
      s.isFree (.ofIndex 0) = true ∧ (s.claim (.ofIndex 0)).isFree (.ofIndex 2) = true ∧
      (s.claim (.ofIndex 0)).isFree (.ofIndex 4) = true ∧
      s.links.get (.ofIndex 0) = .endpoint (.ofIndex 4) ∧
      s.links.get (.ofIndex 4) = .endpoint (.ofIndex 0) := by
  obtain ⟨hnext, hzero, htwo, hfour, hlinked, hreturned⟩ := depart_star
  cases hr : (Tracer.ofMatching starMatching .standard).depart (.start starMatching) (.ofIndex 0) with
  | mk next s =>
    rw [hr] at hnext hzero htwo hfour hlinked hreturned
    dsimp only at hnext hzero htwo hfour hlinked hreturned
    rw [hnext] at hr
    have hstands := Tracer.Stands.first begins_star
    have harrived := Tracer.Passes.arrived (.next hstands hr hfour)
    rw [Endpoint.twin_twin] at harrived
    exact ⟨s, .relinked hstands hr, harrived, hzero, htwo, hfour, hlinked, hreturned⟩

theorem junctions_star :
    let last := ((Tracer.ofMatching starMatching .standard).traceAll (.start starMatching)).state.links
    (last.get (.ofIndex 0)).junction?.isSome = false ∧
      (last.get (.ofIndex 2)).junction?.isSome = true ∧
      (last.get (.ofIndex 4)).junction?.isSome = false := by
  decide +kernel

/-- A trace of the star keeps to its matching where a walk has passed through the junction. The first
start is claimed by its walks, and of the three members of the junction the one that is left over is
reported. -/
theorem keeps_of_build_star :
    ∃ m found, Matching.build star .standard = .ok (m, found) ∧
      let t := Tracer.ofMatching m .standard
      let last := (t.traceAll (.start m)).state
      (∃ s, t.Passes m s {.ofIndex 4} ∧ s.links.get (.ofIndex 0) = .endpoint (.ofIndex 4) ∧
        s.links.get (.ofIndex 4) = .endpoint (.ofIndex 0) ∧
        s.links.get (.ofIndex 2) = m.links.get (.ofIndex 2)) ∧
      Tracer.takePartner (t.walk (.start m) (.ofIndex 0)).1 (t.walk (.start m) (.ofIndex 0)).2 =
        t.walk (.start m) (.ofIndex 0) ∧
      t.strand (.start m) (.ofIndex 0) = t.bothWays (.start m) (.ofIndex 0) ∧
      (∀ n ∈ last.notices, isBrokenLink n = false) ∧ last.exhausted.count (.ofIndex 0) = 0 ∧
      last.exhausted.count (.ofIndex 2) = 1 ∧ last.exhausted.count (.ofIndex 4) = 0 := by
  obtain ⟨found, hb⟩ := build_star
  refine ⟨_, _, hb, ?_⟩
  dsimp only
  obtain ⟨hkeeps, -, hpartner, hclaimed, hunbroken, hcount⟩ := keeps_of_build hb .standard
  obtain ⟨s, -, hpasses, -, htwo, -, hlinked, -⟩ := exists_passes_star
  have hs := hkeeps _ _ hpasses
  have hstrand := (hclaimed 0 _ starts_star.1 starts_star.2).2
  rw [Tracer.after_zero] at hstrand
  obtain ⟨hzero, hleft, hfour⟩ := junctions_star
  refine ⟨⟨_, hpasses, hlinked, hs.returned hlinked, hs.original htwo (by decide)⟩,
    hpartner _ _ begins_star, hstrand, hunbroken, ?_, ?_, ?_⟩
  · rw [hcount, hzero]
    rfl
  · rw [hcount, hleft]
    rfl
  · rw [hcount, hfour]
    rfl

/-- On its way from endpoint 0 to endpoint 4 the first walk over the star links two free endpoints
anew. The one at which it arrives is still free before the next step. -/
theorem exists_free_relinked_star :
    ∃ (m : Matching Float) (found : Array (Notice Float)) (s : State Float),
      Matching.build star .standard = .ok (m, found) ∧
      m.links.get (.ofIndex 0) = .junction (.ofIndex 0) ∧
      m.links.get (.ofIndex 4) = .junction (.ofIndex 0) ∧
      s.links.get (.ofIndex 0) = .endpoint (.ofIndex 4) ∧
      s.links.get (.ofIndex 4) = .endpoint (.ofIndex 0) ∧
      (Tracer.ofMatching m .standard).Passes m s
        {(Endpoint.ofIndex 0).twin, .ofIndex 0, .ofIndex 4} ∧ s.isFree (.ofIndex 0) = true ∧
      (Tracer.ofMatching m .standard).Passes m (s.claim (.ofIndex 0)) {.ofIndex 4} ∧
      (s.claim (.ofIndex 0)).isFree (.ofIndex 4) = true := by
  obtain ⟨found, hb⟩ := build_star
  obtain ⟨s, hrelinked, harrived, hzero, -, hfour, hlinked, hreturned⟩ := exists_passes_star
  exact ⟨_, _, s, hb, by decide +kernel, by decide +kernel, hlinked, hreturned, hrelinked, hzero,
    harrived, hfour⟩

end DoubleCurve.Trace
