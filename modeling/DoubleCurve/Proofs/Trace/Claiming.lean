import DoubleCurve.Proofs.Trace.Walking
import Mathlib.Data.Finset.Card
import Mathlib.Data.Finset.Range

/-!
# What a walk claims

Nothing is asked of the links here but that they name what exists: they need not be returned, nor
agree with the junctions. Every segment is free or used as a whole (`Usages.IsSegmentwise`).

* `Tracer.takePartner_walk`: across the link at the end of a walk there is never anything to take.
* `Tracer.walkWithin_eq_some`: a walk departs once from every segment on its way, and every segment
  but the first is free when the walk arrives there. So it departs at most once more often than there
  are free segments.
* `Tracer.taken_follow`: what it claims is its first segment and after that free ones, each once.
* `Tracer.NamesWithin.follow`: it names nothing that does not exist.

`Tracer.follow_claims` puts this together.
-/

namespace DoubleCurve.Trace

namespace Usages

variable {u : Usages} {a e : Endpoint} {es : List Endpoint} {n : Nat}

/-- Whether the endpoints of every segment are both free or both used. -/
def IsSegmentwise (u : Usages) : Prop := ∀ a : Endpoint, u.isFree a.twin = u.isFree a

theorem isFree_of_size_le (h : u.entries.size ≤ a.index) : u.isFree a = false := by
  by_contra hfree
  rw [Bool.not_eq_false] at hfree
  exact absurd (index_lt_of_isFree hfree) (Nat.not_lt.2 h)

theorem index_lt_of_get_ne (h : u.get a ≠ .excluded) : a.index < u.entries.size := by
  by_contra hge
  exact h (by simp [get, Array.getD_eq_getD_getElem?, Array.getElem?_eq_none (Nat.not_lt.1 hge)])

/-- It is enough to look at the endpoints in the table. -/
theorem isSegmentwise_iff : u.IsSegmentwise ↔ ∀ i < u.entries.size, ∀ h : i < 0x100000000,
    u.isFree (Endpoint.twin ⟨i, h⟩) = u.isFree ⟨i, h⟩ := by
  refine ⟨fun hall i _ h => hall ⟨i, h⟩, fun hall a => ?_⟩
  rcases Nat.lt_or_ge a.index u.entries.size with hlt | hge
  · exact hall a.index hlt a.index_lt
  · rcases Nat.lt_or_ge a.twin.index u.entries.size with hlt | hge'
    · have htwin := hall a.twin.index hlt a.twin.index_lt
      exact htwin.symm.trans (congrArg u.isFree a.twin_twin)
    · rw [isFree_of_size_le hge, isFree_of_size_le hge']

instance (u : Usages) : Decidable u.IsSegmentwise := decidable_of_iff' _ isSegmentwise_iff

theorem IsSegmentwise.claimSegment (h : u.IsSegmentwise) (e : Endpoint) :
    (u.claimSegment e).IsSegmentwise := fun a => by
  rw [isFree_claimSegment, isFree_claimSegment, h a, Endpoint.segment_twin]

/-! ## Free segments -/

/-- The segments that are free. -/
def freeSegments (u : Usages) : Finset Nat :=
  (Finset.range u.entries.size).filter fun n => u.entries[2 * n]? = some .free

theorem mem_freeSegments_iff : n ∈ u.freeSegments ↔ u.entries[2 * n]? = some .free := by
  rw [freeSegments, Finset.mem_filter, Finset.mem_range, and_iff_right_iff_imp]
  intro h
  have := (Array.getElem?_eq_some_iff.1 h).1
  omega

theorem isFree_iff : u.isFree e = true ↔ u.entries[e.index]? = some .free := by
  rw [isFree, beq_iff_eq, get, Array.getD_eq_getD_getElem?]
  cases u.entries[e.index]? <;> simp

theorem mem_freeSegments (h : u.IsSegmentwise) : a.segment ∈ u.freeSegments ↔ u.isFree a = true := by
  have hstart {b : Endpoint} (hb : b.index = 2 * a.segment) :
      a.segment ∈ u.freeSegments ↔ u.isFree b = true := by
    rw [mem_freeSegments_iff, isFree_iff, hb]
  rcases Nat.mod_two_eq_zero_or_one a.index with hpar | hpar
  · exact hstart (by rw [Endpoint.segment]; omega)
  · rw [← h a]
    refine hstart ?_
    rw [Endpoint.index_twin, if_neg (by omega), Endpoint.segment]
    omega

theorem freeSegments_claimSegment (u : Usages) (e : Endpoint) :
    (u.claimSegment e).freeSegments = u.freeSegments.erase e.segment := by
  ext n
  have hseg : n = e.segment ↔ e.index = 2 * n ∨ e.twin.index = 2 * n := by
    rw [Endpoint.index_twin, Endpoint.segment]
    split <;> omega
  rw [Finset.mem_erase, Ne, hseg, mem_freeSegments_iff, mem_freeSegments_iff]
  simp only [claimSegment, claim, Array.getElem?_setIfInBounds]
  split_ifs <;> simp_all

/-- The table with several segments claimed. -/
def claimAll (u : Usages) (es : List Endpoint) : Usages := es.foldl claimSegment u

theorem claimAll_cons (u : Usages) (e : Endpoint) (es : List Endpoint) :
    u.claimAll (e :: es) = (u.claimSegment e).claimAll es := rfl

theorem freeSegments_claimAll (u : Usages) (es : List Endpoint) :
    (u.claimAll es).freeSegments = u.freeSegments \ (es.map Endpoint.segment).toFinset := by
  induction es generalizing u with
  | nil => simp [claimAll]
  | cons e es ih =>
    rw [claimAll_cons, ih, freeSegments_claimSegment, List.map_cons, List.toFinset_cons,
      Finset.sdiff_insert, Finset.erase_sdiff_comm]

theorem isFree_claimAll (u : Usages) (es : List Endpoint) (a : Endpoint) :
    (u.claimAll es).isFree a = (u.isFree a && decide (a.segment ∉ es.map Endpoint.segment)) := by
  induction es generalizing u with
  | nil => simp [claimAll]
  | cons e es ih =>
    rw [claimAll_cons, ih, isFree_claimSegment, Bool.and_assoc]
    congr 1
    rw [Bool.eq_iff_iff, Bool.and_eq_true, bne_iff_ne, decide_eq_true_iff, decide_eq_true_iff,
      List.map_cons, List.mem_cons, not_or]

theorem IsSegmentwise.claimAll (h : u.IsSegmentwise) (es : List Endpoint) :
    (u.claimAll es).IsSegmentwise := fun a => by
  rw [isFree_claimAll, isFree_claimAll, h a, Endpoint.segment_twin]

/-- Nothing else is changed. -/
theorem get_claimAll (h : a.segment ∉ es.map Endpoint.segment) :
    (u.claimAll es).get a = u.get a := by
  induction es generalizing u with
  | nil => rfl
  | cons e es ih =>
    rw [List.map_cons, List.mem_cons, not_or, Endpoint.segment_eq_iff, not_or] at h
    rw [claimAll_cons, ih h.2, claimSegment, get_claim_of_ne (Ne.symm h.1.2),
      get_claim_of_ne (Ne.symm h.1.1)]

/-- Free segments that are claimed, each once, are so many fewer. -/
theorem card_claimAll (h : u.IsSegmentwise) (hfree : ∀ x ∈ es, u.isFree x = true)
    (hnodup : (es.map Endpoint.segment).Nodup) :
    (u.freeSegments \ (u.claimAll es).freeSegments).card = es.length := by
  have hsub : (es.map Endpoint.segment).toFinset ⊆ u.freeSegments := by
    intro n hn
    obtain ⟨x, hx, rfl⟩ := List.mem_map.1 (List.mem_toFinset.1 hn)
    exact (mem_freeSegments h).2 (hfree x hx)
  rw [freeSegments_claimAll, Finset.sdiff_sdiff_eq_self hsub, List.toFinset_card_of_nodup hnodup,
    List.length_map]

end Usages

namespace Tracer

variable {α : Type} [Scalar α] {t : Tracer α} {s s' : State α} {e next : Endpoint}

/-! ## The end of a walk -/

theorem usages_of_depart {next? : Option Endpoint} (h : t.depart s e = (next?, s')) :
    s'.usages = s.usages := by
  rw [← usages_depart t s e, h]

/-- Where a walk departs to is what the endpoint is linked to afterwards. -/
theorem get_of_depart_some (h : t.depart s e = (some next, s')) :
    s'.links.get e = .endpoint next := by
  unfold depart at h
  split at h
  · cases h
  · rename_i hl
    cases h
    unfold mend
    dsimp only
    split
    · exact hl
    · rename_i hfound
      have hne : next ≠ e := fun hne => hfound (hne ▸ hl)
      exact (Links.get_set_of_ne hne).trans hl
  · rename_i j hl
    split at h
    · rename_i hout
      cases h
      obtain ⟨hne, -⟩ := isWayOut_iff.1 (mem_of_straightest? hout).2
      show (s.links.pair e next).get e = _
      rw [Links.pair, Links.get_set_of_ne hne,
        Links.get_set_self (Links.index_lt_of_get_ne (by rw [hl]; simp))]
    · cases h

/-- An endpoint from which a walk does not depart is linked to no other. -/
theorem get_of_depart_none (h : t.depart s e = (none, s')) (b : Endpoint) :
    s'.links.get e ≠ .endpoint b := by
  unfold depart at h
  split at h
  · rename_i hl
    cases h
    simp [hl]
  · cases h
  · rename_i j hl
    split at h
    · cases h
    · cases h
      simp [hl]

/-- Across the link at the end of a walk there is nothing to take, whatever the links. -/
theorem takePartner_walk (t : Tracer α) (s : State α) (e : Endpoint) :
    takePartner (t.walk s e).1 (t.walk s e).2 = t.walk s e := by
  suffices hused : ∀ b, (t.walk s e).2.links.get (t.walk s e).1.last = .endpoint b →
      (t.walk s e).2.isFree b = false by
    unfold takePartner
    split
    · rename_i b hl
      rw [hused b hl]
      rfl
    · rfl
  fun_induction t.walk s e with
  | case1 s e s' hd => exact fun b hb => absurd hb (get_of_depart_none hd b)
  | case2 s e next s' hd claimed hfree w s'' hw =>
    rename_i ih
    rwa [hw] at ih
  | case3 s e next s' hd claimed hused =>
    intro b hb
    rw [State.links_claim, get_of_depart_some hd] at hb
    cases hb
    exact Bool.not_eq_true _ ▸ hused

/-- A walk with what is left at its end takes the last segment, and nothing across a link. -/
theorem follow_eq_takeLast (t : Tracer α) (s : State α) (e : Endpoint) :
    t.follow s e = takeLast (t.walk s e).1 (t.walk s e).2 := by
  show takeLast (takePartner _ _).1 (takePartner _ _).2 = _
  rw [takePartner_walk]

/-! ## The number of departures -/

/-- The walk that leaves by `e`, if it looks for a way on at most `n` times. -/
def walkWithin (t : Tracer α) : Nat → State α → Endpoint → Option (Walk × State α)
  | 0, _, _ => none
  | n + 1, s, e =>
    match t.depart s e with
    | (none, s') => some (⟨e, 0⟩, s')
    | (some next, s') =>
      let claimed := s'.claim e
      if claimed.isFree next then
        (t.walkWithin n claimed next.twin).map fun (w, s'') => (⟨w.last, w.count + 1⟩, s'')
      else some (⟨e, 1⟩, claimed)

/-- The walk that leaves by `e` with what is still free at its end, if it looks for a way on at most
`n` times. -/
def followWithin (t : Tracer α) (n : Nat) (s : State α) (e : Endpoint) : Option (Walk × State α) :=
  (t.walkWithin n s e).map fun (w, s) =>
    let (w, s) := takePartner w s
    takeLast w s

/-- A bound for the departures of a walk that leaves by `e`: the free segments, and one more if it
does not stand on one of them. -/
def departuresLeft (u : Usages) (e : Endpoint) : Nat :=
  u.freeSegments.card + if u.isFree e then 0 else 1

theorem departuresLeft_pos {u : Usages} (h : u.IsSegmentwise) : 0 < departuresLeft u e := by
  rw [departuresLeft]
  split
  · rename_i hfree
    exact Nat.add_pos_left (Finset.card_pos.2 ⟨_, (Usages.mem_freeSegments h).2 hfree⟩) _
  · exact Nat.succ_pos _

/-- Claiming a segment and going on from a free one beyond it leaves fewer departures. -/
theorem departuresLeft_lt {u : Usages} (h : u.IsSegmentwise)
    (hnext : (u.claimSegment e).isFree next = true) :
    departuresLeft (u.claimSegment e) next.twin < departuresLeft u e := by
  have hcard := Usages.freeSegments_claimSegment u e
  rw [departuresLeft, departuresLeft, h.claimSegment e next, if_pos hnext, hcard, Nat.add_zero]
  split
  · rename_i hfree
    exact Finset.card_erase_lt_of_mem ((Usages.mem_freeSegments h).2 hfree)
  · exact Nat.lt_succ_iff.2 Finset.card_erase_le

/-- A walk departs once from each free segment at most, and once more if it starts on a segment that
is used. -/
theorem walkWithin_eq_some (h : s.usages.IsSegmentwise) {n : Nat}
    (hn : departuresLeft s.usages e ≤ n) : t.walkWithin n s e = some (t.walk s e) := by
  induction n generalizing s e with
  | zero => exact absurd (departuresLeft_pos h) (Nat.not_lt.2 hn)
  | succ n ih =>
    unfold walk walkWithin
    rcases hd : t.depart s e with ⟨_ | next, s'⟩
    · rfl
    · have husages := usages_of_depart hd
      rw [← husages] at h hn
      dsimp only
      split
      · rename_i hfree
        have hlt : departuresLeft (s'.claim e).usages next.twin < departuresLeft s'.usages e :=
          departuresLeft_lt h hfree
        have hrest : t.walkWithin n (s'.claim e) next.twin = some (t.walk (s'.claim e) next.twin) :=
          ih (h.claimSegment e) (by omega)
        rw [hrest]
        rfl
      · rfl

/-! ## The segments claimed -/

/-- What a walk that leaves by `e` claims, when what is left at its end is taken too. -/
inductive Taken (t : Tracer α) (s : State α) (e : Endpoint) : Walk × State α → Prop
  /-- It stands on a segment that is used, and there is no way on. -/
  | nothing {s' : State α} : s.isFree e = false → (t.depart s e).1 = none →
      s'.usages = s.usages → Taken t s e (⟨e, 0⟩, s')
  /-- It takes its first segment and after that free ones, each once, and ends on one of them. -/
  | segments {s' : State α} {last : Endpoint} {rest : List Endpoint} :
      s.isFree e = true ∨ (t.depart s e).1 ≠ none → last ∈ e :: rest →
      (∀ x ∈ rest, s.isFree x = true) → ((e :: rest).map Endpoint.segment).Nodup →
      s'.usages = s.usages.claimAll (e :: rest) → Taken t s e (⟨last, rest.length + 1⟩, s')

omit [Scalar α] in
/-- Counting one segment more before the last one is taken counts it after that as well. -/
theorem takeLast_succ (w : Walk) (s : State α) :
    takeLast ⟨w.last, w.count + 1⟩ s =
      (⟨(takeLast w s).1.last, (takeLast w s).1.count + 1⟩, (takeLast w s).2) := by
  unfold takeLast
  dsimp only
  split <;> rfl

theorem Taken.single (hstart : s.isFree e = true ∨ (t.depart s e).1 ≠ none)
    (husages : s'.usages = s.usages) : Taken t s e (⟨e, 1⟩, s'.claim e) := by
  refine .segments hstart (List.mem_singleton_self e) (List.forall_mem_nil _)
    (List.nodup_singleton _) ?_
  show s'.usages.claimSegment e = _
  rw [husages]
  rfl

theorem Taken.cons {p : Walk × State α} (hsome : (t.depart s e).1 ≠ none)
    (husages : s'.usages = s.usages) (hfree : (s'.claim e).isFree next.twin = true)
    (h : Taken t (s'.claim e) next.twin p) : Taken t s e (⟨p.1.last, p.1.count + 1⟩, p.2) := by
  cases h with
  | nothing hused =>
    rw [hused] at hfree
    cases hfree
  | @segments s'' last rest _ hlast hrest hnodup hclaim =>
    have hbeyond : ∀ x ∈ next.twin :: rest, s.isFree x = true ∧ x.segment ≠ e.segment := by
      intro x hx
      have hx : (s'.claim e).isFree x = true := by
        rcases List.mem_cons.1 hx with rfl | hx
        · exact hfree
        · exact hrest x hx
      rw [State.isFree_claim, Bool.and_eq_true, bne_iff_ne] at hx
      rwa [State.isFree, ← husages]
    refine .segments (.inr hsome) (List.mem_cons_of_mem e hlast) (fun x hx => (hbeyond x hx).1) ?_ ?_
    · refine List.nodup_cons.2 ⟨fun hmem => ?_, hnodup⟩
      obtain ⟨x, hx, hseg⟩ := List.mem_map.1 hmem
      exact (hbeyond x hx).2 hseg
    · rw [hclaim, Usages.claimAll_cons _ e, ← husages]
      rfl

/-- A walk claims its first segment and after that free ones, each once. -/
theorem taken_follow (t : Tracer α) (h : s.usages.IsSegmentwise) (e : Endpoint) :
    Taken t s e (t.follow s e) := by
  rw [follow_eq_takeLast]
  fun_induction t.walk s e with
  | case1 s e s' hd =>
    have husages := usages_of_depart hd
    rw [takeLast]
    split
    · rename_i hfree
      rw [State.isFree, husages] at hfree
      exact .single (.inl hfree) husages
    · rename_i hused
      rw [State.isFree, husages, Bool.not_eq_true] at hused
      exact .nothing hused (by rw [hd]) husages
  | case2 s e next s' hd claimed hfree w s'' hw =>
    rename_i ih
    have husages := usages_of_depart hd
    have hclaimed : claimed.usages.IsSegmentwise := by
      rw [← husages] at h
      exact h.claimSegment e
    have htaken := ih hclaimed
    rw [hw] at htaken
    rw [takeLast_succ]
    exact htaken.cons (by rw [hd]; simp) husages ((hclaimed next).trans hfree)
  | case3 s e next s' hd claimed hused =>
    have hclaimed : claimed.isFree e = false := State.isFree_claim_self s' e
    rw [takeLast, if_neg (by rw [hclaimed]; exact Bool.false_ne_true)]
    exact .single (.inr (by rw [hd]; simp)) (usages_of_depart hd)

namespace Taken

variable {p : Walk × State α} {a : Endpoint}

/-- Only the usage of the first segment and of free ones is changed. -/
theorem changed (h : Taken t s e p) (hseg : s.usages.IsSegmentwise)
    (hne : p.2.usages.get a ≠ s.usages.get a) : a.segment = e.segment ∨ s.isFree a = true := by
  cases h with
  | nothing _ _ husages => exact absurd (congrArg (Usages.get · a) husages) hne
  | @segments s' last rest _ _ hrest _ husages =>
    by_contra! hout
    refine hne ?_
    rw [husages]
    refine Usages.get_claimAll fun hmem => ?_
    obtain ⟨x, hx, hxa⟩ := List.mem_map.1 hmem
    rcases List.mem_cons.1 hx with rfl | hx
    · exact hout.1 hxa.symm
    · have hfree : s.isFree a = true := by
        rcases Endpoint.segment_eq_iff.1 hxa with rfl | rfl
        · exact hrest x hx
        · exact (hseg a).symm.trans (hrest _ hx)
      exact hout.2 hfree

/-- The first segment and the last one are used. -/
theorem used (h : Taken t s e p) : p.2.isFree e = false ∧ p.2.isFree p.1.last = false := by
  cases h with
  | nothing hused _ husages =>
    rw [State.isFree, husages]
    exact ⟨hused, hused⟩
  | @segments s' last rest _ hlast _ _ husages =>
    have hclaimed {x : Endpoint} (hx : x ∈ e :: rest) : s'.isFree x = false := by
      rw [State.isFree, husages, Usages.isFree_claimAll,
        decide_eq_false (not_not_intro (List.mem_map_of_mem hx)), Bool.and_false]
    exact ⟨hclaimed List.mem_cons_self, hclaimed hlast⟩

theorem last_lt (h : Taken t s e p) (he : e.index < s.usages.entries.size) :
    p.1.last.index < s.usages.entries.size := by
  cases h with
  | nothing => exact he
  | segments _ hlast hrest =>
    rcases List.mem_cons.1 hlast with rfl | hlast
    · exact he
    · exact Usages.index_lt_of_isFree (hrest _ hlast)

theorem isSegmentwise (h : Taken t s e p) (hseg : s.usages.IsSegmentwise) :
    p.2.usages.IsSegmentwise := by
  cases h with
  | nothing _ _ husages => rwa [husages]
  | segments _ _ _ _ husages =>
    rw [husages]
    exact hseg.claimAll _

/-- The count is the number of segments that were free and are not, and one more if the first one
was used and the walk left it. -/
theorem count_eq (h : Taken t s e p) (hseg : s.usages.IsSegmentwise) :
    p.1.count = (s.usages.freeSegments \ p.2.usages.freeSegments).card +
      if s.isFree e = false ∧ (t.depart s e).1 ≠ none then 1 else 0 := by
  cases h with
  | nothing hused hnone husages =>
    rw [husages, Finset.sdiff_self, if_neg fun hleft => hleft.2 hnone]
    rfl
  | @segments s' last rest hstart _ hrest hnodup husages =>
    rw [husages]
    by_cases hfree : s.isFree e = true
    · have hall : ∀ x ∈ e :: rest, s.usages.isFree x = true := List.forall_mem_cons.2 ⟨hfree, hrest⟩
      rw [Usages.card_claimAll hseg hall hnodup, if_neg fun hleft => by simp [hfree] at hleft]
      rfl
    · -- the first segment is not among the free ones, so that claiming it changes none of them
      have hsame : (s.usages.claimAll (e :: rest)).freeSegments =
          (s.usages.claimAll rest).freeSegments := by
        rw [Usages.claimAll_cons, Usages.freeSegments_claimAll, Usages.freeSegments_claimSegment,
          Finset.erase_eq_of_notMem fun hmem => hfree ((Usages.mem_freeSegments hseg).1 hmem),
          Usages.freeSegments_claimAll]
      rw [hsame, Usages.card_claimAll hseg hrest (List.nodup_cons.1 hnodup).2,
        if_pos ⟨Bool.eq_false_iff.2 hfree, hstart.resolve_left hfree⟩]

end Taken

/-! ## What links and junctions name -/

/-- Links and members name only endpoints in the table, and links only junctions that exist. -/
structure NamesWithin (t : Tracer α) (s : State α) : Prop where
  size_links : s.links.entries.size = s.usages.entries.size
  linked {a b : Endpoint} : s.links.get a = .endpoint b → b.index < s.usages.entries.size
  joined {a : Endpoint} {j : Junction} : s.links.get a = .junction j → j.index < t.junctions.size
  member {a : Endpoint} {j : Junction} : a ∈ t.junctions.members j →
    a.index < s.usages.entries.size

namespace NamesWithin

omit [Scalar α]

/-- It is enough to look at the entries of the tables. -/
theorem of_entries (hsize : s.links.entries.size = s.usages.entries.size)
    (hlinks : ∀ l ∈ s.links.entries, (∀ b ∈ l.endpoint?, b.index < s.usages.entries.size) ∧
      ∀ j ∈ l.junction?, j.index < t.junctions.size)
    (hmembers : ∀ l ∈ t.junctions.buckets, ∀ a ∈ l, a.index < s.usages.entries.size) :
    t.NamesWithin s := by
  have hentry {a : Endpoint} {l : Link} (hne : l ≠ .unpaired) (hl : s.links.get a = l) :
      l ∈ s.links.entries := by
    have hlt := Links.index_lt_of_get_ne (hl ▸ hne : s.links.get a ≠ .unpaired)
    rw [Links.get, Array.getD_eq_getD_getElem?, Array.getElem?_eq_getElem hlt] at hl
    exact hl ▸ Array.getElem_mem hlt
  refine ⟨hsize, fun hl => ?_, fun hl => ?_, fun {a j} ha => ?_⟩
  · exact (hlinks _ (hentry (by simp) hl)).1 _ rfl
  · exact (hlinks _ (hentry (by simp) hl)).2 _ rfl
  · have hlt : j.index < t.junctions.buckets.size :=
      Junctions.index_lt_of_members_ne (List.ne_nil_of_mem ha)
    rw [Junctions.members, Array.getD_eq_getD_getElem?, Array.getElem?_eq_getElem hlt] at ha
    exact hmembers _ (Array.getElem_mem hlt) a ha

theorem set (h : t.NamesWithin s) {a b : Endpoint} (ha : a.index < s.usages.entries.size)
    (hb : b.index < s.usages.entries.size) :
    t.NamesWithin { s with links := s.links.set a (.endpoint b) } where
  size_links := Links.size_set.trans h.size_links
  linked {c d} hc := by
    rw [Links.get_set (h.size_links ▸ ha)] at hc
    split at hc
    · cases hc
      exact hb
    · exact h.linked hc
  joined {c j} hc := by
    rw [Links.get_set (h.size_links ▸ ha)] at hc
    split at hc
    · cases hc
    · exact h.joined hc
  member := h.member

theorem report (h : t.NamesWithin s) (n : Notice α) : t.NamesWithin (s.report n) :=
  ⟨h.size_links, h.linked, h.joined, h.member⟩

theorem claim (h : t.NamesWithin s) (e : Endpoint) : t.NamesWithin (s.claim e) := by
  have hsize : (s.claim e).usages.entries.size = s.usages.entries.size := by
    simp [State.claim, Usages.claimSegment, Usages.claim]
  exact ⟨hsize ▸ h.size_links, fun hl => hsize ▸ h.linked hl, h.joined, fun hm => hsize ▸ h.member hm⟩

end NamesWithin

omit [Scalar α] in
theorem NamesWithin.mend (h : t.NamesWithin s) (he : e.index < s.usages.entries.size)
    (hnext : next.index < s.usages.entries.size) : t.NamesWithin (mend s e next) := by
  unfold Tracer.mend
  dsimp only
  split
  · exact h
  · exact (h.report _).set hnext he

/-- Departing from an endpoint in the table names nothing outside it. -/
theorem NamesWithin.depart (h : t.NamesWithin s) (he : e.index < s.usages.entries.size) :
    t.NamesWithin (t.depart s e).2 := by
  unfold Tracer.depart
  split
  · exact h
  · rename_i next hl
    exact h.mend he (h.linked hl)
  · split
    · rename_i next hout
      have hnext := h.member (mem_of_straightest? hout).1
      exact (h.set he hnext).set hnext he
    · exact h.report _

/-- A walk goes on from free endpoints, which are in the table, and names nothing outside it. -/
theorem NamesWithin.walk (h : t.NamesWithin s) (he : e.index < s.usages.entries.size)
    (hseg : s.usages.IsSegmentwise) : t.NamesWithin (t.walk s e).2 := by
  fun_induction t.walk s e with
  | case1 s e s' hd =>
    have hdepart := h.depart he
    rwa [hd] at hdepart
  | case2 s e next s' hd claimed hfree w s'' hw =>
    rename_i ih
    have hdepart := h.depart he
    rw [hd] at hdepart
    rw [← usages_of_depart hd] at hseg
    have hclaimed : claimed.usages.IsSegmentwise := hseg.claimSegment e
    have htwin : claimed.isFree next.twin = true := (hclaimed next).trans hfree
    have hwalk := ih (hdepart.claim e) (Usages.index_lt_of_isFree htwin) hclaimed
    rwa [hw] at hwalk
  | case3 s e next s' hd claimed hused =>
    have hdepart := h.depart he
    rw [hd] at hdepart
    exact hdepart.claim e

theorem NamesWithin.follow (h : t.NamesWithin s) (he : e.index < s.usages.entries.size)
    (hseg : s.usages.IsSegmentwise) : t.NamesWithin (t.follow s e).2 := by
  have hwalk := h.walk he hseg
  rw [follow_eq_takeLast, takeLast]
  split
  · exact hwalk.claim _
  · exact hwalk

/-! ## All of it -/

/-- Whatever the links, a walk that starts on a segment that is not excluded looks for a way on at most
once more often than there are free segments. It takes only its first segment and free ones, never an
excluded one; the segments at its two ends are used afterwards; and it counts the segments it took,
and one more if it left a first segment that was used already. -/
theorem follow_claims (t : Tracer α) (s : State α) (e : Endpoint) (hnames : t.NamesWithin s)
    (hseg : s.usages.IsSegmentwise) (he : s.usages.get e ≠ .excluded) :
    ∃ w s', t.follow s e = (w, s') ∧
      t.followWithin (s.usages.freeSegments.card + 1) s e = some (w, s') ∧
      t.NamesWithin s' ∧ s'.usages.IsSegmentwise ∧
      (∀ a, s.usages.get a = .excluded → s.usages.get a.twin = .excluded →
        s'.usages.get a = .excluded) ∧
      (∀ a, s'.usages.get a ≠ s.usages.get a → a.segment = e.segment ∨ s.isFree a = true) ∧
      s'.isFree e = false ∧ s'.isFree w.last = false ∧ w.last.index < s.usages.entries.size ∧
      w.count = (s.usages.freeSegments \ s'.usages.freeSegments).card +
        if s.isFree e = false ∧ (t.depart s e).1 ≠ none then 1 else 0 := by
  have htaken := taken_follow t hseg e
  have hlt := Usages.index_lt_of_get_ne he
  have hwithin : t.followWithin (s.usages.freeSegments.card + 1) s e = some (t.follow s e) := by
    have hleft : departuresLeft s.usages e ≤ s.usages.freeSegments.card + 1 := by
      rw [departuresLeft]
      split <;> omega
    rw [followWithin, walkWithin_eq_some hseg hleft]
    rfl
  have hkept := hnames.follow hlt hseg
  rcases hfollow : t.follow s e with ⟨w, s'⟩
  rw [hfollow] at htaken hwithin hkept
  refine ⟨w, s', rfl, hwithin, hkept, htaken.isSegmentwise hseg, fun a ha hat => ?_,
    fun a => htaken.changed hseg, htaken.used.1, htaken.used.2, htaken.last_lt hlt,
    htaken.count_eq hseg⟩
  by_contra hne
  rcases htaken.changed hseg (a := a) (by rwa [ha]) with hsegment | hfree
  · rcases Endpoint.segment_eq_iff.1 hsegment with rfl | rfl
    · exact he ha
    · exact he (e.twin_twin ▸ hat)
  · rw [State.isFree, Usages.isFree, ha] at hfree
    cases hfree

/-- Five segments in a row, the third of which stands aside at a junction. -/
def row : Tracer Float where
  segments := .replicate #[⟨0, 0, 0⟩, ⟨1, 0, 0⟩, ⟨1, 0, 0⟩, ⟨2, 0, 0⟩, ⟨2, 0, 0⟩, ⟨2, 1, 0⟩, ⟨2, 0, 0⟩,
    ⟨3, 0, 0⟩, ⟨3, 0, 0⟩, ⟨4, 0, 0⟩] 1
  junctions := ⟨#[[3, 4, 6].map .ofIndex]⟩
  shortLength := 0.02
  openEndGap := 0.02

/-- The first segment is claimed and the third one excluded. Endpoint `2` does not return the link of
`1`, nor `8` that of `7`, and `9` is linked to a member of the junction. -/
def damaged : State Float where
  links := ⟨#[.unpaired, .endpoint (.ofIndex 2), .unpaired, .junction (.ofIndex 0),
    .junction (.ofIndex 0), .unpaired, .junction (.ofIndex 0), .endpoint (.ofIndex 8),
    .endpoint (.ofIndex 5), .endpoint (.ofIndex 4)]⟩
  usages := ⟨#[.claimed, .claimed, .free, .free, .excluded, .excluded, .free, .free, .free, .free]⟩
  notices := #[]

/-- The walk on from the first segment passes by the excluded one and takes the three free ones. It
counts four. -/
theorem follow_damaged :
    row.NamesWithin damaged ∧ damaged.usages.IsSegmentwise ∧
    damaged.usages.get (.ofIndex 1) ≠ .excluded ∧
    (row.follow damaged (.ofIndex 1)).1 = ⟨.ofIndex 9, 4⟩ ∧
    (row.follow damaged (.ofIndex 1)).2.usages = ⟨#[.claimed, .claimed, .claimed, .claimed, .excluded,
      .excluded, .claimed, .claimed, .claimed, .claimed]⟩ := by
  have hnames : row.NamesWithin damaged := .of_entries (by decide) (by decide) (by decide)
  have hseg : damaged.usages.IsSegmentwise := by decide
  have hstart : damaged.usages.get (.ofIndex 1) ≠ .excluded := by decide
  obtain ⟨w, s', hfollow, hwithin, -⟩ := follow_claims row damaged (.ofIndex 1) hnames hseg hstart
  have hrun : (row.followWithin (damaged.usages.freeSegments.card + 1) damaged (.ofIndex 1)).map
      (fun p => (p.1, p.2.usages)) = some (⟨.ofIndex 9, 4⟩, ⟨#[.claimed, .claimed, .claimed, .claimed,
        .excluded, .excluded, .claimed, .claimed, .claimed, .claimed]⟩) := by
    decide +kernel
  rw [hwithin] at hrun
  rw [hfollow]
  exact ⟨hnames, hseg, hstart, Prod.mk.inj (Option.some.inj hrun)⟩

end Tracer

end DoubleCurve.Trace
