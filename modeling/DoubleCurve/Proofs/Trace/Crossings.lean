import DoubleCurve.Proofs.Matching.Places
import DoubleCurve.Proofs.Trace.Strands
import Mathlib.Algebra.Module.BigOperators
import Mathlib.Data.ZMod.Basic

/-!
# Curves that cross

Where every endpoint is linked and every junction has an even number of members
(`Matching.Balanced`), a walk can be expected to come around. It does if it starts
from a segment whose other end is at no junction: the members of a junction that are
settled are linked two by two, so that a walk which arrives finds one of them free
(`Tracer.exists_wayOut`), and it stops nowhere but at its start. If the other end is at a
junction, it is no way out for the walk, since its segment is claimed; the walk does not
come around, and the junction is reported (`Tracer.exhausted_of_junction`).

`closed_iff_of_build` puts both together: all curves are closed and no junction is
reported exactly if no strand starts from a segment whose second end is at a junction.
-/

namespace DoubleCurve

/-- Endpoints that are linked to one another two by two are an even number. -/
theorem Links.even_length {l : Links} {es : List Endpoint} (hnodup : es.Nodup)
    (hlinked : ∀ a ∈ es, ∃ b ∈ es, b ≠ a ∧ l.get a = .endpoint b ∧ l.get b = .endpoint a) :
    Even es.length := by
  choose partner hmem hne hl hback using hlinked
  rw [← List.toFinset_card_of_nodup hnodup, ← ZMod.natCast_eq_zero_iff_even, Finset.cast_card]
  refine Finset.sum_involution (fun a ha => partner a (List.mem_toFinset.1 ha)) (fun _ _ => rfl)
    (fun a ha _ => hne a _) (fun a ha => List.mem_toFinset.2 (hmem a _)) fun a ha => ?_
  have ha := List.mem_toFinset.1 ha
  exact (Link.endpoint.inj ((hback a ha).symm.trans (hl _ (hmem a ha)))).symm

/-- Whether a trace of the matching can come around everywhere: every endpoint is linked that can be
walked over, and every junction has an even number of members. -/
structure Matching.Balanced {α : Type} (m : Matching α) : Prop where
  linked {a : Endpoint} : (Trace.State.start m).isFree a = true → m.links.get a ≠ .unpaired
  even (j : Junction) : Even (m.junctions.members j).length

namespace Trace

variable {α : Type} {m : Matching α} {s s' : State α} {ends ends' rest : Set Endpoint} {a e : Endpoint}
  {j : Junction}

/-- A settled endpoint that had a link and is linked to no other was reported. -/
theorem Standing.mem_exhausted_of_settled (h : Standing m s ends) (ha : s.Settled ends a)
    (hlinked : m.links.get a ≠ .unpaired) (hnone : ∀ b, s.links.get a ≠ .endpoint b) :
    a ∈ s.exhausted := by
  refine h.mem_exhausted.2 ⟨ha, ?_⟩
  cases hl : s.links.get a with
  | unpaired =>
    obtain ⟨b, -, hb, -⟩ := h.relinked (fun heq => hlinked (heq ▸ hl))
    exact absurd hb (hnone b)
  | endpoint b => exact absurd hl (hnone b)
  | junction j => exact ⟨j, rfl⟩

namespace Tracer

variable [Scalar α] {t : Tracer α}

/-! ## Ways out of a junction -/

/-- Whether no score at a junction fails to be a number. -/
def Scores (t : Tracer α) : Prop :=
  ∀ j, ∀ e ∈ t.junctions.members j, ∀ a ∈ t.junctions.members j,
    t.score (t.segments.vectorTo e).unit a ≤ t.score (t.segments.vectorTo e).unit a

theorem isSome_foldl_keepBetter {f : Endpoint → α} {es : List Endpoint} {best : Option (Endpoint × α)}
    (hf : ∀ a ∈ es, f a ≤ f a) (h : es ≠ [] ∨ best.isSome = true) :
    (es.foldl (keepBetter f) best).isSome = true := by
  induction es generalizing best with
  | nil => exact h.resolve_left fun hne => hne rfl
  | cons a es ih =>
    refine ih (fun b hb => hf b (List.mem_cons_of_mem a hb)) (.inr ?_)
    unfold keepBetter
    cases best with
    | none =>
      dsimp only
      rw [if_pos (hf a List.mem_cons_self)]
      rfl
    | some p =>
      dsimp only
      split <;> rfl

/-- If there is a way out of a junction, one is taken. -/
theorem straightest?_ne_none {u : Usages} (hscores : t.Scores) (he : e ∈ t.junctions.members j)
    (ha : a ∈ t.junctions.members j) (hout : isWayOut u e a = true) : t.straightest? u e j ≠ none := by
  rw [straightest?, Ne, Option.map_eq_none_iff, ← Option.isNone_iff_eq_none, Bool.not_eq_true,
    Option.isNone_eq_false_iff]
  refine isSome_foldl_keepBetter (fun b hb => ?_) (.inl ?_)
  · exact hscores j e he b (List.mem_filter.1 hb).1
  · exact List.ne_nil_of_mem (List.mem_filter.2 ⟨ha, hout⟩)

omit [Scalar α] in
/-- While nothing was reported, a walk that arrives at a junction finds a way out, if no other open end
is at a junction: the settled members are an even number, and so they are not all but one. -/
theorem exists_wayOut (hm : m.Traceable) (hb : m.Balanced)
    (h : Standing m (s.claim e) (insert e rest)) (hrest : ∀ a ∈ rest, ∀ j, m.links.get a ≠ .junction j)
    (hx : s.exhausted = []) (hl : s.links.get e = .junction j) :
    ∃ a ∈ m.junctions.members j, isWayOut s.usages e a = true := by
  have hme : m.links.get e = .junction j := by
    rw [← h.original (.inr (Set.mem_insert e rest)), State.links_claim, hl]
  have hmem : e ∈ m.junctions.members j := hm.tied.mem_iff.2 hme
  by_contra hnone
  -- then all members but `e` are settled
  have hsettled {a : Endpoint} (ha : a ∈ m.junctions.members j) (hae : a ≠ e) :
      (s.claim e).Settled (insert e rest) a := by
    refine ⟨?_, ?_⟩
    · by_contra hfree
      rw [Bool.not_eq_false, State.isFree_claim, Bool.and_eq_true, bne_iff_ne, Ne,
        Endpoint.segment_eq_iff, not_or] at hfree
      exact hnone ⟨a, ha, isWayOut_iff.2 ⟨hfree.2.1, hfree.2.2, hfree.1⟩⟩
    · rintro (rfl | hmem)
      · exact hae rfl
      · exact hrest a hmem j (hm.tied.mem_iff.1 ha)
  have hlinked (a : Endpoint) (ha : a ∈ (m.junctions.members j).erase e) :
      ∃ b ∈ (m.junctions.members j).erase e, b ≠ a ∧ s.links.get a = .endpoint b ∧
        s.links.get b = .endpoint a := by
    rw [(hm.tied.nodup j).mem_erase_iff] at ha
    have hset := hsettled ha.2 ha.1
    have hma := hm.tied.mem_iff.1 ha.2
    have hne : (s.claim e).links.get a ≠ m.links.get a := by
      rw [hma]
      intro hj
      have hmem := h.mem_exhausted.2 ⟨hset, j, hj⟩
      rw [State.exhausted, State.notices_claim, ← State.exhausted, hx] at hmem
      cases hmem
    obtain ⟨b, k, hab, hk, hmb⟩ := h.relinked hne
    rw [hma, Link.junction.injEq] at hk
    subst hk
    have hba := h.returned hab
    refine ⟨b, (hm.tied.nodup j).mem_erase_iff.2 ⟨?_, hm.tied.mem_iff.2 hmb⟩, ?_, hab, hba⟩
    · rintro rfl
      rw [State.links_claim, hl] at hba
      cases hba
    · rintro rfl
      exact h.ne_self b hab
  have hodd := Links.even_length ((hm.tied.nodup j).erase e) hlinked
  have heven := hb.even j
  have hpos := List.length_pos_of_mem hmem
  rw [List.length_erase_of_mem hmem] at hodd
  rw [Nat.even_iff] at hodd heven
  omega

/-! ## A walk onward -/

omit [Scalar α] in
theorem exhausted_mend (s : State α) (e next : Endpoint) :
    (mend s e next).exhausted = s.exhausted := by
  unfold mend
  dsimp only
  split
  · rfl
  · exact (State.exhausted_report ..).trans (List.append_nil _)

theorem mem_exhausted_depart (h : a ∈ s.exhausted) : a ∈ (t.depart s e).2.exhausted := by
  unfold depart
  split
  · exact h
  · exact (exhausted_mend ..).symm ▸ h
  · split
    · exact h
    · rw [State.exhausted_report]
      exact List.mem_append_left _ h

/-- Departing reports nothing if there is a way out of every junction. -/
theorem exhausted_depart (h : ∀ j, s.links.get e = .junction j → t.straightest? s.usages e j ≠ none) :
    (t.depart s e).2.exhausted = s.exhausted := by
  unfold depart
  split
  · rfl
  · exact exhausted_mend ..
  · rename_i j hl
    split
    · rfl
    · rename_i hnone
      exact absurd hnone (h j hl)

theorem links_depart (h : Standing m (s.claim e) (insert e rest)) (he : e ∉ rest) (ha : a ∈ rest) :
    (t.depart s e).2.links.get a = s.links.get a := by
  have hae : a ≠ e := fun hae => he (hae ▸ ha)
  unfold depart
  split
  · rfl
  · rename_i next hl
    have hback : s.links.get next = .endpoint e := h.returned hl
    rw [mend_eq_self hback]
  · rename_i j hl
    split
    · rename_i next hnext
      obtain ⟨hne, hnt, hfree⟩ := isWayOut_iff.1 (mem_of_straightest? hnext).2
      have han : a ≠ next := by
        rintro rfl
        have hclaimed := h.claimed (.inr ha)
        rw [State.isFree_claim, State.isFree, hfree, Bool.true_and, bne_eq_false_iff_eq,
          Endpoint.segment_eq_iff] at hclaimed
        exact hclaimed.elim hne hnt
      show (s.links.pair e next).get a = _
      rw [Links.pair, Links.get_set_of_ne han.symm, Links.get_set_of_ne hae.symm]
    · rfl

variable (hm : m.Traceable) (hj : t.junctions = m.junctions) (hst : Standing m s ∅)
  (he : s.isFree e = true)

include hm hj hst he

/-- A walk onward reports nothing if the other end of its segment is at no junction. -/
theorem exhausted_onward (hb : m.Balanced) (hscores : t.Scores) (hx : s.exhausted = [])
    (hend : ∀ j, m.links.get e.twin ≠ .junction j) : (t.follow s e).2.exhausted = [] := by
  obtain ⟨hopen, hnot⟩ := standing_onward hst he
  refine follow_keeps_standing (P := fun s => s.exhausted = []) hm hj (fun s e' h _ hx => ?_)
    (fun _ _ hx => hx) hopen hnot hx
  rw [exhausted_depart fun j hl => ?_, hx]
  have hrest (a : Endpoint) (ha : a ∈ ({e.twin} : Set Endpoint)) (j : Junction) :
      m.links.get a ≠ .junction j := Set.mem_singleton_iff.1 ha ▸ hend j
  obtain ⟨a, ha, hout⟩ := exists_wayOut hm hb h hrest hx hl
  have hmem : e' ∈ m.junctions.members j := by
    rw [hm.tied.mem_iff, ← h.original (.inr (Set.mem_insert e' _)), State.links_claim, hl]
  exact straightest?_ne_none hscores (hj ▸ hmem) (hj ▸ ha) hout

/-- A walk onward that did not come around reported where it ended. -/
theorem mem_exhausted_onward (hlinked : ∀ a, s.isFree a = true → m.links.get a ≠ .unpaired)
    (hback : (t.follow s e).2.links.get e.twin ≠ .endpoint (t.follow s e).1.last) :
    (t.follow s e).1.last ∈ (t.follow s e).2.exhausted := by
  obtain ⟨-, new, hr, hnone, hlast, -⟩ := standing_back hm hj hst he rfl hback
  have hmem : (t.follow s e).1.last ∈ new ++ [e] := List.mem_of_mem_head? hr.head
  refine hr.standing.mem_exhausted_of_settled ⟨?_, hlast⟩ (hlinked _ (hr.trail.free hmem)) hnone
  rw [← Bool.not_eq_true, hr.trail.isFree_iff]
  exact fun hfree => hfree.2 (List.mem_map_of_mem hmem)

/-- A strand comes around and reports nothing if the other end of its first segment is at no
junction. -/
theorem isCycle_strand (hb : m.Balanced) (hscores : t.Scores) (hx : s.exhausted = [])
    (hlinked : ∀ a, s.isFree a = true → m.links.get a ≠ .unpaired)
    (hend : ∀ j, m.links.get e.twin ≠ .junction j) :
    (t.strand s e).2.exhausted = [] ∧ (t.strand s e).1.isCycle (t.strand s e).2.links = true := by
  have hquiet := exhausted_onward hm hj hst he hb hscores hx hend
  have hback : (t.follow s e).2.links.get e.twin = .endpoint (t.follow s e).1.last := by
    by_contra hback
    have hmem := mem_exhausted_onward hm hj hst he hlinked hback
    rw [hquiet] at hmem
    cases hmem
  obtain ⟨new, hf⟩ := followed_onward hm hj hst he
  rw [(strand_eq_bothWays hm hj hst he).2]
  rcases hw : t.follow s e with ⟨w, s'⟩
  rw [hw] at hquiet hback hf
  rw [bothWays, hw]
  dsimp only
  rw [if_pos hback]
  refine ⟨hquiet, beq_iff_eq.2 ?_⟩
  cases hf with
  | ended hr hnone => exact absurd (hr.standing.returned hback) (hnone e.twin)
  | around _ hr => exact hr.standing.returned hback

/-- A strand reports a junction if the other end of its first segment is at one. -/
theorem exhausted_strand (hlinked : ∀ a, s.isFree a = true → m.links.get a ≠ .unpaired)
    (hend : m.links.get e.twin = .junction j) : (t.strand s e).2.exhausted ≠ [] := by
  obtain ⟨hopen, hnot⟩ := standing_onward hst he
  have horiginal : (t.follow s e).2.links.get e.twin = .junction j := by
    refine follow_keeps_standing (P := fun s => s.links.get e.twin = .junction j) hm hj
      (fun s e' h he' hl => ?_) (fun _ _ hl => hl) hopen hnot ?_
    · rw [links_depart h he' (Set.mem_singleton _), hl]
    · rw [← hend]
      exact hst.original (.inl (by rw [hst.twin_free, he]))
  have hback : (t.follow s e).2.links.get e.twin ≠ .endpoint (t.follow s e).1.last := by
    rw [horiginal]
    simp
  have hmem := mem_exhausted_onward hm hj hst he hlinked hback
  rw [(strand_eq_bothWays hm hj hst he).2]
  rcases hw : t.follow s e with ⟨w, s'⟩
  rw [hw] at hback hmem
  rw [bothWays, hw]
  dsimp only
  rw [if_neg hback]
  have hkept : w.last ∈ (t.follow s' e.twin).2.exhausted :=
    follow_keeps (P := fun s => w.last ∈ s.exhausted) (fun _ _ => mem_exhausted_depart)
      (fun _ _ hmem => hmem) hmem
  exact List.ne_nil_of_mem hkept

end Tracer

/-! ## The run -/

/-- What was reported stays reported from one state to a later one. -/
theorem Evolves.exhausted_subset (hev : Evolves s ends s' ends') (h : Standing m s ends)
    (h' : Standing m s' ends') : s.exhausted ⊆ s'.exhausted := fun a ha => by
  obtain ⟨hset, j, hl⟩ := h.mem_exhausted.1 ha
  exact h'.mem_exhausted.2 ⟨hev.settled hset, j, (hev.kept hset).trans hl⟩

namespace Tracer

variable [Scalar α] {t : Tracer α} (hm : m.Traceable) (hj : t.junctions = m.junctions)
  (hb : m.Balanced)

include hm hj hb

theorem linked_after {k : Nat} (ha : (t.after m k).state.isFree a = true) :
    m.links.get a ≠ .unpaired := by
  have hstart := isFree_of_after hm hj (Nat.zero_le k) ha
  rw [after_zero] at hstart
  exact hb.linked hstart

/-- A strand that does not start from a segment whose other end is at a junction reports nothing and
adds no open curve. -/
theorem closed_traceFrom {k : Nat} (hscores : t.Scores) (hquiet : (t.after m k).state.exhausted = [])
    (hclosed : ∀ c ∈ (t.after m k).curves, c.closed = true)
    (he : (t.after m k).state.isFree e = true) (hend : ∀ j, m.links.get e.twin ≠ .junction j) :
    (t.traceFrom (t.after m k) e).state.exhausted = [] ∧
      ∀ c ∈ (t.traceFrom (t.after m k) e).curves, c.closed = true := by
  have hst := standing_after (t := t) hm hj k
  obtain ⟨hquiet', hcycle⟩ := isCycle_strand hm hj hst he hb hscores hquiet
    (fun a => linked_after hm hj hb) hend
  obtain ⟨es, hs⟩ := stranded hm hj hst he
  obtain ⟨r, hr⟩ : ∃ r, t.strand (t.after m k).state e = r := ⟨_, rfl⟩
  rw [hr] at hquiet' hcycle hs
  rcases traceFrom_of_isFree he hr with ⟨-, heq⟩ | ⟨hnot, heq⟩
  · rw [heq]
    refine ⟨?_, hclosed⟩
    rw [State.exhausted_report, hquiet']
    rfl
  · rw [heq]
    refine ⟨hquiet', fun c hc => ?_⟩
    -- the strand comes around, and it has more than two segments
    rw [hs.isDegenerate_eq, hcycle, Bool.true_and, decide_eq_false_iff_not, not_le] at hnot
    dsimp only [addCurve] at hc
    split at hc
    · exact hclosed c hc
    · rcases Array.mem_push.1 hc with hc | rfl
      · exact hclosed c hc
      · rw [hs.isClosed_eq, hcycle, decide_eq_true hnot, Bool.true_and]

/-- As long as no strand starts from a segment whose other end is at a junction, nothing is reported
and all curves are closed. -/
theorem closed_after (hscores : t.Scores) (k : Nat)
    (hends : ∀ i < k, ∀ e, t.starts[i]? = some e → (t.after m i).state.isFree e = true →
      ∀ j, m.links.get e.twin ≠ .junction j) :
    (t.after m k).state.exhausted = [] ∧ ∀ c ∈ (t.after m k).curves, c.closed = true := by
  induction k with
  | zero =>
    rw [after_zero]
    exact ⟨rfl, fun c hc => absurd hc (Array.not_mem_empty c)⟩
  | succ k ih =>
    obtain ⟨hquiet, hclosed⟩ := ih fun i hi => hends i (Nat.lt_succ_of_lt hi)
    cases hk : t.starts[k]? with
    | none =>
      rw [after_succ_of_eq_none hk]
      exact ⟨hquiet, hclosed⟩
    | some e =>
      rw [after_succ hk]
      cases he : (t.after m k).state.isFree e with
      | false =>
        rw [traceFrom_of_isFree_eq_false he]
        exact ⟨hquiet, hclosed⟩
      | true =>
        exact closed_traceFrom hm hj hb hscores hquiet hclosed he
          (hends k (Nat.lt_succ_self k) e hk he)

/-- Once a strand starts from a segment whose other end is at a junction, one is reported. -/
theorem exhausted_traceAll {k : Nat} (hk : t.starts[k]? = some e)
    (he : (t.after m k).state.isFree e = true) (hend : m.links.get e.twin = .junction j) :
    (t.traceAll (.start m)).state.exhausted ≠ [] := by
  have hstrand := exhausted_strand hm hj (standing_after hm hj k) he
    (fun a => linked_after hm hj hb) hend
  have hsucc : (t.after m (k + 1)).state.exhausted ≠ [] := by
    obtain ⟨r, hr⟩ : ∃ r, t.strand (t.after m k).state e = r := ⟨_, rfl⟩
    rw [hr] at hstrand
    rw [after_succ hk]
    rcases traceFrom_of_isFree he hr with ⟨-, heq⟩ | ⟨-, heq⟩
    · rw [heq, State.exhausted_report]
      exact List.append_ne_nil_of_left_ne_nil hstrand _
    · rw [heq]
      exact hstrand
  have hlen : k + 1 ≤ t.starts.length := (List.getElem?_eq_some_iff.1 hk).1
  rw [← after_of_length_le (Nat.le_refl _)]
  intro hnil
  refine hsucc (List.eq_nil_iff_forall_not_mem.2 fun a ha => ?_)
  have := (evolves_after hm hj hlen).exhausted_subset (standing_after hm hj _)
    (standing_after hm hj _) ha
  rw [hnil] at this
  cases this

/-- All curves are closed and no junction is reported exactly if no strand starts from a segment whose
other end is at a junction. -/
theorem closed_iff (hscores : t.Scores) :
    ((t.traceAll (.start m)).state.exhausted = [] ∧
      ∀ c ∈ (t.traceAll (.start m)).curves, c.closed = true) ↔
    ∀ k e, t.starts[k]? = some e → (t.after m k).state.isFree e = true →
      ∃ a, m.links.get e.twin = .endpoint a := by
  constructor
  · rintro ⟨hquiet, -⟩ k e hk he
    have htwin : (t.after m k).state.isFree e.twin = true := by
      rw [(standing_after hm hj k).twin_free, he]
    cases hl : m.links.get e.twin with
    | unpaired => exact absurd hl (linked_after hm hj hb htwin)
    | endpoint a => exact ⟨a, rfl⟩
    | junction j => exact absurd hquiet (exhausted_traceAll hm hj hb hk he hl)
  · intro hends
    rw [← after_of_length_le (Nat.le_refl _)]
    refine closed_after hm hj hb hscores _ fun i _ e hi he j hl => ?_
    obtain ⟨a, ha⟩ := hends i e hi he
    rw [hl] at ha
    cases ha

end Tracer

/-! ## Points shared by an even number of endpoints -/

section

variable [Scalar α] [LawfulDigits α] {points : Array (Vec3 α)} {settings : Settings α}
  {found : Array (Notice α)} (h : Matching.build points settings = .ok (m, found))
  (hp : Matcher.TellsPoints ⟨m.segments, settings.matching, settings.cellScale⟩
    (Matching.participants m.segments settings.matching))

include h

omit [LawfulDigits α] in
theorem mem_participants_of_isFree (ha : (State.start m).isFree a = true) :
    a ∈ Matching.participants m.segments settings.matching := by
  obtain ⟨hv, hs, rfl⟩ := Matching.of_build_eq_ok h
  have hsize := Segments.size_replicate_lt points (Settings.symmetry_pos hv) hs
  generalize Segments.replicate points settings.symmetry = s at ha hsize
  obtain ⟨hlt, hx⟩ := State.isFree_start.1 ha
  rw [Matching.size_excluded_ofSegments] at hlt
  have hmem := (Segments.mem_endpoints (Nat.le_of_lt hsize)).2 hlt
  rw [Matching.isExcluded_ofSegments (Nat.le_of_lt hsize) hmem] at hx
  exact Matching.mem_participants.2 ⟨hmem, hx⟩

include hp

/-- How an endpoint is linked that can be walked over. -/
theorem link_cases (ha : a ∈ Matching.participants m.segments settings.matching) :
    ((Matching.atPoint m.segments settings.matching a).length = 1 ∧ m.links.get a = .unpaired) ∨
    ((Matching.atPoint m.segments settings.matching a).length = 2 ∧ ∃ b, m.links.get a = .endpoint b) ∨
    3 ≤ (Matching.atPoint m.segments settings.matching a).length ∧ ∃ j, m.links.get a = .junction j ∧
      (m.junctions.members j).length = (Matching.atPoint m.segments settings.matching a).length := by
  obtain ⟨hv, hs, rfl⟩ := Matching.of_build_eq_ok h
  have hsize := Segments.size_replicate_lt points (Settings.symmetry_pos hv) hs
  refine (Matching.gathered_ofSegments hsize hp ha).cases (List.mem_filter.2 ⟨ha, ?_⟩)
  rw [decide_eq_true rfl, Bool.true_or]

/-- Where every point is shared by an even number of endpoints, a trace can come around everywhere. -/
theorem balanced_of_even (heven : ∀ a ∈ Matching.participants m.segments settings.matching,
    Even (Matching.atPoint m.segments settings.matching a).length) : m.Balanced where
  linked {a} ha := by
    have hmem := mem_participants_of_isFree h ha
    rcases link_cases h hp hmem with ⟨hone, -⟩ | ⟨-, b, hb⟩ | ⟨-, j, hj, -⟩
    · have := heven a hmem
      rw [hone] at this
      exact absurd this (by decide)
    · rw [hb]
      simp
    · rw [hj]
      simp
  even j := by
    have hm := Matching.traceable_of_build h
    rcases (m.junctions.members j).eq_nil_or_concat with hnil | ⟨es, a, hconcat⟩
    · rw [hnil]
      exact Even.zero
    · have hl : m.links.get a = .junction j := by
        rw [← hm.tied.mem_iff, hconcat, List.concat_eq_append]
        exact List.mem_concat_self
      have hfree := Standing.isFree_start_of_linked hm (by rw [hl]; simp)
      have hmem := mem_participants_of_isFree h hfree
      rcases link_cases h hp hmem with ⟨-, hone⟩ | ⟨-, b, hb⟩ | ⟨-, k, hk, hlen⟩
      · rw [hl] at hone
        cases hone
      · rw [hl] at hb
        cases hb
      · rw [hl, Link.junction.injEq] at hk
        rw [hk, hlen]
        exact heven a hmem

/-- Where different endpoints match exactly if they are at the same point, every point is shared by an
even number of endpoints and all scores at junctions are numbers, all curves are closed and no junction
is reported exactly if no strand starts from a segment whose second endpoint is at a junction. -/
theorem closed_iff_of_build (heven : ∀ a ∈ Matching.participants m.segments settings.matching,
      Even (Matching.atPoint m.segments settings.matching a).length)
    (hscores : ∀ j ∈ m.junctions.all, ∀ e ∈ m.junctions.members j, ∀ a ∈ m.junctions.members j,
      (Tracer.ofMatching m settings).score (m.segments.vectorTo e).unit a ≤
        (Tracer.ofMatching m settings).score (m.segments.vectorTo e).unit a) :
    ((∀ n ∈ (curves m settings).2, exhaustedAt? n = none) ∧
      ∀ c ∈ (curves m settings).1, c.closed = true) ↔
    ∀ k e, (Tracer.ofMatching m settings).starts[k]? = some e →
      ((Tracer.ofMatching m settings).after m k).state.isFree e = true →
      (Matching.atPoint m.segments settings.matching e.twin).length = 2 := by
  have hm := Matching.traceable_of_build h
  have hj : (Tracer.ofMatching m settings).junctions = m.junctions := rfl
  have hb := balanced_of_even h hp heven
  have hsize : m.junctions.size ≤ 0x100000000 := by
    obtain ⟨hv, hs, rfl⟩ := Matching.of_build_eq_ok h
    obtain ⟨b, -, hb, hsound⟩ := Matching.sound_ofSegments settings
      (Segments.size_replicate_lt points (Settings.symmetry_pos hv) hs)
    exact hb ▸ hsound.size_junctions
  have hscores : (Tracer.ofMatching m settings).Scores := fun j e he a ha =>
    hscores j ((Matching.mem_all hsize).2 (Junctions.index_lt_of_members_ne (List.ne_nil_of_mem he))) e he
      a ha
  have hquiet : (∀ n ∈ (curves m settings).2, exhaustedAt? n = none) ↔
      ((Tracer.ofMatching m settings).traceAll (.start m)).state.exhausted = [] := by
    rw [State.exhausted, List.filterMap_eq_nil_iff]
    exact ⟨fun hall n hn => hall n (Array.mem_toList_iff.1 hn),
      fun hall n hn => hall n (Array.mem_toList_iff.2 hn)⟩
  rw [hquiet]
  refine (Tracer.closed_iff hm hj hb hscores).trans (forall_congr' fun k => forall_congr' fun e =>
    forall_congr' fun hk => forall_congr' fun he => ?_)
  have htwin : ((Tracer.ofMatching m settings).after m k).state.isFree e.twin = true := by
    rw [(Tracer.standing_after hm hj k).twin_free, he]
  have hfree := Tracer.isFree_of_after hm hj (Nat.zero_le k) htwin
  rw [Tracer.after_zero] at hfree
  have hlinked := hb.linked hfree
  rcases link_cases h hp (mem_participants_of_isFree h hfree) with ⟨-, hone⟩ | ⟨htwo, hl⟩ | ⟨hthree, j, hl, -⟩
  · exact absurd hone hlinked
  · exact ⟨fun _ => htwo, fun _ => hl⟩
  · refine ⟨?_, fun htwo => ?_⟩
    · rintro ⟨a, ha⟩
      rw [hl] at ha
      cases ha
    · omega

end

/-- Two triangles that touch in the origin, the first segment between these two points. -/
def bowTie (p q : Vec3 Float) : Array (Vec3 Float) :=
  #[p, q, ⟨0, 0, 0⟩, ⟨-1, -1, 0⟩, ⟨-1, -1, 0⟩, ⟨-1, 1, 0⟩, ⟨-1, 1, 0⟩, ⟨0, 0, 0⟩, ⟨0, 0, 0⟩, ⟨1, -1, 0⟩,
    ⟨1, -1, 0⟩, ⟨1, 1, 0⟩]

/-- If the first segment leads away from the junction, the only curve is closed. -/
theorem closed_bowTie : ∃ m found, Matching.build (bowTie ⟨0, 0, 0⟩ ⟨1, 1, 0⟩) .standard = .ok (m, found) ∧
    (curves m .standard).1.size = 1 ∧ (∀ n ∈ (curves m .standard).2, exhaustedAt? n = none) ∧
    ∀ c ∈ (curves m .standard).1, c.closed = true := by
  have hb : Matching.build (bowTie ⟨0, 0, 0⟩ ⟨1, 1, 0⟩) .standard = .ok _ :=
    Matching.build_eq_ok rfl (by decide)
  refine ⟨_, _, hb, by decide +kernel, (closed_iff_of_build hb (by decide +kernel) (by decide +kernel)
    (by decide +kernel)).2 fun k e hk => ?_⟩
  obtain ⟨hlt, rfl⟩ := List.getElem?_eq_some_iff.1 hk
  clear hk
  revert k
  decide +kernel

/-- If the first segment leads to the junction, the only curve is open and the junction is reported
at either end of it. -/
theorem open_bowTie : ∃ m found, Matching.build (bowTie ⟨1, 1, 0⟩ ⟨0, 0, 0⟩) .standard = .ok (m, found) ∧
    Matcher.TellsPoints ⟨m.segments, Settings.standard.matching, Settings.standard.cellScale⟩
      (Matching.participants m.segments Settings.standard.matching) ∧
    (∀ a ∈ Matching.participants m.segments Settings.standard.matching,
      Even (Matching.atPoint m.segments Settings.standard.matching a).length) ∧
    (∀ j ∈ m.junctions.all, ∀ e ∈ m.junctions.members j, ∀ a ∈ m.junctions.members j,
      (Tracer.ofMatching m .standard).score (m.segments.vectorTo e).unit a ≤
        (Tracer.ofMatching m .standard).score (m.segments.vectorTo e).unit a) ∧
    (curves m .standard).1.map Curve.closed = #[false] ∧
    (curves m .standard).2.toList.filterMap exhaustedAt? = [.ofIndex 2, .ofIndex 1] := by
  refine ⟨_, _, Matching.build_eq_ok rfl (by decide), ?_⟩
  decide +kernel

end Trace

end DoubleCurve
