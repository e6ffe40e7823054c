import DoubleCurve.Proofs.Trace.Following
import Mathlib.Data.List.Pairwise
import Mathlib.Data.List.Rotate

/-!
# Whole chains

A chain is whole (`Links.Whole`) if it goes all around a cycle, or from one free
end of a path to the other. Nothing is linked to a whole chain from outside
(`Whole.segment_mem`), so that two of them that share a segment have the same
segments. They are the same chain then, up to the direction in which it is read
and, around a cycle, the segment with which it begins (`Whole.eq_or_isRotated`).
-/

namespace DoubleCurve.Links

open Trace (backward)

variable {l l' : Links} {closed closed' : Bool} {es es' A B : List Endpoint} {a b x : Endpoint}
  {n : Nat}

/-- Whether a chain goes all around a cycle, or from one free end of a path to the other. -/
structure Whole (l : Links) (closed : Bool) (es : List Endpoint) : Prop where
  nodup : (es.map Endpoint.segment).Nodup
  follows : es.IsChain l.Follows
  ne_nil : es ≠ []
  around : closed = true → ∀ x ∈ es.head?, ∀ y ∈ es.getLast?, l.Follows y x
  ended : closed = false → ∀ x ∈ es.head?, ∀ y ∈ es.getLast?,
    (l.get x).endpoint? = none ∧ (l.get y.twin).endpoint? = none

theorem Whole.congr (h : l.Whole closed es)
    (hl : ∀ a : Endpoint, a.segment ∈ es.map Endpoint.segment → l'.get a = l.get a) :
    l'.Whole closed es := by
  have hmem {a : Endpoint} (ha : a ∈ es) : l'.get a = l.get a ∧ l'.get a.twin = l.get a.twin := by
    have hseg := List.mem_map_of_mem (f := Endpoint.segment) ha
    exact ⟨hl a hseg, hl a.twin (by rwa [Endpoint.segment_twin])⟩
  have hkept {x y : Endpoint} (hx : x ∈ es) (hy : y ∈ es) (hxy : l.Follows x y) :
      l'.Follows x y := by
    rw [Follows, (hmem hx).2, (hmem hy).1]
    exact hxy
  refine ⟨h.nodup, ?_, h.ne_nil, fun hc x hx y hy => ?_, fun hc x hx y hy => ?_⟩
  · exact List.IsChain.imp_of_mem_imp (fun x y hx hy hxy => hkept hx hy hxy) h.follows
  · have hyx := h.around hc x hx y hy
    exact hkept (List.mem_of_getLast? hy) (List.mem_of_mem_head? hx) hyx
  · rw [(hmem (List.mem_of_mem_head? hx)).1, (hmem (List.mem_of_getLast? hy)).2]
    exact h.ended hc x hx y hy

theorem Whole.backward (h : l.Whole closed es) : l.Whole closed (backward es) := by
  have hhead {x : Endpoint} (hx : x ∈ (Trace.backward es).head?) : x.twin ∈ es.getLast? := by
    rw [Trace.head?_backward] at hx
    obtain ⟨y, hy, rfl⟩ := Option.map_eq_some_iff.1 hx
    rwa [Endpoint.twin_twin]
  have hlast {y : Endpoint} (hy : y ∈ (Trace.backward es).getLast?) : y.twin ∈ es.head? := by
    rw [Trace.getLast?_backward] at hy
    obtain ⟨x, hx, rfl⟩ := Option.map_eq_some_iff.1 hy
    rwa [Endpoint.twin_twin]
  refine ⟨?_, Trace.isChain_backward h.follows, fun hnil => ?_, fun hc x hx y hy => ?_,
    fun hc x hx y hy => ?_⟩
  · rw [Trace.map_segment_backward, List.nodup_reverse]
    exact h.nodup
  · have hlen := congrArg List.length hnil
    rw [Trace.length_backward, List.length_nil, List.length_eq_zero_iff] at hlen
    exact h.ne_nil hlen
  · have hfollows := (h.around hc _ (hlast hy) _ (hhead hx)).backward
    rwa [Endpoint.twin_twin, Endpoint.twin_twin] at hfollows
  · obtain ⟨hy', hx'⟩ := h.ended hc _ (hlast hy) _ (hhead hx)
    rw [Endpoint.twin_twin] at hx'
    exact ⟨hx', hy'⟩

/-- What an endpoint is linked to at which a whole chain enters a segment. -/
theorem Whole.get_of_mem (h : l.Whole closed es) (ha : a ∈ es) :
    (∃ d ∈ es, l.get a = .endpoint d.twin) ∨
      closed = false ∧ a ∈ es.head? ∧ (l.get a).endpoint? = none := by
  obtain ⟨A, B, rfl⟩ := List.append_of_mem ha
  rcases A.eq_nil_or_concat with rfl | ⟨A, d, rfl⟩
  · obtain ⟨y, hy⟩ : ∃ y, (a :: B).getLast? = some y :=
      ⟨_, List.getLast?_eq_some_getLast (List.cons_ne_nil a B)⟩
    cases closed with
    | false => exact .inr ⟨rfl, rfl, (h.ended rfl a rfl y hy).1⟩
    | true => exact .inl ⟨y, List.mem_of_getLast? hy, (h.around rfl a rfl y hy).2⟩
  · have hchain := h.follows
    rw [List.concat_append] at hchain
    refine .inl ⟨d, ?_, (List.isChain_cons_cons.1 hchain.right_of_append).1.2⟩
    simp

/-- What is linked to a segment of a whole chain belongs to it. -/
theorem Whole.segment_mem (h : l.Whole closed es) (ha : a.segment ∈ es.map Endpoint.segment)
    (hab : l.get a = .endpoint b) : b.segment ∈ es.map Endpoint.segment := by
  have hentered {es : List Endpoint} (h : l.Whole closed es) (ha : a ∈ es) :
      b.segment ∈ es.map Endpoint.segment := by
    rcases h.get_of_mem ha with ⟨d, hd, had⟩ | ⟨-, -, hnone⟩
    · rw [hab] at had
      rw [Link.endpoint.inj had, Endpoint.segment_twin]
      exact List.mem_map_of_mem hd
    · rw [hab] at hnone
      cases hnone
  obtain ⟨c, hc, hca⟩ := List.mem_map.1 ha
  rcases Endpoint.segment_eq_iff.1 hca with rfl | rfl
  · exact hentered h hc
  · have := hentered h.backward (Trace.mem_backward.2 hc)
    rwa [Trace.map_segment_backward, List.mem_reverse] at this

/-- What is the same for consecutive entries of a chain is the same for all of them. -/
theorem iff_of_isChain {R : Endpoint → Endpoint → Prop} {P : Endpoint → Prop}
    (hR : ∀ {x y : Endpoint}, R x y → (P x ↔ P y)) (hc : (x :: es).IsChain R) (ha : a ∈ x :: es) :
    P x ↔ P a := by
  induction es generalizing x with
  | nil => rw [List.mem_singleton.1 ha]
  | cons y es ih =>
    obtain ⟨hxy, hc⟩ := List.isChain_cons_cons.1 hc
    rcases List.mem_cons.1 ha with rfl | ha
    · exact Iff.rfl
    · exact (hR hxy).trans (ih hc ha)

/-- A chain that meets a whole one is part of it. -/
theorem Whole.subset (h : l.Whole closed es) (hc : es'.IsChain l.Follows)
    (hn : n ∈ es.map Endpoint.segment) (hn' : n ∈ es'.map Endpoint.segment) :
    es'.map Endpoint.segment ⊆ es.map Endpoint.segment := by
  have hfollows {x y : Endpoint} (hxy : l.Follows x y) :
      x.segment ∈ es.map Endpoint.segment ↔ y.segment ∈ es.map Endpoint.segment := by
    constructor
    · intro hx
      rw [← x.segment_twin] at hx
      exact h.segment_mem hx hxy.1
    · intro hy
      rw [← x.segment_twin]
      exact h.segment_mem hy hxy.2
  obtain ⟨a, ha, rfl⟩ := List.mem_map.1 hn'
  intro k hk
  obtain ⟨b, hb, rfl⟩ := List.mem_map.1 hk
  cases es' with
  | nil => cases ha
  | cons x es' =>
    have hall {c : Endpoint} (hmem : c ∈ x :: es') :=
      iff_of_isChain (P := fun c => c.segment ∈ es.map Endpoint.segment) hfollows hc hmem
    exact (hall hb).1 ((hall ha).2 hn)

/-- Whole chains that share a segment have the same segments. -/
theorem Whole.perm (h : l.Whole closed es) (h' : l.Whole closed' es')
    (hn : n ∈ es.map Endpoint.segment) (hn' : n ∈ es'.map Endpoint.segment) :
    (es'.map Endpoint.segment).Perm (es.map Endpoint.segment) := by
  rw [List.perm_ext_iff_of_nodup h'.nodup h.nodup]
  exact fun k => ⟨fun hk => h.subset h'.follows hn hn' hk, fun hk => h'.subset h.follows hn' hn hk⟩

theorem eq_of_isChain (h : (x :: A).IsChain l.Follows) (h' : (x :: B).IsChain l.Follows)
    (hlen : A.length = B.length) : A = B := by
  have heq := Trace.chain_eq_of_length h
  rw [hlen, Trace.chain_eq_of_length h'] at heq
  exact (List.cons.inj heq).2.symm

/-- A chain around a cycle can begin with any of its segments. -/
theorem Whole.rotate (h : l.Whole true (A ++ x :: B)) : (x :: B ++ A).IsChain l.Follows := by
  refine List.isChain_append.2 ⟨h.follows.right_of_append, h.follows.left_of_append, ?_⟩
  intro y hy z hz
  refine h.around rfl z ?_ y ?_
  · rw [List.head?_append, hz]
    rfl
  · rw [List.getLast?_append, hy]
    rfl

/-- Two whole chains are the same, up to where they begin, if one begins where the other enters a
segment. -/
theorem Whole.isRotated_of_mem (h : l.Whole closed es) (h' : l.Whole closed' es')
    (hx : x ∈ es.head?) (hmem : x ∈ es') :
    closed' = closed ∧ es' ~r es ∧ (closed = false → es' = es) := by
  obtain ⟨C, rfl⟩ := List.head?_eq_some_iff.1 hx
  have hperm := h.perm h' List.mem_cons_self (List.mem_map_of_mem hmem)
  have hlen := hperm.length_eq
  rw [List.length_map, List.length_map] at hlen
  obtain ⟨y, hy⟩ : ∃ y, (x :: C).getLast? = some y :=
    ⟨_, List.getLast?_eq_some_getLast (List.cons_ne_nil x C)⟩
  cases closed with
  | true =>
    -- all endpoints on a cycle are linked, so that the other chain has no free end
    have hclosed : closed' = true := by
      by_contra hc
      rw [Bool.not_eq_true] at hc
      obtain ⟨z, hz⟩ : ∃ z, es'.head? = some z := ⟨_, List.head?_eq_some_head h'.ne_nil⟩
      obtain ⟨w, hw⟩ : ∃ w, es'.getLast? = some w := ⟨_, List.getLast?_eq_some_getLast h'.ne_nil⟩
      have hfree := (h'.ended hc z hz w hw).1
      have hmem := hperm.mem_iff.1 (List.mem_map_of_mem (List.mem_of_mem_head? hz))
      have hcycle : l.IsCycle {n | n ∈ (x :: C).map Endpoint.segment} (x :: C).length :=
        ⟨x :: C, ⟨h.nodup, Iff.rfl, h.follows⟩, rfl, x, rfl, y, hy, h.around rfl x rfl y hy⟩
      obtain ⟨b, hb⟩ := hcycle.linked hmem
      rw [hb] at hfree
      cases hfree
    subst hclosed
    obtain ⟨A, B, rfl⟩ := List.append_of_mem hmem
    have htail : B ++ A = C := by
      refine eq_of_isChain h'.rotate h.follows ?_
      rw [List.length_append, List.length_cons, List.length_cons] at hlen
      rw [List.length_append]
      omega
    refine ⟨rfl, ?_, fun hf => by cases hf⟩
    rw [← htail, ← List.cons_append]
    exact List.isRotated_append
  | false =>
    have hfree := (h.ended rfl x rfl y hy).1
    rcases h'.get_of_mem hmem with ⟨d, -, hd⟩ | ⟨rfl, hx', -⟩
    · rw [hd] at hfree
      cases hfree
    · obtain ⟨B, rfl⟩ := List.head?_eq_some_iff.1 hx'
      rw [List.length_cons, List.length_cons] at hlen
      rw [eq_of_isChain h'.follows h.follows (by omega)]
      exact ⟨rfl, .refl _, fun _ => rfl⟩

/-- Two whole chains that share a segment are the same, up to the direction and up to where they
begin. -/
theorem Whole.eq_or_isRotated (h : l.Whole closed es) (h' : l.Whole closed' es')
    (hn : n ∈ es.map Endpoint.segment) (hn' : n ∈ es'.map Endpoint.segment) :
    closed' = closed ∧ ∃ way, (way = es ∨ way = Trace.backward es) ∧ es' ~r way ∧
      (closed = false → es' = way) := by
  obtain ⟨x, hx⟩ : ∃ x, es.head? = some x := ⟨_, List.head?_eq_some_head h.ne_nil⟩
  have hmem := (h.perm h' hn hn').mem_iff.2 (List.mem_map_of_mem (List.mem_of_mem_head? hx))
  obtain ⟨z, hz, hzx⟩ := List.mem_map.1 hmem
  rcases Endpoint.segment_eq_iff.1 hzx with rfl | rfl
  · obtain ⟨hc, hr, heq⟩ := h.isRotated_of_mem h' hx hz
    exact ⟨hc, es, .inl rfl, hr, heq⟩
  · -- the other chain leaves by the endpoint at which this one begins
    have hback : x ∈ Trace.backward es' := Trace.mem_backward.2 hz
    obtain ⟨hc, hr, heq⟩ := h.isRotated_of_mem h'.backward hx hback
    refine ⟨hc, Trace.backward es, .inr rfl, ?_, fun hf => ?_⟩
    · rw [← Trace.backward_backward es', Trace.backward, Trace.backward]
      exact hr.reverse.map Endpoint.twin
    · rw [← heq hf, Trace.backward_backward]

end DoubleCurve.Links
