import DoubleCurve.Trace.Curves
import Mathlib.Data.List.Chain

/-!
# Chains of endpoints

A chain lists segments one after another, each by the endpoint at which it is
entered. One endpoint follows another (`Links.Follows`) if it is linked to the
twin of the other, in both directions. A chain can be read backwards
(`backward`), and the vertices of a curve are collected along it:
`chain_eq_of_length`, `chain_eq_of_unlinked`.

The segments of a chain make a cycle if its first endpoint follows the last
(`Links.IsCycle`), and a path if both of its ends are linked to no endpoint
(`Links.IsPath`). No segments make both.
-/

namespace DoubleCurve

/-- Whether a chain that entered a segment at `x` enters the next one at `y`. -/
def Links.Follows (l : Links) (x y : Endpoint) : Prop :=
  l.get x.twin = .endpoint y ∧ l.get y = .endpoint x.twin

theorem Links.Follows.backward {l : Links} {x y : Endpoint} (h : l.Follows x y) :
    l.Follows y.twin x.twin := by
  refine ⟨?_, ?_⟩
  · rw [Endpoint.twin_twin]
    exact h.2
  · rw [Endpoint.twin_twin]
    exact h.1

namespace Trace

variable {l : Links} {x : Endpoint} {es : List Endpoint}

/-- The endpoints at which a chain enters its segments when it is read backwards. -/
def backward (es : List Endpoint) : List Endpoint := es.reverse.map Endpoint.twin

@[simp] theorem backward_backward (es : List Endpoint) : backward (backward es) = es := by
  rw [backward, backward, ← List.map_reverse, List.reverse_reverse, List.map_map]
  exact (List.map_congr_left fun e _ => e.twin_twin).trans (List.map_id es)

theorem backward_concat (es : List Endpoint) (x : Endpoint) :
    backward (es ++ [x]) = x.twin :: backward es := by
  rw [backward, List.reverse_append, List.reverse_singleton, List.singleton_append, List.map_cons,
    backward]

@[simp] theorem length_backward (es : List Endpoint) : (backward es).length = es.length := by
  rw [backward, List.length_map, List.length_reverse]

theorem mem_backward : x ∈ backward es ↔ x.twin ∈ es := by
  rw [backward, List.mem_map]
  constructor
  · rintro ⟨e, he, rfl⟩
    rwa [Endpoint.twin_twin, ← List.mem_reverse]
  · intro h
    exact ⟨x.twin, List.mem_reverse.2 h, x.twin_twin⟩

theorem map_segment_backward (es : List Endpoint) :
    (backward es).map Endpoint.segment = (es.map Endpoint.segment).reverse := by
  rw [backward, List.map_map, List.map_reverse]
  exact congrArg List.reverse (List.map_congr_left fun e _ => e.segment_twin)

theorem head?_backward (es : List Endpoint) :
    (backward es).head? = es.getLast?.map Endpoint.twin := by
  rw [backward, List.head?_map, List.head?_reverse]

theorem getLast?_backward (es : List Endpoint) :
    (backward es).getLast? = es.head?.map Endpoint.twin := by
  rw [backward, List.getLast?_map, List.getLast?_reverse]

theorem isChain_backward (h : es.IsChain l.Follows) : (backward es).IsChain l.Follows := by
  rw [backward, List.isChain_map, List.isChain_reverse]
  exact h.imp fun _ _ => Links.Follows.backward

/-- As many segments as a chain has are collected along it. -/
theorem chain_eq_of_length (h : (x :: es).IsChain l.Follows) :
    chain l x (es.length + 1) = x :: es := by
  induction es generalizing x with
  | nil =>
    show x :: _ = _
    cases (l.get x.twin).endpoint? <;> rfl
  | cons y es ih =>
    obtain ⟨hxy, h⟩ := List.isChain_cons_cons.1 h
    rw [List.length_cons, chain, hxy.1]
    exact congrArg (x :: ·) (ih h)

/-- Where the last segment is left to nothing, no more are collected. -/
theorem chain_eq_of_unlinked {n : Nat} (h : (x :: es).IsChain l.Follows) (hn : es.length < n)
    (hlast : ∀ y ∈ (x :: es).getLast?, (l.get y.twin).endpoint? = none) :
    chain l x n = x :: es := by
  induction es generalizing x n with
  | nil =>
    obtain ⟨n, rfl⟩ := Nat.exists_eq_succ_of_ne_zero (Nat.ne_zero_of_lt hn)
    rw [Nat.succ_eq_add_one, chain, hlast x rfl]
  | cons y es ih =>
    obtain ⟨n, rfl⟩ := Nat.exists_eq_succ_of_ne_zero (Nat.ne_zero_of_lt hn)
    obtain ⟨hxy, h⟩ := List.isChain_cons_cons.1 h
    rw [Nat.succ_eq_add_one, chain, hxy.1]
    refine congrArg (x :: ·) (ih h ?_ ?_)
    · rw [List.length_cons] at hn
      omega
    · rwa [List.getLast?_cons_cons] at hlast

end Trace

namespace Links

variable {l l' : Links} {segments : Set Nat} {es es' : List Endpoint} {e x y : Endpoint} {n : Nat}

/-- Whether a chain has each of these segments once. -/
structure Lists (l : Links) (segments : Set Nat) (es : List Endpoint) : Prop where
  nodup : (es.map Endpoint.segment).Nodup
  mem_iff {n : Nat} : n ∈ es.map Endpoint.segment ↔ n ∈ segments
  follows : es.IsChain l.Follows

/-- Whether these `n` segments make a cycle. -/
def IsCycle (l : Links) (segments : Set Nat) (n : Nat) : Prop :=
  ∃ es, l.Lists segments es ∧ es.length = n ∧
    ∃ x ∈ es.head?, ∃ y ∈ es.getLast?, l.Follows y x

/-- Whether these segments make a path. -/
def IsPath (l : Links) (segments : Set Nat) : Prop :=
  ∃ es, l.Lists segments es ∧ ∃ x ∈ es.head?, ∃ y ∈ es.getLast?,
    (l.get x).endpoint? = none ∧ (l.get y.twin).endpoint? = none

theorem Lists.length_eq (h : l.Lists segments es) (h' : l'.Lists segments es') :
    es.length = es'.length := by
  have hperm : (es.map Endpoint.segment).Perm (es'.map Endpoint.segment) := by
    rw [List.perm_ext_iff_of_nodup h.nodup h'.nodup]
    intro n
    rw [h.mem_iff, h'.mem_iff]
  have := hperm.length_eq
  rwa [List.length_map, List.length_map] at this

theorem IsCycle.unique (h : l.IsCycle segments n) (hes : l.Lists segments es) : es.length = n := by
  obtain ⟨es', hes', rfl, -⟩ := h
  exact hes.length_eq hes'

/-- On a chain whose first endpoint follows the last, every endpoint is linked. -/
theorem linked_of_isChain (h : es.IsChain l.Follows) (hx : x ∈ es.head?) (hy : y ∈ es.getLast?)
    (hyx : l.Follows y x) (he : e ∈ es) :
    (∃ b, l.get e = .endpoint b) ∧ ∃ b, l.get e.twin = .endpoint b := by
  obtain ⟨s, t, rfl⟩ := List.append_of_mem he
  constructor
  · rcases s.eq_nil_or_concat with rfl | ⟨s, d, rfl⟩
    · cases hx
      exact ⟨_, hyx.2⟩
    · rw [List.concat_append] at h
      exact ⟨_, (List.isChain_cons_cons.1 h.right_of_append).1.2⟩
  · cases t with
    | nil =>
      rw [List.getLast?_concat] at hy
      cases hy
      exact ⟨_, hyx.1⟩
    | cons f t => exact ⟨_, (List.isChain_cons_cons.1 h.right_of_append).1.1⟩

theorem IsCycle.linked (h : l.IsCycle segments n) (he : e.segment ∈ segments) :
    ∃ b, l.get e = .endpoint b := by
  obtain ⟨es, hes, -, x, hx, y, hy, hyx⟩ := h
  obtain ⟨a, ha, hea⟩ := List.mem_map.1 (hes.mem_iff.2 he)
  obtain ⟨hl, hlt⟩ := linked_of_isChain hes.follows hx hy hyx ha
  rcases Endpoint.segment_eq_iff.1 hea with rfl | rfl
  · exact hl
  · rwa [Endpoint.twin_twin] at hlt

theorem IsPath.not_isCycle (h : l.IsPath segments) : ¬ l.IsCycle segments n := by
  obtain ⟨es, hes, x, hx, -, -, hfree, -⟩ := h
  intro hc
  obtain ⟨b, hb⟩ := hc.linked (hes.mem_iff.1 (List.mem_map_of_mem (List.mem_of_mem_head? hx)))
  rw [hb] at hfree
  cases hfree

end Links

end DoubleCurve
