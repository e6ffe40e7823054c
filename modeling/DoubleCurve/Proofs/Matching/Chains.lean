import DoubleCurve.Proofs.LawfulScalar
import DoubleCurve.Proofs.Matching.Stages
import Mathlib.Combinatorics.SimpleGraph.Connectivity.Subgraph

/-!
# Nothing is tied without a chain of matches

A search passes slots of endpoints that lie anywhere, and what stands for a slot need
not be the endpoint that was entered there. Still, whatever is tied together is
connected by matches: `Matcher.graph` is the graph of endpoints that match, and
`Matcher.Chained` says that a pair is an edge of it and that the members of a junction
are connected through each other.

`Matcher.Chained.joins` is the step, and `Matching.chained_of_build` the run. The
members of a junction need not match one another (`chained_of_build_row`).
-/

namespace DoubleCurve

theorem Bonds.Joins.ne {b b' : Bonds} {e x : Endpoint} {count i : Nat} {seen : List Endpoint}
    (hj : b.Joins e i x b') (hw : b.Waits count seen e) : e ≠ x := by
  cases hj with
  | pair hs hxe hx => exact hxe.symm
  | @enroll j hs hm =>
    rintro rfl
    exact hw.sound.tied.not_member hw.free j hm
  | found hs hx => exact (hw.sound.tied.ne_of_pair hw.free hx).1

namespace Matcher

variable {α : Type} [Scalar α] {m : Matcher α} {b b' : Bonds} {e x y : Endpoint}
  {es seen : List Endpoint} {count i : Nat}

/-- The endpoints, with an edge between two that match either way around. -/
def graph (m : Matcher α) : SimpleGraph Endpoint where
  Adj x y := x ≠ y ∧ m.matching x y = true ∧ m.matching y x = true
  symm := ⟨fun _ _ h => ⟨h.1.symm, h.2.2, h.2.1⟩⟩
  loopless := ⟨fun _ h => h.1 rfl⟩

/-- Whether these endpoints are connected through each other by matches. -/
def Connected (m : Matcher α) (es : List Endpoint) : Prop := (m.graph.induce {x | x ∈ es}).Connected

/-- An endpoint that matches a connected one is connected with all of them. -/
theorem Connected.concat (h : m.Connected es) (hx : x ∈ es) (hex : m.graph.Adj e x) :
    m.Connected (es ++ [e]) := by
  have hself : (m.graph.induce {e}).Preconnected := .of_subsingleton
  have hunion := SimpleGraph.connected_induce_union h.preconnected hself hx rfl hex.symm
  have hset : {y | y ∈ es ++ [e]} = {y | y ∈ es} ∪ {e} := by
    ext y
    show y ∈ es ++ [e] ↔ y ∈ es ∨ y = e
    rw [List.mem_append, List.mem_singleton]
  rw [Connected, hset]
  exact hunion

/-- An endpoint that matches one of a pair is connected with both. -/
theorem connected_cons_pair (hex : m.graph.Adj e x) (hxy : m.graph.Adj x y) :
    m.Connected [e, x, y] := by
  have hself : (m.graph.induce {e}).Preconnected := .of_subsingleton
  have hpair := (SimpleGraph.induce_pair_connected_of_adj hxy).preconnected
  have hunion := SimpleGraph.connected_induce_union hself hpair rfl (Set.mem_insert x {y}) hex
  have hset : {z | z ∈ [e, x, y]} = {e} ∪ {x, y} := by
    ext z
    show z ∈ [e, x, y] ↔ z = e ∨ z = x ∨ z = y
    rw [List.mem_cons, List.mem_pair]
  rw [Connected, hset]
  exact hunion

/-- Whether pairs match, and the members of a junction are connected through each other. -/
structure Chained (m : Matcher α) (l : Links) (js : Junctions) : Prop where
  pair {x y : Endpoint} : l.get x = .endpoint y → m.graph.Adj x y
  members {j : Junction} : j.index < js.size → m.Connected (js.members j)

namespace Chained

theorem reachable (h : m.Chained b.links b.junctions) (hxy : b.Together x y) :
    m.graph.Reachable x y := by
  rcases hxy with hxy | ⟨j, hx, hy⟩
  · exact (h.pair hxy).reachable
  · have hj := Junctions.index_lt_of_members_ne (List.ne_nil_of_mem hx)
    obtain ⟨walk⟩ := (h.members hj).preconnected ⟨x, hx⟩ ⟨y, hy⟩
    exact ⟨walk.map (SimpleGraph.Embedding.induce _).toHom⟩

theorem initial (m : Matcher α) (n : Nat) : m.Chained (.unpaired n) .empty where
  pair h := by simp at h
  members h := by simp at h

/-- What is tied to a match of its own is connected with all that is tied together with it. -/
theorem joins (h : m.Chained b.links b.junctions) (hj : b.Joins e i x b')
    (hw : b.Waits count seen e) (hex : m.graph.Adj e x) : m.Chained b'.links b'.junctions := by
  have hse := hw.sound.index_lt hw.range hw.mem
  cases hj with
  | pair hs hxe hx =>
    have hget := Links.get_pair hse (hw.sound.index_lt hw.range (hw.sound.held hs))
    refine ⟨fun {y z} hyz => ?_, h.members⟩
    rw [hget] at hyz
    split at hyz
    · rename_i hy
      rw [hy, ← Link.endpoint.inj hyz]
      exact hex.symm
    · split at hyz
      · rename_i hy
        rw [hy, ← Link.endpoint.inj hyz]
        exact hex
      · exact h.pair hyz
  | @enroll j hs hm =>
    refine ⟨fun {y z} hyz => ?_, fun {k} hk => ?_⟩
    · rw [Links.get_set hse] at hyz
      split at hyz
      · cases hyz
      · exact h.pair hyz
    · rw [Junctions.size_add] at hk
      rw [Junctions.members_add_new (List.ne_nil_of_mem hm) (hw.sound.tied.not_member hw.free j)]
      split
      · rename_i hkj
        subst hkj
        exact (h.members hk).concat hm hex
      · exact h.members hk
  | @found p hs hx =>
    obtain ⟨hne, hep, hxp⟩ := hw.sound.tied.ne_of_pair hw.free hx
    have hsize := hw.sound.size_junctions_lt hw.length_lt
    refine ⟨fun {y z} hyz => ?_, fun {k} hk => ?_⟩
    · rw [hw.sound.tied.get_found hse hx] at hyz
      split at hyz
      · cases hyz
      · exact h.pair hyz
    · by_cases hnew : b.junctions.allocate.1 = k
      · subst hnew
        rw [Junctions.members_allocate_add hsize hne hep hxp]
        exact connected_cons_pair hex (h.pair hx)
      · rw [Junctions.members_allocate_add_of_ne hnew]
        rw [Junctions.size_add, Junctions.size_allocate] at hk
        have hindex : b.junctions.allocate.1.index = b.junctions.size := Junction.index_ofIndex hsize
        have hne : b.junctions.allocate.1.index ≠ k.index := fun hi => hnew (Junction.ext hi)
        exact h.members (by omega)

end Chained

/-- Every step of the two passes ties an endpoint to a match of its own, if matching does not depend
on the order. -/
theorem preserves_chained (hsymm : ∀ x ∈ es, ∀ y ∈ es, m.matching x y = true → m.matching y x = true) :
    m.Preserves count b es fun _ b => m.Chained b.links b.junctions := by
  have hstep {seen : List Endpoint} {e x : Endpoint} {i : Nat} {b b' : Bonds} (hs : seen ⊆ es)
      (ht : m.Ties count seen b e i x b') (h : m.Chained b.links b.junctions) :
      m.Chained b'.links b'.junctions := by
    have he := hs ht.waits.mem
    have hx := hs (ht.waits.sound.mem_of_exemplar ht.exemplar)
    exact h.joins ht.joins ht.waits ⟨ht.joins.ne ht.waits, ht.matching, hsymm e he x hx ht.matching⟩
  exact {
    occupy := fun _ _ _ _ h => h
    join := fun hs _ _ ht h => hstep hs.subset ht h
    sweep := fun ht h => hstep (List.Subset.refl es) ht h }

end Matcher

namespace Matching

variable {α : Type} [Scalar α]

/-- If matching does not depend on the order, then after every single step on the way and in the
matching that is built, endpoints that are linked to each other match and the members of a junction
are connected by matches; nothing is tied together without a chain of matches. -/
theorem chained_of_build (points : Array (Vec3 α)) (settings : Settings α)
    (hv : settings.validate = .ok ())
    (hs : Segments.evenPart points.size * settings.symmetry ≤ Segments.greatestSize)
    (hsymm : ∀ p q : Vec3 α, p.near settings.matching q = true → q.near settings.matching p = true) :
    ∃ m found, build points settings = .ok (m, found) ∧
      Matcher.Chained ⟨m.segments, settings.matching, settings.cellScale⟩ m.links m.junctions ∧
      ∀ b, Matcher.Stage ⟨m.segments, settings.matching, settings.cellScale⟩
          (.empty m.segments.size settings.slotsPerEndpoint)
          (participants m.segments settings.matching) b →
        Matcher.Chained ⟨m.segments, settings.matching, settings.cellScale⟩ b.links b.junctions ∧
        ∀ x y, b.Together x y →
          (Matcher.graph ⟨m.segments, settings.matching, settings.cellScale⟩).Reachable x y := by
  have hsize := Segments.size_replicate_lt points (Settings.symmetry_pos hv) hs
  refine ⟨_, _, build_eq_ok hv hs, ?_⟩
  generalize Segments.replicate points settings.symmetry = s at hsize
  have hes := listed_participants hsize settings.matching
  have hkept : Matcher.Preserves ⟨s, settings.matching, settings.cellScale⟩ s.size
      (.empty s.size settings.slotsPerEndpoint) (participants s settings.matching)
      fun _ b => Matcher.Chained ⟨s, settings.matching, settings.cellScale⟩ b.links b.junctions :=
    Matcher.preserves_chained fun x _ y _ => hsymm (s.point x) (s.point y)
  have h0 := Bonds.Sound.initial s.size settings.slotsPerEndpoint
  refine ⟨hkept.finished hes h0 (.initial _ s.size) (List.Subset.refl _), fun b hb => ?_⟩
  obtain ⟨-, -, hb⟩ := hkept.stage hes h0 (.initial _ s.size) hb
  exact ⟨hb, fun x y hxy => hb.reachable hxy⟩

/-- Segments whose ends lie in a row of which only neighbours match, the middle one first. -/
def row : Array (Vec3 Float) :=
  #[⟨0.000015, 0, 0⟩, ⟨1, 0, 0⟩, ⟨0, 0, 0⟩, ⟨0, 1, 0⟩, ⟨0.00003, 0, 0⟩, ⟨0, -1, 0⟩]

/-- The ends in a row become a junction, and the first of them is connected with the last by the
one between them only. -/
theorem chained_of_build_row :
    ∃ m found, build row .standard = .ok (m, found) ∧
      m.junctions.buckets = #[[4, 0, 2].map Endpoint.ofIndex] ∧
      Matcher.matching ⟨m.segments, Settings.standard.matching, Settings.standard.cellScale⟩
        (.ofIndex 2) (.ofIndex 4) = false ∧
      Matcher.Chained ⟨m.segments, Settings.standard.matching, Settings.standard.cellScale⟩
        m.links m.junctions := by
  obtain ⟨m, found, hbuild, hchained, -⟩ := chained_of_build row .standard rfl (by decide)
    fun p q hpq => Vec3.near_comm _ p q ▸ hpq
  refine ⟨m, found, hbuild, ?_, ?_, hchained⟩
  · obtain ⟨-, -, rfl⟩ := of_build_eq_ok hbuild
    decide +kernel
  · obtain ⟨-, -, rfl⟩ := of_build_eq_ok hbuild
    decide +kernel

end Matching

end DoubleCurve
