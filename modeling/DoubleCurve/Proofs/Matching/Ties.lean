import DoubleCurve.Matching
import Mathlib.Algebra.BigOperators.Group.List.Basic
import Mathlib.Data.List.Nodup

/-!
# Links and junctions in agreement

Links and junctions say the same thing twice: an endpoint is linked to a
junction if and only if it is a member of it. `Tied` states this, with all that
matching never does: no endpoint is linked to itself or outside the list of
those that take part, none is a member twice, and no junction has fewer than
three members.

A free endpoint is tied in one of three ways, and each keeps the agreement:

* `Tied.pair`: to an endpoint that is free as well;
* `Tied.enroll`: to a junction, as its last member;
* `Tied.found`: to a pair, which becomes a new junction with it.

`Tied.size_le` bounds the number of junctions, so that the next one has an index
of its own, and `Tied.isConsistent` reads `Matching.IsConsistent` off.
-/

namespace DoubleCurve

/-- Links and junctions agree, and nothing outside `part` is tied. -/
structure Tied (part : List Endpoint) (l : Links) (js : Junctions) : Prop where
  returned {a b : Endpoint} : l.get a = .endpoint b → l.get b = .endpoint a
  ne_self (a : Endpoint) : l.get a ≠ .endpoint a
  mem_of_linked {a : Endpoint} : l.get a ≠ .unpaired → a ∈ part
  mem_iff {a : Endpoint} {j : Junction} : a ∈ js.members j ↔ l.get a = .junction j
  nodup (j : Junction) : (js.members j).Nodup
  three_le {j : Junction} : j.index < js.size → 3 ≤ (js.members j).length

namespace Junctions

variable {js : Junctions} {i : Junction} {es : List Endpoint} {a b c : Endpoint}

theorem members_allocated (hsize : js.size < 0x100000000) : js.members js.allocate.1 = [] :=
  members_of_size_le (Nat.le_of_eq (Junction.index_ofIndex hsize).symm)

theorem members_allocate_add (hsize : js.size < 0x100000000) (hab : a ≠ b) (hac : a ≠ c)
    (hbc : b ≠ c) : (js.allocate.2.add js.allocate.1 [a, b, c]).members js.allocate.1 = [a, b, c] := by
  have hlt : js.allocate.1.index < js.allocate.2.size := by
    have : js.allocate.1.index = js.size := Junction.index_ofIndex hsize
    rw [size_allocate]
    omega
  rw [members_add_self hlt, members_allocate, members_allocated hsize]
  simp [addMember, hab.symm, hac.symm, hbc.symm]

theorem members_allocate_add_of_ne (hi : js.allocate.1 ≠ i) :
    (js.allocate.2.add js.allocate.1 es).members i = js.members i := by
  rw [members_add_of_ne hi, members_allocate]

/-- The members when a new one joins a junction that has some. -/
theorem members_add_new {e : Endpoint} {j : Junction} (hj : js.members j ≠ [])
    (he : e ∉ js.members j) (k : Junction) :
    (js.add j [e]).members k = if k = j then js.members j ++ [e] else js.members k := by
  split
  · rename_i hk
    rw [hk, members_add_self (index_lt_of_members_ne hj)]
    exact addMember_of_not_mem he
  · rename_i hk
    exact members_add_of_ne (Ne.symm hk)

end Junctions

namespace Tied

variable {part part' : List Endpoint} {l : Links} {js : Junctions} {a b e x p : Endpoint}
  {j : Junction}

theorem initial (part : List Endpoint) (n : Nat) : Tied part (.unpaired n) .empty where
  returned h := by simp at h
  ne_self a := by simp
  mem_of_linked h := by simp at h
  mem_iff := by simp
  nodup j := by simp
  three_le h := by simp at h

theorem mono (h : Tied part l js) (hp : part ⊆ part') : Tied part' l js :=
  { h with mem_of_linked := fun ha => hp (h.mem_of_linked ha) }

theorem mem_of_endpoint (h : Tied part l js) (ha : l.get a = .endpoint b) : b ∈ part :=
  h.mem_of_linked (by rw [h.returned ha]; simp)

theorem mem_of_member (h : Tied part l js) (ha : a ∈ js.members j) : a ∈ part :=
  h.mem_of_linked (by rw [h.mem_iff.1 ha]; simp)

theorem not_member (h : Tied part l js) (ha : l.get a = .unpaired) (j : Junction) :
    a ∉ js.members j := fun hmem => by
  rw [h.mem_iff, ha] at hmem
  cases hmem

/-! ## Tying a free endpoint -/

/-- Two free endpoints become a pair. -/
theorem pair (h : Tied part l js) (ha : a ∈ part) (hb : b ∈ part) (hab : a ≠ b)
    (sa : a.index < l.entries.size) (sb : b.index < l.entries.size)
    (fa : l.get a = .unpaired) (fb : l.get b = .unpaired) : Tied part (l.pair a b) js := by
  have hget := Links.get_pair sa sb
  refine ⟨fun {c d} hc => ?_, fun c hc => ?_, fun {c} hc => ?_, fun {c j} => ?_, h.nodup, h.three_le⟩
  · -- who is linked to `a` or `b` now was so neither before, since both were free
    have := @h.returned c d
    have := @h.returned d c
    grind
  · have := h.ne_self c
    grind
  · have := @h.mem_of_linked c
    grind
  · rw [h.mem_iff]
    grind

/-- A free endpoint joins a junction. -/
theorem enroll (h : Tied part l js) (he : e ∈ part) (se : e.index < l.entries.size)
    (fe : l.get e = .unpaired) (hj : js.members j ≠ []) :
    Tied part (l.set e (.junction j)) (js.add j [e]) := by
  have hget (c : Endpoint) : (l.set e (.junction j)).get c = if c = e then .junction j else l.get c :=
    Links.get_set se c
  have hlt := Junctions.index_lt_of_members_ne hj
  have hnot := h.not_member fe
  have hself : (js.add j [e]).members j = js.members j ++ [e] := by
    rw [Junctions.members_add_self hlt]
    exact Junctions.addMember_of_not_mem (hnot j)
  refine ⟨fun {c d} hc => ?_, fun c hc => ?_, fun {c} hc => ?_, fun {c i} => ?_, fun i => ?_,
    fun {i} hi => ?_⟩
  · have := @h.returned c d
    grind
  · have := h.ne_self c
    grind
  · have := @h.mem_of_linked c
    grind
  · by_cases hi : j = i
    · subst hi
      rw [hself, List.mem_append, List.mem_singleton, h.mem_iff, hget]
      grind
    · rw [Junctions.members_add_of_ne hi, h.mem_iff, hget]
      grind
  · by_cases hi : j = i
    · subst hi
      rw [hself]
      exact List.Nodup.append (h.nodup j) (List.nodup_singleton e)
        (List.disjoint_singleton.2 (hnot j))
    · rw [Junctions.members_add_of_ne hi]
      exact h.nodup i
  · rw [Junctions.size_add] at hi
    by_cases hji : j = i
    · subst hji
      have := h.three_le hi
      rw [hself, List.length_append]
      omega
    · rw [Junctions.members_add_of_ne hji]
      exact h.three_le hi

/-- A free endpoint and a pair are three endpoints. -/
theorem ne_of_pair (h : Tied part l js) (fe : l.get e = .unpaired) (hx : l.get x = .endpoint p) :
    e ≠ x ∧ e ≠ p ∧ x ≠ p := by
  have hp := h.returned hx
  refine ⟨fun hex => ?_, fun hep => ?_, fun hxp => h.ne_self p (by rw [← hxp, hx, hxp])⟩
  · rw [hex, hx] at fe
    cases fe
  · rw [hep, hp] at fe
    cases fe

theorem get_found (h : Tied part l js) (se : e.index < l.entries.size) (hx : l.get x = .endpoint p)
    (link : Link) (c : Endpoint) :
    (((l.set p link).set x link).set e link).get c =
      if c = e ∨ c = x ∨ c = p then link else l.get c := by
  have hp := h.returned hx
  have sx : x.index < l.entries.size := Links.index_lt_of_get_ne (by rw [hx]; simp)
  have sp : p.index < l.entries.size := Links.index_lt_of_get_ne (by rw [hp]; simp)
  rw [Links.get_set (by rwa [Links.size_set, Links.size_set]), Links.get_set (by rwa [Links.size_set]),
    Links.get_set sp]
  grind

/-- A free endpoint and a pair become a new junction. -/
theorem found (h : Tied part l js) (he : e ∈ part) (se : e.index < l.entries.size)
    (fe : l.get e = .unpaired) (hx : l.get x = .endpoint p) (hsize : js.size < 0x100000000) :
    Tied part
      (((l.set p (.junction js.allocate.1)).set x (.junction js.allocate.1)).set e
        (.junction js.allocate.1))
      (js.allocate.2.add js.allocate.1 [e, x, p]) := by
  have hp := h.returned hx
  obtain ⟨hex, hep, hxp⟩ := h.ne_of_pair fe hx
  have hj : js.allocate.1.index = js.size := Junction.index_ofIndex hsize
  have hnone := Junctions.members_allocated hsize
  have hself := Junctions.members_allocate_add hsize hex hep hxp
  have hother {i : Junction} (hi : js.allocate.1 ≠ i) :
      (js.allocate.2.add js.allocate.1 [e, x, p]).members i = js.members i :=
    Junctions.members_allocate_add_of_ne hi
  generalize hnew : js.allocate.1 = new at hj hnone hself hother ⊢
  have hget := h.get_found se hx (.junction new)
  -- nobody was linked to the new junction, since it had no members
  have hfresh (c : Endpoint) : l.get c ≠ .junction new := fun hc => by
    rw [← h.mem_iff, hnone] at hc
    cases hc
  refine ⟨fun {c d} hc => ?_, fun c hc => ?_, fun {c} hc => ?_, fun {c i} => ?_, fun i => ?_,
    fun {i} hi => ?_⟩
  · have := @h.returned c d
    grind
  · have := h.ne_self c
    grind
  · have := @h.mem_of_linked c
    have := @h.mem_of_linked x
    have := @h.mem_of_linked p
    grind
  · by_cases hi : new = i
    · subst hi
      have := hfresh c
      rw [hself, hget]
      grind
    · rw [hother hi, h.mem_iff, hget]
      grind
  · by_cases hi : new = i
    · subst hi
      rw [hself]
      simp [hex, hep, hxp]
    · rw [hother hi]
      exact h.nodup i
  · by_cases hni : new = i
    · subst hni
      rw [hself]
      exact Nat.le_refl 3
    · rw [hother hni]
      rw [Junctions.size_add, Junctions.size_allocate] at hi
      have : new.index ≠ i.index := fun hi => hni (Junction.ext hi)
      exact h.three_le (by omega)

/-! ## Counting members -/

theorem members_ofIndex {i : Nat} (hi : i < js.buckets.size) (hsize : js.size ≤ 0x100000000) :
    js.members (.ofIndex i) = js.buckets[i] := by
  have hlt : i < 0x100000000 := Nat.lt_of_lt_of_le hi hsize
  rw [Junctions.members, Junction.index_ofIndex hlt, Array.getD_eq_getD_getElem?,
    Array.getElem?_eq_getElem hi, Option.getD_some]

theorem mem_buckets {bucket : List Endpoint} (hb : bucket ∈ js.buckets.toList)
    (hsize : js.size ≤ 0x100000000) :
    ∃ i, i < js.size ∧ js.members (.ofIndex i) = bucket := by
  obtain ⟨i, hi, rfl⟩ := List.getElem_of_mem hb
  rw [Array.length_toList] at hi
  exact ⟨i, hi, members_ofIndex hi hsize⟩

theorem mem_flatten (hsize : js.size ≤ 0x100000000) :
    a ∈ js.buckets.toList.flatten ↔ ∃ j, a ∈ js.members j := by
  rw [List.mem_flatten]
  constructor
  · rintro ⟨bucket, hb, ha⟩
    obtain ⟨i, -, rfl⟩ := mem_buckets hb hsize
    exact ⟨_, ha⟩
  · rintro ⟨j, ha⟩
    have hj : j.index < js.buckets.size := Junctions.index_lt_of_members_ne (List.ne_nil_of_mem ha)
    refine ⟨js.buckets[j.index], by simp, ?_⟩
    rwa [Junctions.members, Array.getD_eq_getD_getElem?, Array.getElem?_eq_getElem hj] at ha

/-- No endpoint is in two places of the buckets. -/
theorem nodup_flatten (h : Tied part l js) (hsize : js.size ≤ 0x100000000) :
    js.buckets.toList.flatten.Nodup := by
  rw [List.nodup_flatten]
  refine ⟨fun bucket hb => ?_, ?_⟩
  · obtain ⟨i, -, rfl⟩ := mem_buckets hb hsize
    exact h.nodup _
  · rw [List.pairwise_iff_getElem]
    intro i k hi hk hik a ha hb
    rw [Array.length_toList] at hi hk
    rw [Array.getElem_toList, ← members_ofIndex hi hsize, h.mem_iff] at ha
    rw [Array.getElem_toList, ← members_ofIndex hk hsize, h.mem_iff, ha] at hb
    have := congrArg Junction.index (Link.junction.inj hb)
    rw [Junction.index_ofIndex (Nat.lt_of_lt_of_le hi hsize),
      Junction.index_ofIndex (Nat.lt_of_lt_of_le hk hsize)] at this
    omega

/-- There are no more junctions than endpoints that take part, since each has a member of its
own. -/
theorem size_le (h : Tied part l js) (hsize : js.size ≤ 0x100000000) : js.size ≤ part.length := by
  have hsub : js.buckets.toList.flatten ⊆ part := fun a ha => by
    obtain ⟨j, hj⟩ := (mem_flatten hsize).1 ha
    exact h.mem_of_member hj
  have hlen : (js.buckets.toList.map List.length).length ≤ js.buckets.toList.flatten.length := by
    rw [List.length_flatten]
    refine List.length_le_sum_of_one_le _ fun n hn => ?_
    obtain ⟨bucket, hb, rfl⟩ := List.mem_map.1 hn
    obtain ⟨i, hi, rfl⟩ := mem_buckets hb hsize
    have := h.three_le (j := .ofIndex i) (by rwa [Junction.index_ofIndex (by omega)])
    omega
  rw [List.length_map, Array.length_toList] at hlen
  exact Nat.le_trans hlen (List.subperm_of_subset (h.nodup_flatten hsize) hsub).length_le

end Tied

namespace Matching

variable {α : Type} {m : Matching α} {part : List Endpoint}

theorem mem_all (hsize : m.junctions.size ≤ 0x100000000) {j : Junction} :
    j ∈ m.junctions.all ↔ j.index < m.junctions.size := by
  rw [Junctions.all, List.mem_map]
  constructor
  · rintro ⟨i, hi, rfl⟩
    rw [List.mem_range] at hi
    rwa [Junction.index_ofIndex (by omega)]
  · intro hj
    exact ⟨j.index, List.mem_range.2 hj, Junction.ext (Junction.index_ofIndex j.index_lt)⟩

theorem isConsistent_of_tied (h : Tied part m.links m.junctions)
    (hsize : m.junctions.size ≤ 0x100000000)
    (hpart : ∀ e ∈ part, m.isExcluded e = false) : m.IsConsistent := by
  have hone {e : Endpoint} {j : Junction} (hj : m.links.get e = .junction j) :
      m.memberships e = 1 :=
    List.count_eq_one_of_mem (h.nodup_flatten hsize)
      ((Tied.mem_flatten hsize).2 ⟨j, h.mem_iff.2 hj⟩)
  have hzero {e : Endpoint} (hj : ∀ j, m.links.get e ≠ .junction j) : m.memberships e = 0 := by
    refine List.count_eq_zero.2 fun he => ?_
    obtain ⟨j, he⟩ := (Tied.mem_flatten hsize).1 he
    exact hj j (h.mem_iff.1 he)
  refine ⟨fun j _ e he => h.mem_iff.1 he, fun e _ => ⟨?_, fun hx => ?_⟩⟩
  · rw [LinkReturned]
    split
    · rename_i hl
      exact hzero fun j hj => by simp [hl] at hj
    · rename_i e' hl
      exact ⟨hzero fun j hj => by simp [hl] at hj, h.returned hl⟩
    · rename_i j hl
      exact hone hl
  · by_contra hl
    rw [hpart e (h.mem_of_linked hl)] at hx
    cases hx

end Matching

end DoubleCurve
