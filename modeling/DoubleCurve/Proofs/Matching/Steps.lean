import DoubleCurve.Proofs.Matching.Probing
import DoubleCurve.Proofs.Matching.Ties

/-!
# The steps of a matching

Every step of a matching ties one free endpoint or none. `Bonds.gather_junction`,
`Bonds.gather_enrolled` and `Bonds.gather_pair` say what gathering does to a free
endpoint: since it reaches no junction of its own, no two junctions are ever
merged, and `Bonds.Joins` lists all that such a step can do. `Bonds.Sound` is the
invariant: links and junctions agree (`Tied`), and the cell table holds no endpoint
but those that were seen. A slot may well hold an endpoint that has moved to a
junction since.

`Bonds.Joins.sound` is the step, `Matcher.Stage` the states in which the two passes
leave the bonds after every single step, and `Matcher.sound_of_stage` the run.
-/

namespace DoubleCurve

namespace Bonds

variable {b : Bonds} {e x p : Endpoint} {j : Junction} {i : Nat}

/-! ## Gathering a free endpoint -/

/-- A free endpoint joins the junction that a slot holds. -/
theorem gather_junction (hs : b.table.get i = .junction j) (hf : b.links.get e = .unpaired) :
    (b.gather e i).2 =
      { table := b.table.set i (.junction j)
        links := b.links.set e (.junction j)
        junctions := b.junctions.add j [e] } := by
  simp [gather, hs, meeting, slotJunction?, hf, Link.junction?, enlist, enlistSlot, addMembers, bind,
    occupy]

/-- A free endpoint joins the junction of the endpoint that a slot holds. -/
theorem gather_enrolled (hs : b.table.get i = .endpoint x) (hx : b.links.get x = .junction j)
    (hm : x ∈ b.junctions.members j) (hf : b.links.get e = .unpaired) :
    (b.gather e i).2 =
      { table := b.table.set i (.junction j)
        links := b.links.set e (.junction j)
        junctions := b.junctions.add j [e] } := by
  have hlt : x.index < b.links.entries.size := Links.index_lt_of_get_ne (by rw [hx]; simp)
  have hj : j.index < b.junctions.size := Junctions.index_lt_of_members_ne (List.ne_nil_of_mem hm)
  have hmem : x ∈ (b.junctions.add j [e]).members j := by
    rw [Junctions.members_add_self hj, List.foldl_cons, List.foldl_nil, Junctions.addMember]
    split
    · exact hm
    · exact List.mem_append_left _ hm
  simp [gather, hs, meeting, slotJunction?, hf, hx, Link.junction?, enlist, enlistSlot, addMembers,
    bind, occupy, Junctions.add_of_mem hmem, Links.set_eq_self hlt hx]

/-- A free endpoint makes a new junction with the pair of the endpoint that a slot holds. -/
theorem gather_pair (hs : b.table.get i = .endpoint x) (hx : b.links.get x = .endpoint p)
    (hf : b.links.get e = .unpaired) :
    (b.gather e i).2 =
      { table := b.table.set i (.junction b.junctions.allocate.1)
        links := ((b.links.set p (.junction b.junctions.allocate.1)).set x
          (.junction b.junctions.allocate.1)).set e (.junction b.junctions.allocate.1)
        junctions := b.junctions.allocate.2.add b.junctions.allocate.1 [e, x, p] } := by
  simp [gather, hs, meeting, slotJunction?, hf, hx, Link.junction?, enlist, enlistSlot, addMembers,
    bind, occupy, Junctions.add_add]

/-- What is made of the bonds when a free endpoint is tied to a slot that stands for `x`. -/
inductive Joins (b : Bonds) (e : Endpoint) (i : Nat) (x : Endpoint) : Bonds → Prop
  | pair : b.table.get i = .endpoint x → x ≠ e → b.links.get x = .unpaired →
      Joins b e i x { b with links := b.links.pair e x }
  /-- The endpoint joins the junction of `x`, which the slot holds from then on. -/
  | enroll {j : Junction} : b.table.get i = .endpoint x ∨ b.table.get i = .junction j →
      x ∈ b.junctions.members j →
      Joins b e i x
        { table := b.table.set i (.junction j)
          links := b.links.set e (.junction j)
          junctions := b.junctions.add j [e] }
  /-- The endpoint and a pair become a new junction, which the slot holds from then on. -/
  | found {p : Endpoint} : b.table.get i = .endpoint x → b.links.get x = .endpoint p →
      Joins b e i x
        { table := b.table.set i (.junction b.junctions.allocate.1)
          links := ((b.links.set p (.junction b.junctions.allocate.1)).set x
            (.junction b.junctions.allocate.1)).set e (.junction b.junctions.allocate.1)
          junctions := b.junctions.allocate.2.add b.junctions.allocate.1 [e, x, p] }

theorem Joins.get_ne_empty {b' : Bonds} (h : b.Joins e i x b') : b.table.get i ≠ .empty := by
  cases h with
  | pair hs => simp [hs]
  | enroll hs => rcases hs with hs | hs <;> simp [hs]
  | found hs => simp [hs]

/-! ## The invariant -/

/-- Links and junctions agree, and neither they nor the table name an endpoint that was not seen. -/
structure Sound (count : Nat) (seen : List Endpoint) (b : Bonds) : Prop where
  size_links : b.links.entries.size = count
  tied : Tied seen b.links b.junctions
  held {i : Nat} {e : Endpoint} : b.table.get i = .endpoint e → e ∈ seen
  size_junctions : b.junctions.size ≤ 0x100000000

namespace Sound

variable {count : Nat} {seen seen' : List Endpoint}

theorem initial (count slotsPerEndpoint : Nat) : Sound count [] (.empty count slotsPerEndpoint) where
  size_links := Links.size_unpaired count
  tied := Tied.initial [] count
  held h := by simp [Bonds.empty] at h
  size_junctions := by simp [Bonds.empty]

theorem mono (h : Sound count seen b) (hs : seen ⊆ seen') : Sound count seen' b :=
  { h with
    tied := h.tied.mono hs
    held := fun hi => hs (h.held hi) }

theorem unpaired_of_not_mem (h : Sound count seen b) (he : e ∉ seen) : b.links.get e = .unpaired := by
  by_contra hl
  exact he (h.tied.mem_of_linked hl)

theorem mem_of_exemplar (h : Sound count seen b)
    (hx : Matcher.exemplar? b (b.table.get i) = some x) : x ∈ seen := by
  cases hs : b.table.get i with
  | empty =>
    rw [hs] at hx
    cases hx
  | endpoint e =>
    rw [hs] at hx
    cases hx
    exact h.held hs
  | junction j =>
    rw [hs] at hx
    exact h.tied.mem_of_member (List.mem_of_mem_head? hx)

theorem index_lt (h : Sound count seen b) (hrange : ∀ a ∈ seen, a.index < count) (he : e ∈ seen) :
    e.index < b.links.entries.size := by
  rw [h.size_links]
  exact hrange e he

theorem size_junctions_lt (h : Sound count seen b) (hlen : seen.length < 0x100000000) :
    b.junctions.size < 0x100000000 :=
  Nat.lt_of_le_of_lt (h.tied.size_le h.size_junctions) hlen

theorem occupy (h : Sound count seen b) (he : e ∈ seen) (hi : i < b.table.size) :
    Sound count seen (b.occupy i (.endpoint e)) := by
  refine { h with held := fun {k x} hk => ?_ }
  rw [Bonds.occupy, CellTable.get_set hi] at hk
  split at hk
  · rw [← Slot.endpoint.inj hk]
    exact he
  · exact h.held hk

/-- A free endpoint joins a junction, which a slot holds from then on. -/
theorem enroll (h : Sound count seen b) (hrange : ∀ a ∈ seen, a.index < count) (he : e ∈ seen)
    (hf : b.links.get e = .unpaired) (hj : b.junctions.members j ≠ []) (hi : i < b.table.size) :
    Sound count seen
      { table := b.table.set i (.junction j)
        links := b.links.set e (.junction j)
        junctions := b.junctions.add j [e] } where
  size_links := by rw [Links.size_set, h.size_links]
  tied := h.tied.enroll he (h.index_lt hrange he) hf hj
  held {k x} hk := by
    rw [CellTable.get_set hi] at hk
    split at hk
    · cases hk
    · exact h.held hk
  size_junctions := by
    rw [Junctions.size_add]
    exact h.size_junctions

/-- A free endpoint and a pair become a junction, which a slot holds from then on. -/
theorem found (h : Sound count seen b) (hrange : ∀ a ∈ seen, a.index < count)
    (hlen : seen.length < 0x100000000) (he : e ∈ seen) (hf : b.links.get e = .unpaired)
    (hx : b.links.get x = .endpoint p) (hi : i < b.table.size) :
    Sound count seen
      { table := b.table.set i (.junction b.junctions.allocate.1)
        links := ((b.links.set p (.junction b.junctions.allocate.1)).set x
          (.junction b.junctions.allocate.1)).set e (.junction b.junctions.allocate.1)
        junctions := b.junctions.allocate.2.add b.junctions.allocate.1 [e, x, p] } := by
  have hsize := h.size_junctions_lt hlen
  refine ⟨?_, ?_, fun {k y} hk => ?_, ?_⟩
  · rw [Links.size_set, Links.size_set, Links.size_set, h.size_links]
  · exact h.tied.found he (h.index_lt hrange he) hf hx hsize
  · rw [CellTable.get_set hi] at hk
    split at hk
    · cases hk
    · exact h.held hk
  · rw [Junctions.size_add, Junctions.size_allocate]
    omega

end Sound

/-! ## What a step changes -/

/-- Whether two endpoints are a pair or members of one junction. -/
def Together (b : Bonds) (x y : Endpoint) : Prop :=
  b.links.get x = .endpoint y ∨ ∃ j, x ∈ b.junctions.members j ∧ y ∈ b.junctions.members j

theorem Together.linked {part : List Endpoint} {y : Endpoint} (h : b.Together x y)
    (ht : Tied part b.links b.junctions) : b.links.get y ≠ .unpaired := by
  rcases h with hxy | ⟨j, -, hy⟩
  · rw [ht.returned hxy]
    simp
  · rw [ht.mem_iff.1 hy]
    simp

/-- What is linked is tied together with another endpoint. -/
theorem exists_together {part : List Endpoint} (ht : Tied part b.links b.junctions)
    (hl : b.links.get x ≠ .unpaired) : ∃ y, b.Together x y ∧ y ≠ x := by
  cases hlink : b.links.get x with
  | unpaired => exact absurd hlink hl
  | endpoint y =>
    refine ⟨y, .inl hlink, fun hyx => ht.ne_self x ?_⟩
    rw [hlink, hyx]
  | junction j =>
    have hx := ht.mem_iff.2 hlink
    have hthree := ht.three_le (Junctions.index_lt_of_members_ne (List.ne_nil_of_mem hx))
    have hpos : 0 < ((b.junctions.members j).erase x).length := by
      rw [List.length_erase_of_mem hx]
      omega
    obtain ⟨y, hy⟩ := List.exists_mem_of_length_pos hpos
    rw [(ht.nodup j).mem_erase_iff] at hy
    exact ⟨y, .inr ⟨j, hx, hy.2⟩, hy.1⟩

theorem Together.symm {part : List Endpoint} {y : Endpoint} (h : b.Together x y)
    (ht : Tied part b.links b.junctions) : b.Together y x :=
  h.imp ht.returned fun ⟨j, hx, hy⟩ => ⟨j, hy, hx⟩

/-- Whether two endpoints are one and the same or tied together. -/
def Companions (b : Bonds) (x y : Endpoint) : Prop := x = y ∨ b.Together x y

namespace Companions

variable {part : List Endpoint} {y z : Endpoint}

theorem refl (b : Bonds) (x : Endpoint) : b.Companions x x := .inl rfl

theorem symm (h : b.Companions x y) (ht : Tied part b.links b.junctions) : b.Companions y x :=
  h.imp Eq.symm fun hxy => hxy.symm ht

/-- An endpoint has one link, and so its companions are each other's. -/
theorem trans (h : b.Companions x y) (h' : b.Companions y z)
    (ht : Tied part b.links b.junctions) : b.Companions x z := by
  rcases h with rfl | hxy
  · exact h'
  rcases h' with rfl | hyz
  · exact .inr hxy
  rcases hxy with hxy | ⟨j, hx, hy⟩
  · have hyx := ht.returned hxy
    rcases hyz with hyz | ⟨k, hy, -⟩
    · exact .inl (Link.endpoint.inj (hyx.symm.trans hyz))
    · rw [ht.mem_iff, hyx] at hy
      cases hy
  · rw [ht.mem_iff] at hy
    rcases hyz with hyz | ⟨k, hy', hz⟩
    · rw [hy] at hyz
      cases hyz
    · rw [ht.mem_iff, hy] at hy'
      exact .inr (.inr ⟨j, hx, Link.junction.inj hy' ▸ hz⟩)

end Companions

/-- Whether `e` is a free endpoint that was seen, so that it can be tied to a slot. -/
structure Waits (count : Nat) (seen : List Endpoint) (b : Bonds) (e : Endpoint) : Prop where
  sound : b.Sound count seen
  range : ∀ a ∈ seen, a.index < count
  length_lt : seen.length < 0x100000000
  mem : e ∈ seen
  free : b.links.get e = .unpaired

namespace Joins

variable {b' : Bonds} {y z : Endpoint} {k count : Nat} {seen : List Endpoint}

theorem size_table (hj : b.Joins e i x b') : b'.table.size = b.table.size := by
  cases hj with
  | pair => rfl
  | enroll => exact CellTable.size_set
  | found => exact CellTable.size_set

theorem occupied_le (hj : b.Joins e i x b') : b'.table.occupied ≤ b.table.occupied := by
  have hne := hj.get_ne_empty
  cases hj with
  | pair => exact Nat.le_refl _
  | enroll => exact CellTable.occupied_set_le hne
  | found => exact CellTable.occupied_set_le hne

theorem get_eq_empty_iff (hj : b.Joins e i x b') :
    b'.table.get k = .empty ↔ b.table.get k = .empty := by
  have hne := hj.get_ne_empty
  have hi := CellTable.lt_size_of_get_ne hne
  cases hj with
  | pair => exact Iff.rfl
  | enroll =>
    rw [CellTable.get_set hi]
    split <;> simp_all
  | found =>
    rw [CellTable.get_set hi]
    split <;> simp_all

theorem leads (hj : b.Joins e i x b') {start : Nat} (hl : b.table.Leads start k) :
    b'.table.Leads start k :=
  hl.of_occupied hj.size_table fun _ => hj.get_eq_empty_iff.not.2

variable (hj : b.Joins e i x b') (hw : b.Waits count seen e)

include hj hw

theorem sound : b'.Sound count seen := by
  have hi : i < b.table.size := CellTable.lt_size_of_get_ne hj.get_ne_empty
  have h := hw.sound
  cases hj with
  | pair hs hxe hx =>
    have hxs : x ∈ seen := h.held hs
    exact { h with
      size_links := by rw [Links.size_pair, h.size_links]
      tied := h.tied.pair hw.mem hxs (Ne.symm hxe) (h.index_lt hw.range hw.mem)
        (h.index_lt hw.range hxs) hw.free hx }
  | enroll hs hm => exact h.enroll hw.range hw.mem hw.free (List.ne_nil_of_mem hm) hi
  | found hs hx => exact h.found hw.range hw.length_lt hw.mem hw.free hx hi

/-- What stands for a slot does so as long as the slot holds the same. -/
theorem exemplar_mono {slot : Slot} (hy : Matcher.exemplar? b slot = some y) :
    Matcher.exemplar? b' slot = some y := by
  cases slot with
  | empty => exact hy
  | endpoint z => exact hy
  | junction k =>
    change (b.junctions.members k).head? = some y at hy
    show (b'.junctions.members k).head? = some y
    have hne : b.junctions.members k ≠ [] := List.ne_nil_of_mem (List.mem_of_mem_head? hy)
    cases hj with
    | pair => exact hy
    | @enroll j hs hm =>
      rw [Junctions.members_add_new (List.ne_nil_of_mem hm) (hw.sound.tied.not_member hw.free j)]
      split
      · rename_i hk
        rw [← hk, List.head?_append_of_ne_nil _ hne, hy]
      · exact hy
    | found hs hx =>
      rwa [Junctions.members_allocate_add_of_ne]
      rintro rfl
      exact hne (Junctions.members_allocated (hw.sound.size_junctions_lt hw.length_lt))

/-- What stands for a slot afterwards did so before, or it is tied to what did. -/
theorem exemplar_cases (hy : Matcher.exemplar? b (b.table.get k) = some y) :
    ∃ z, Matcher.exemplar? b' (b'.table.get k) = some z ∧
      (z = y ∨ y = x ∧ (z = e ∨ b.Together x z)) := by
  have hsame {slot : Slot} {y : Endpoint} (hs : Matcher.exemplar? b slot = some y) :=
    hj.exemplar_mono hw hs
  have hi := CellTable.lt_size_of_get_ne hj.get_ne_empty
  cases hj with
  | pair => exact ⟨y, hsame hy, .inl rfl⟩
  | @enroll j hs hm =>
    dsimp only
    rw [CellTable.get_set hi]
    split
    · rename_i hk
      rw [hk] at hy
      rcases hs with hs | hs
      · rw [hs] at hy
        cases hy
        have hz := List.head?_eq_some_head (List.ne_nil_of_mem hm)
        exact ⟨_, @hsame (.junction j) _ hz,
          .inr ⟨rfl, .inr (.inr ⟨j, hm, List.mem_of_mem_head? hz⟩)⟩⟩
      · rw [hs] at hy
        exact ⟨y, hsame hy, .inl rfl⟩
    · exact ⟨y, hsame hy, .inl rfl⟩
  | @found p hs hx =>
    dsimp only
    rw [CellTable.get_set hi]
    split
    · rename_i hk
      rw [hk, hs] at hy
      cases hy
      obtain ⟨hex, hep, hxp⟩ := hw.sound.tied.ne_of_pair hw.free hx
      refine ⟨e, ?_, .inr ⟨rfl, .inl rfl⟩⟩
      rw [Matcher.exemplar?, Junctions.exemplar?,
        Junctions.members_allocate_add (hw.sound.size_junctions_lt hw.length_lt) hex hep hxp,
        List.head?_cons]
    · exact ⟨y, hsame hy, .inl rfl⟩

/-- The endpoint and the one it is tied to are linked from then on, and no endpoint becomes free. -/
theorem get_eq_unpaired_iff :
    b'.links.get y = .unpaired ↔ y ≠ e ∧ y ≠ x ∧ b.links.get y = .unpaired := by
  have hse := hw.sound.index_lt hw.range hw.mem
  cases hj with
  | pair hs hxe hx =>
    rw [Links.get_pair hse (hw.sound.index_lt hw.range (hw.sound.held hs))]
    grind
  | @enroll j hs hm =>
    have hx := hw.sound.tied.mem_iff.1 hm
    rw [Links.get_set hse]
    grind
  | @found p hs hx =>
    have hp := hw.sound.tied.returned hx
    rw [hw.sound.tied.get_found hse hx]
    grind

/-- What is tied together was so before, or is tied to the endpoint and to `x`. -/
theorem together_cases (ht : b'.Together y z) : b.Together y z ∨
      (y = e ∨ y = x ∨ b.Together x y) ∧ (z = e ∨ z = x ∨ b.Together x z) := by
  have hse := hw.sound.index_lt hw.range hw.mem
  cases hj with
  | pair hs hxe hx =>
    rcases ht with hl | hm
    · rw [Links.get_pair hse (hw.sound.index_lt hw.range (hw.sound.held hs))] at hl
      unfold Together
      grind
    · exact .inl (.inr hm)
  | @enroll j hs hx =>
    rcases ht with hl | ⟨k, hy, hz⟩
    · rw [Links.get_set hse] at hl
      split at hl
      · cases hl
      · exact .inl (.inl hl)
    · rw [Junctions.members_add_new (List.ne_nil_of_mem hx) (hw.sound.tied.not_member hw.free j)]
        at hy hz
      by_cases hk : k = j
      · rw [if_pos hk, List.mem_append, List.mem_singleton] at hy hz
        have hmem {a : Endpoint} (ha : a ∈ b.junctions.members j) : b.Together x a :=
          .inr ⟨j, hx, ha⟩
        exact .inr ⟨hy.symm.imp_right fun hy => .inr (hmem hy),
          hz.symm.imp_right fun hz => .inr (hmem hz)⟩
      · rw [if_neg hk] at hy hz
        exact .inl (.inr ⟨k, hy, hz⟩)
  | @found p hs hx =>
    have hp := hw.sound.tied.returned hx
    rcases ht with hl | ⟨k, hy, hz⟩
    · rw [hw.sound.tied.get_found hse hx] at hl
      split at hl
      · cases hl
      · exact .inl (.inl hl)
    · by_cases hk : b.junctions.allocate.1 = k
      · obtain ⟨hex, hep, hxp⟩ := hw.sound.tied.ne_of_pair hw.free hx
        rw [← hk, Junctions.members_allocate_add (hw.sound.size_junctions_lt hw.length_lt) hex hep
          hxp] at hy hz
        simp only [List.mem_cons, List.not_mem_nil, or_false] at hy hz
        have hpair {a : Endpoint} (ha : a = p) : b.Together x a := .inl (ha ▸ hx)
        exact .inr ⟨hy.imp_right (.imp_right hpair), hz.imp_right (.imp_right hpair)⟩
      · rw [Junctions.members_allocate_add_of_ne hk] at hy hz
        exact .inl (.inr ⟨k, hy, hz⟩)

theorem together_self : b'.Together e x := by
  have hse := hw.sound.index_lt hw.range hw.mem
  cases hj with
  | pair hs hxe hx =>
    left
    rw [Links.get_pair hse (hw.sound.index_lt hw.range (hw.sound.held hs)), if_neg (Ne.symm hxe),
      if_pos rfl]
  | @enroll j hs hm =>
    refine .inr ⟨j, ?_⟩
    rw [Junctions.members_add_new (List.ne_nil_of_mem hm) (hw.sound.tied.not_member hw.free j),
      if_pos rfl]
    exact ⟨List.mem_append_right _ (List.mem_singleton_self e), List.mem_append_left _ hm⟩
  | @found p hs hx =>
    obtain ⟨hex, hep, hxp⟩ := hw.sound.tied.ne_of_pair hw.free hx
    refine .inr ⟨b.junctions.allocate.1, ?_⟩
    rw [Junctions.members_allocate_add (hw.sound.size_junctions_lt hw.length_lt) hex hep hxp]
    simp

theorem together_mono (ht : b.Together y z) : b'.Together y z := by
  have hse := hw.sound.index_lt hw.range hw.mem
  have hye : y ≠ e := by
    rintro rfl
    exact (ht.symm hw.sound.tied).linked hw.sound.tied hw.free
  cases hj with
  | pair hs hxe hx =>
    refine ht.imp_left fun hyz => ?_
    rw [Links.get_pair hse (hw.sound.index_lt hw.range (hw.sound.held hs)), if_neg, if_neg hye, hyz]
    rintro rfl
    rw [hx] at hyz
    cases hyz
  | @enroll j hs hm =>
    refine ht.imp (fun hyz => ?_) fun ⟨k, hy, hz⟩ => ⟨k, ?_⟩
    · rw [Links.get_set hse, if_neg hye, hyz]
    · rw [Junctions.members_add_new (List.ne_nil_of_mem hm) (hw.sound.tied.not_member hw.free j)]
      split
      · rename_i hk
        subst hk
        exact ⟨List.mem_append_left _ hy, List.mem_append_left _ hz⟩
      · exact ⟨hy, hz⟩
  | @found p hs hx =>
    obtain ⟨hex, hep, hxp⟩ := hw.sound.tied.ne_of_pair hw.free hx
    have hsize := hw.sound.size_junctions_lt hw.length_lt
    rcases ht with hyz | ⟨k, hy, hz⟩
    · -- either the pair that the endpoint joins, or one that is left alone
      by_cases hyxp : y = x ∨ y = p
      · refine .inr ⟨b.junctions.allocate.1, ?_⟩
        rw [Junctions.members_allocate_add hsize hex hep hxp]
        have hp := hw.sound.tied.returned hx
        rcases hyxp with rfl | rfl
        · rw [hx, Link.endpoint.injEq] at hyz
          simp [hyz]
        · rw [hp, Link.endpoint.injEq] at hyz
          simp [hyz]
      · rw [not_or] at hyxp
        left
        rw [hw.sound.tied.get_found hse hx, if_neg, hyz]
        simp [hye, hyxp]
    · refine .inr ⟨k, ?_⟩
      rw [Junctions.members_allocate_add_of_ne]
      · exact ⟨hy, hz⟩
      · rintro rfl
        rw [Junctions.members_allocated hsize] at hy
        cases hy

theorem companions_mono (h : b.Companions y z) : b'.Companions y z :=
  h.imp_right fun ht => hj.together_mono hw ht

/-- What stands for a slot afterwards is a companion of what did so before. -/
theorem exists_exemplar (hy : Matcher.exemplar? b (b.table.get k) = some y) :
    ∃ z, Matcher.exemplar? b' (b'.table.get k) = some z ∧ b'.Companions y z := by
  obtain ⟨z, hz, rfl | ⟨rfl, rfl | hyz⟩⟩ := hj.exemplar_cases hw hy
  · exact ⟨z, hz, .refl b' z⟩
  · exact ⟨z, hz, .inr ((hj.together_self hw).symm (hj.sound hw).tied)⟩
  · exact ⟨z, hz, .inr (hj.together_mono hw hyz)⟩

end Joins

end Bonds

namespace Matcher

variable {α : Type} [Scalar α] {m : Matcher α} {b : Bonds} {e x : Endpoint} {i : Nat}
  {count : Nat} {seen : List Endpoint}

theorem cell_add_zero (c : Cell) : c + ⟨0, 0, 0⟩ = c := by
  show (⟨c.x + 0, c.y + 0, c.z + 0⟩ : Cell) = c
  rw [Int32.add_zero, Int32.add_zero, Int32.add_zero]

/-- The search of the first pass starts from the endpoint's own cell. -/
theorem probe_zero (m : Matcher α) (b : Bonds) (e : Endpoint) : m.probe b e ⟨0, 0, 0⟩ =
    b.table.probe ((m.cell e).bucket b.table.size) (m.accepts b e) := by
  rw [probe, cell_add_zero]

theorem accepts_iff {slot : Slot} : m.accepts b e slot = true ↔
    slot ≠ .endpoint e ∧ ∃ x, exemplar? b slot = some x ∧ m.matching e x = true := by
  rw [accepts, Bool.and_eq_true, bne_iff_ne]
  cases exemplar? b slot <;> simp

/-- An accepted slot holds another endpoint, or a junction with members. -/
theorem accepts_cases (h : m.accepts b e (b.table.get i) = true) :
    (∃ x, b.table.get i = .endpoint x ∧ x ≠ e ∧ m.matching e x = true) ∨
    (∃ j x, b.table.get i = .junction j ∧ b.junctions.exemplar? j = some x ∧ m.matching e x = true) := by
  cases hs : b.table.get i with
  | empty => simp [accepts, hs, exemplar?] at h
  | endpoint x =>
    simp only [accepts, hs, exemplar?, Bool.and_eq_true, bne_iff_ne, ne_eq, Slot.endpoint.injEq] at h
    exact .inl ⟨x, rfl, h.1, h.2⟩
  | junction j =>
    simp only [accepts, hs, exemplar?, Bool.and_eq_true] at h
    cases hx : b.junctions.exemplar? j with
    | none => simp [hx] at h
    | some x => exact .inr ⟨j, x, rfl, hx, by simpa [hx] using h.2⟩

/-- The ways in which a free endpoint is tied to an accepted slot. -/
theorem joins_join (ht : Tied seen b.links b.junctions) (hf : b.links.get e = .unpaired)
    (hacc : m.accepts b e (b.table.get i) = true) :
    ∃ x, exemplar? b (b.table.get i) = some x ∧ m.matching e x = true ∧
      b.Joins e i x (b.join e i) := by
  rcases accepts_cases hacc with ⟨x, hs, hxe, hex⟩ | ⟨j, x, hs, hx, hex⟩
  · refine ⟨x, by rw [hs, exemplar?], hex, ?_⟩
    cases hl : b.links.get x with
    | unpaired =>
      simp only [Bonds.join, hs, hl, ↓reduceIte]
      exact .pair hs hxe hl
    | endpoint p =>
      simp only [Bonds.join, hs, hl, reduceCtorEq, ↓reduceIte]
      rw [Bonds.gather_pair hs hl hf]
      exact .found hs hl
    | junction j =>
      have hm := ht.mem_iff.2 hl
      simp only [Bonds.join, hs, hl, reduceCtorEq, ↓reduceIte]
      rw [Bonds.gather_enrolled hs hl hm hf]
      exact .enroll (.inl hs) hm
  · refine ⟨x, by rw [hs, exemplar?, hx], hex, ?_⟩
    simp only [Bonds.join, hs]
    rw [Bonds.gather_junction hs hf]
    exact .enroll (.inr hs) (List.mem_of_mem_head? hx)

theorem sound_join (h : b.Sound count seen) (hrange : ∀ a ∈ seen, a.index < count)
    (hlen : seen.length < 0x100000000) (he : e ∈ seen) (hf : b.links.get e = .unpaired)
    (hacc : m.accepts b e (b.table.get i) = true) : (b.join e i).Sound count seen := by
  obtain ⟨x, -, -, hj⟩ := joins_join h.tied hf hacc
  exact hj.sound ⟨h, hrange, hlen, he, hf⟩

theorem sound_register (h : b.Sound count seen) (hrange : ∀ a ∈ seen ++ [e], a.index < count)
    (hlen : (seen ++ [e]).length < 0x100000000) (he : e ∉ seen) :
    (m.register b e).Sound count (seen ++ [e]) := by
  have hf := h.unpaired_of_not_mem he
  have hs : b.Sound count (seen ++ [e]) := h.mono (List.subset_append_left seen [e])
  have hmem : e ∈ seen ++ [e] := List.mem_append_right _ (List.mem_singleton_self e)
  simp only [register]
  split
  · rename_i i hi
    exact sound_join hs hrange hlen hmem hf (CellTable.found_spec hi).2.2
  · rename_i i hi
    exact hs.occupy hmem (CellTable.vacant_lt hi)

theorem sound_sweepCell (h : b.Sound count seen) (hrange : ∀ a ∈ seen, a.index < count)
    (hlen : seen.length < 0x100000000) (he : e ∈ seen) (hf : b.links.get e = .unpaired)
    {offset : Cell} {b' : Bonds} (hb : m.sweepCell? b e offset = some b') : b'.Sound count seen := by
  simp only [sweepCell?] at hb
  split at hb
  · rename_i i hi
    rw [← Option.some.inj hb]
    exact sound_join h hrange hlen he hf (CellTable.found_spec hi).2.2
  · cases hb

/-! ## The run -/

/-- The notice that an endpoint found no partner. -/
def unmatchedNotice (m : Matcher α) (e : Endpoint) : Notice α :=
  .info (.unmatchedEndpoint e (m.segments.point e))

/-- The bonds after searches for `e` from the cells at these offsets, the first success being the
last search. -/
def afterSweeps (m : Matcher α) (b : Bonds) (e : Endpoint) (offsets : List Cell) : Bonds :=
  (offsets.findSome? (m.sweepCell? b e)).getD b

/-- The bonds after some of the single steps in which `es` are matched: when the first pass has come
through a part of them, or when the second pass has come to an endpoint that is still free and has
searched for it from a part of the cells around its own. -/
inductive Stage (m : Matcher α) (b : Bonds) (es : List Endpoint) : Bonds → Prop
  | registered (done rest : List Endpoint) (hes : es = done ++ rest) :
      Stage m b es (m.registerAll b done)
  | swept (done rest : List Endpoint) (e : Endpoint) (tried untried : List Cell)
      (hes : es = done ++ e :: rest) (hcells : Cell.neighbourhood = tried ++ untried)
      (hf : (m.finishAll ⟨m.registerAll b es, #[]⟩ done).bonds.links.get e = .unpaired) :
      Stage m b es (m.afterSweeps (m.finishAll ⟨m.registerAll b es, #[]⟩ done).bonds e tried)

theorem bonds_finish (m : Matcher α) (s : Swept α) (e : Endpoint) :
    (m.finish s e).bonds =
      if s.bonds.links.get e = .unpaired then m.afterSweeps s.bonds e Cell.neighbourhood
      else s.bonds := by
  simp only [finish, afterSweeps, sweep?]
  by_cases hf : s.bonds.links.get e = .unpaired
  · rw [if_neg (not_not.2 hf), if_pos hf]
    split
    · rename_i hb
      rw [hb, Option.getD_some]
    · rename_i hb
      rw [hb, Option.getD_none]
  · rw [if_pos hf, if_neg hf]

theorem sound_afterSweeps (h : b.Sound count seen) (hrange : ∀ a ∈ seen, a.index < count)
    (hlen : seen.length < 0x100000000) (he : e ∈ seen) (hf : b.links.get e = .unpaired)
    (offsets : List Cell) : (m.afterSweeps b e offsets).Sound count seen := by
  rw [afterSweeps]
  cases hb : offsets.findSome? (m.sweepCell? b e) with
  | none => exact h
  | some b' =>
    obtain ⟨offset, -, hb'⟩ := List.exists_of_findSome?_eq_some hb
    exact sound_sweepCell h hrange hlen he hf hb'

/-- What every step of the first pass preserves holds after it, by induction on the endpoints that
are left. -/
theorem registerAll_induction {P : List Endpoint → Bonds → Prop} {es : List Endpoint}
    (hnodup : es.Nodup) (h : P [] b)
    (hstep : ∀ seen e b, seen ++ [e] <+: es → e ∉ seen → P seen b →
      P (seen ++ [e]) (m.register b e)) :
    P es (m.registerAll b es) := by
  have hrun (seen rest : List Endpoint) (b : Bonds) (hes : seen ++ rest = es) (hb : P seen b) :
      P es (m.registerAll b rest) := by
    induction rest generalizing seen b with
    | nil =>
      rw [List.append_nil] at hes
      exact hes ▸ hb
    | cons e rest ih =>
      rw [List.append_cons] at hes
      have he : e ∉ seen := fun he => by
        rw [← hes] at hnodup
        exact (List.nodup_append.1 (List.nodup_append.1 hnodup).1).2.2 e he e
          (List.mem_singleton_self e) rfl
      exact ih (seen ++ [e]) (m.register b e) hes (hstep seen e b ⟨rest, hes⟩ he hb)
  exact hrun [] es b rfl h

theorem sound_registerAll {es : List Endpoint} (h : b.Sound count [])
    (hrange : ∀ a ∈ es, a.index < count) (hlen : es.length < 0x100000000) (hnodup : es.Nodup) :
    (m.registerAll b es).Sound count es :=
  registerAll_induction hnodup h fun _ _ _ hes he hb =>
    sound_register hb (fun a ha => hrange a (hes.subset ha))
      (Nat.lt_of_le_of_lt hes.length_le hlen) he

/-- The second pass, by induction on the endpoints it comes through. -/
theorem sound_finishAll {s : Swept α} {es : List Endpoint} (h : s.bonds.Sound count seen)
    (hrange : ∀ a ∈ seen, a.index < count) (hlen : seen.length < 0x100000000) (hes : es ⊆ seen) :
    (m.finishAll s es).bonds.Sound count seen := by
  induction es generalizing s with
  | nil => exact h
  | cons e es ih =>
    rw [List.cons_subset] at hes
    refine ih ?_ hes.2
    rw [bonds_finish]
    split
    · exact sound_afterSweeps h hrange hlen hes.1 ‹_› _
    · exact h

/-- After every single step, links and junctions agree. -/
theorem sound_of_stage {es : List Endpoint} {slotsPerEndpoint : Nat}
    (hrange : ∀ a ∈ es, a.index < count) (hlen : es.length < 0x100000000) (hnodup : es.Nodup)
    (hb : m.Stage (.empty count slotsPerEndpoint) es b) : b.Sound count es := by
  have hfirst {done rest : List Endpoint} (hes : es = done ++ rest) :
      (m.registerAll (.empty count slotsPerEndpoint) done).Sound count es := by
    subst hes
    refine (sound_registerAll (Bonds.Sound.initial count slotsPerEndpoint) ?_ ?_ ?_).mono
      (List.subset_append_left done rest)
    · exact fun a ha => hrange a (List.mem_append_left _ ha)
    · rw [List.length_append] at hlen
      omega
    · exact (List.nodup_append.1 hnodup).1
  cases hb with
  | registered done rest hes => exact hfirst hes
  | swept done rest e tried untried hes hcells hf =>
    have hall := hfirst (List.append_nil es).symm
    refine sound_afterSweeps (sound_finishAll hall hrange hlen ?_) hrange hlen ?_ hf tried
    · rw [hes]
      exact List.subset_append_left _ _
    · rw [hes]
      exact List.mem_append_right _ List.mem_cons_self

end Matcher

end DoubleCurve
