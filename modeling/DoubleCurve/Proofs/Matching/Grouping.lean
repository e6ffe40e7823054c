import DoubleCurve.Proofs.Matching.Build

/-!
# Endpoints grouped by position

When endpoints match exactly if they lie in the same place (`Matcher.Exact`), the
cell table finds every endpoint that was there before, whatever collides in it.
`Bonds.Shape` says how the endpoints of one place are tied: one is free, two are a
pair, and more are a junction, which lists the third one first, then the first
two, and the others as they came. `Matcher.Grouped` is the invariant of the first
pass: every place has one slot, to which its cell leads.

The second pass finds nothing new (`Matching.ofSegments_of_exact`), so that the
bonds after the first one (`Matching.grouped_registered`) tell what becomes of
every endpoint and which of them are reported.
-/

namespace DoubleCurve

namespace Bonds

variable {b b' : Bonds} {e x : Endpoint} {g : List Endpoint} {slot : Slot} {i : Nat}

/-- How the endpoints of one place are tied, listed as they came, and what their slot holds. -/
inductive Shape (b : Bonds) : List Endpoint → Slot → Prop
  | single {x : Endpoint} : b.links.get x = .unpaired → Shape b [x] (.endpoint x)
  | pair {x y : Endpoint} : b.links.get x = .endpoint y → b.links.get y = .endpoint x →
      Shape b [x, y] (.endpoint x)
  | junction {x y z : Endpoint} {rest : List Endpoint} {j : Junction} :
      b.junctions.members j = z :: x :: y :: rest → Shape b (x :: y :: z :: rest) (.junction j)

theorem Shape.exemplar (h : b.Shape g slot) : ∃ x ∈ g, Matcher.exemplar? b slot = some x := by
  cases h with
  | single => exact ⟨_, List.mem_singleton_self _, rfl⟩
  | pair => exact ⟨_, List.mem_cons_self, rfl⟩
  | @junction x y z rest j hm =>
    refine ⟨z, by simp, ?_⟩
    rw [Matcher.exemplar?, Junctions.exemplar?, hm, List.head?_cons]

theorem Shape.ne_empty (h : b.Shape g slot) : slot ≠ .empty := by
  cases h <;> simp

/-- The slot of a place holds one of its endpoints, or a junction. -/
theorem Shape.ne_endpoint (h : b.Shape g slot) (he : e ∉ g) : slot ≠ .endpoint e := by
  cases h with
  | single => exact fun h => he (by rw [Slot.endpoint.inj h]; exact List.mem_cons_self)
  | pair => exact fun h => he (by rw [Slot.endpoint.inj h]; exact List.mem_cons_self)
  | junction => simp

theorem Shape.members_ne_nil {j : Junction} (h : b.Shape g (.junction j)) :
    b.junctions.members j ≠ [] := by
  cases h with
  | junction hm =>
    rw [hm]
    exact List.cons_ne_nil _ _

/-- A place stays as it is when its endpoints and its junction do. -/
theorem Shape.congr (h : b.Shape g slot) (hl : ∀ x ∈ g, b'.links.get x = b.links.get x)
    (hm : ∀ j, slot = .junction j → b'.junctions.members j = b.junctions.members j) :
    b'.Shape g slot := by
  cases h with
  | single hx => exact .single (by rw [hl _ List.mem_cons_self, hx])
  | @pair x y hx hy =>
    refine .pair ?_ ?_
    · rw [hl x List.mem_cons_self, hx]
    · rw [hl y (List.mem_cons_of_mem x List.mem_cons_self), hy]
  | @junction x y z rest j hj => exact .junction (by rw [hm j rfl, hj])

/-- A free endpoint is alone in its place, and its slot holds it. -/
theorem Shape.of_unpaired {part : List Endpoint} (h : b.Shape g slot)
    (ht : Tied part b.links b.junctions) (he : e ∈ g) (hf : b.links.get e = .unpaired) :
    g = [e] ∧ slot = .endpoint e := by
  cases h with
  | @single x hx =>
    obtain rfl := List.mem_singleton.1 he
    exact ⟨rfl, rfl⟩
  | @pair x y hx hy =>
    rcases List.mem_cons.1 he with rfl | he
    · rw [hx] at hf
      cases hf
    · rw [List.mem_singleton.1 he, hy] at hf
      cases hf
  | @junction x y z rest j hm =>
    have hmem : e ∈ b.junctions.members j := by
      rw [hm]
      simp only [List.mem_cons] at he ⊢
      tauto
    rw [ht.mem_iff.1 hmem] at hf
    cases hf

/-- What tying an endpoint to the slot of its place does. -/
structure Joined (b : Bonds) (g : List Endpoint) (e : Endpoint) (i : Nat) (b' : Bonds) : Prop where
  shape : b'.Shape (g ++ [e]) (b'.table.get i)
  other {k : Nat} : k ≠ i → b'.table.get k = b.table.get k
  size : b'.table.size = b.table.size
  occupied : b'.table.occupied ≤ b.table.occupied
  links {x : Endpoint} : x ∉ g → x ≠ e → b'.links.get x = b.links.get x
  members {j : Junction} : b.junctions.members j ≠ [] → b.table.get i ≠ .junction j →
    b'.junctions.members j = b.junctions.members j
  grown {j : Junction} : b.junctions.members j ⊆ b'.junctions.members j

/-- The first endpoint of a place is free, and a second one is paired with it. -/
theorem joined_single (hslot : b.table.get i = .endpoint x) (hx : b.links.get x = .unpaired)
    (hex : e ≠ x) (hse : e.index < b.links.entries.size) (hsx : x.index < b.links.entries.size) :
    b.Joined [x] e i (b.join e i) := by
  have hget := Links.get_pair hse hsx
  rw [join, hslot]
  dsimp only
  rw [if_pos hx]
  refine ⟨?_, fun _ => rfl, rfl, Nat.le_refl _, fun hy hye => ?_, fun _ _ => rfl, fun h => h⟩
  · show Shape _ [x, e] (b.table.get i)
    rw [hslot]
    refine .pair ?_ ?_
    · rw [hget, if_pos rfl]
    · rw [hget, if_neg hex, if_pos rfl]
  · rw [List.mem_singleton] at hy
    show (b.links.pair e x).get _ = _
    rw [hget, if_neg hy, if_neg hye]

/-- A third endpoint makes a junction of a pair. -/
theorem joined_pair {y : Endpoint} (hslot : b.table.get i = .endpoint x)
    (hx : b.links.get x = .endpoint y) (hf : b.links.get e = .unpaired) (hex : e ≠ x) (hey : e ≠ y)
    (hxy : x ≠ y) (hsize : b.junctions.size < 0x100000000) : b.Joined [x, y] e i (b.join e i) := by
  have hne : b.table.get i ≠ .empty := by
    rw [hslot]
    simp
  have hi := CellTable.lt_size_of_get_ne hne
  have hnone := Junctions.members_allocated hsize
  rw [join, hslot]
  dsimp only
  rw [if_neg (by rw [hx]; simp), gather_pair hslot hx hf]
  refine ⟨?_, fun hk => CellTable.get_set_of_ne (Ne.symm hk), CellTable.size_set,
    CellTable.occupied_set_le hne, fun {z} hz hze => ?_, fun {j} hj _ => ?_, fun {j} => ?_⟩
  · show Shape _ [x, y, e] _
    rw [CellTable.get_set_self hi]
    exact .junction (Junctions.members_allocate_add hsize hex hey hxy)
  · simp only [List.mem_cons, List.not_mem_nil, or_false, not_or] at hz
    rw [Links.get_set_of_ne (Ne.symm hze), Links.get_set_of_ne (Ne.symm hz.1),
      Links.get_set_of_ne (Ne.symm hz.2)]
  · refine Junctions.members_allocate_add_of_ne fun hnew => hj ?_
    rw [← hnew, hnone]
  · by_cases hnew : b.junctions.allocate.1 = j
    · rw [← hnew, hnone]
      exact List.nil_subset _
    · rw [Junctions.members_allocate_add_of_ne hnew]
      exact List.Subset.refl _

/-- A junction takes every further endpoint as its last member. -/
theorem joined_junction {y z : Endpoint} {rest : List Endpoint} {j : Junction}
    (hslot : b.table.get i = .junction j) (hm : b.junctions.members j = z :: x :: y :: rest)
    (hf : b.links.get e = .unpaired) (hmem : e ∉ b.junctions.members j) :
    b.Joined (x :: y :: z :: rest) e i (b.join e i) := by
  have hne : b.table.get i ≠ .empty := by
    rw [hslot]
    simp
  have hi := CellTable.lt_size_of_get_ne hne
  have hj : j.index < b.junctions.size :=
    Junctions.index_lt_of_members_ne (by rw [hm]; exact List.cons_ne_nil _ _)
  have hself : (b.junctions.add j [e]).members j = b.junctions.members j ++ [e] := by
    rw [Junctions.members_add_self hj]
    exact Junctions.addMember_of_not_mem hmem
  rw [join, hslot]
  dsimp only
  rw [gather_junction hslot hf]
  refine ⟨?_, fun hk => CellTable.get_set_of_ne (Ne.symm hk), CellTable.size_set,
    CellTable.occupied_set_le hne, fun hz hze => Links.get_set_of_ne (Ne.symm hze),
    fun {k} _ hk => ?_, fun {k} => ?_⟩
  · show Shape _ (x :: y :: z :: (rest ++ [e])) _
    rw [CellTable.get_set_self hi]
    refine .junction ?_
    rw [hself, hm]
    rfl
  · exact Junctions.members_add_of_ne fun hjk => hk (by rw [hslot, hjk])
  · by_cases hjk : j = k
    · subst hjk
      rw [hself]
      exact List.subset_append_left _ _
    · rw [Junctions.members_add_of_ne hjk]
      exact List.Subset.refl _

theorem joined_join {count : Nat} {seen : List Endpoint} (hs : b.Sound count seen)
    (hrange : ∀ a ∈ seen, a.index < count) (hlen : seen.length < 0x100000000)
    (hshape : b.Shape g (b.table.get i)) (hg : g ⊆ seen) (he : e ∉ seen) (hlt : e.index < count) :
    b.Joined g e i (b.join e i) := by
  have hf : b.links.get e = .unpaired := hs.unpaired_of_not_mem he
  have hne {x : Endpoint} (hx : x ∈ g) : e ≠ x := fun hex => he (hex ▸ hg hx)
  generalize hslot : b.table.get i = slot at hshape
  cases hshape with
  | @single x hx =>
    refine joined_single hslot hx (hne List.mem_cons_self) ?_ ?_
    · rwa [hs.size_links]
    · rw [hs.size_links]
      exact hrange x (hg List.mem_cons_self)
  | @pair x y hx hy =>
    have hxy : x ≠ y := fun hxy => hs.tied.ne_self y (by rw [← hxy, hx, hxy])
    exact joined_pair hslot hx hf (hne List.mem_cons_self)
      (hne (List.mem_cons_of_mem x List.mem_cons_self)) hxy (hs.size_junctions_lt hlen)
  | junction hm => exact joined_junction hslot hm hf fun hmem => he (hs.tied.mem_of_member hmem)

/-- A search leads where it led before. -/
theorem Joined.leads (hj : b.Joined g e i b') {k n : Nat} (hl : b.table.Leads k n) :
    b'.table.Leads k n := by
  refine hl.of_occupied hj.size fun l hne => ?_
  by_cases hli : l = i
  · rw [hli]
    exact hj.shape.ne_empty
  · rwa [hj.other hli]

end Bonds

namespace Matcher

variable {α : Type} [Scalar α] {m : Matcher α} {b b' : Bonds} {e x y : Endpoint}
  {es seen : List Endpoint} {count i : Nat}

/-- Whether two endpoints are in one place: they match or are the same, since an endpoint need not
match itself. -/
def coincides (m : Matcher α) (e x : Endpoint) : Bool := decide (x = e) || m.matching e x

theorem coincides_iff : m.coincides e x = true ↔ x = e ∨ m.matching e x = true := by
  rw [coincides, Bool.or_eq_true, decide_eq_true_iff]

theorem coincides_self (m : Matcher α) (e : Endpoint) : m.coincides e e = true :=
  coincides_iff.2 (.inl rfl)

theorem coincides_of_matching (h : m.matching e x = true) : m.coincides e x = true :=
  coincides_iff.2 (.inr h)

/-- Whether matching tells places apart: being in one place is an equivalence, and endpoints in one
place have the same cell. -/
structure Exact (m : Matcher α) (es : List Endpoint) : Prop where
  symm {x y : Endpoint} : x ∈ es → y ∈ es → m.coincides x y = true → m.coincides y x = true
  trans {x y z : Endpoint} : x ∈ es → y ∈ es → z ∈ es → m.coincides x y = true →
    m.coincides y z = true → m.coincides x z = true
  cell {x y : Endpoint} : x ∈ es → y ∈ es → m.coincides x y = true → m.cell x = m.cell y

/-- The endpoints in the place of `e`, as they come. -/
def place (m : Matcher α) (es : List Endpoint) (e : Endpoint) : List Endpoint :=
  es.filter (m.coincides e)

theorem mem_place : x ∈ m.place es e ↔ x ∈ es ∧ m.coincides e x = true := List.mem_filter

namespace Exact

theorem mono (h : m.Exact es) (hsub : seen ⊆ es) : m.Exact seen where
  symm hx hy := h.symm (hsub hx) (hsub hy)
  trans hx hy hz := h.trans (hsub hx) (hsub hy) (hsub hz)
  cell hx hy := h.cell (hsub hx) (hsub hy)

theorem place_eq (h : m.Exact es) (hsub : seen ⊆ es) (hx : x ∈ es) (hy : y ∈ es)
    (hxy : m.coincides x y = true) : m.place seen x = m.place seen y := by
  refine List.filter_congr fun z hz => ?_
  rw [Bool.eq_iff_iff]
  exact ⟨h.trans hy hx (hsub hz) (h.symm hx hy hxy), h.trans hx hy (hsub hz) hxy⟩

end Exact

/-- What the bonds are when `seen` have been registered. -/
structure Grouped (m : Matcher α) (count : Nat) (seen : List Endpoint) (b : Bonds) : Prop where
  sound : b.Sound count seen
  size : count < b.table.size
  room : b.table.occupied ≤ seen.length
  held {i : Nat} {j : Junction} : b.table.get i = .junction j → b.junctions.members j ≠ []
  slot {e : Endpoint} : e ∈ seen → ∃ i, b.table.Leads ((m.cell e).bucket b.table.size) i ∧
    b.Shape (m.place seen e) (b.table.get i) ∧
    ∀ k x, exemplar? b (b.table.get k) = some x → m.coincides e x = true → k = i

theorem place_concat (m : Matcher α) (seen : List Endpoint) (e x : Endpoint) :
    m.place (seen ++ [e]) x = m.place seen x ++ if m.coincides x e then [e] else [] := by
  rw [place, List.filter_append, place, List.filter_cons, List.filter_nil]

/-! ## An endpoint at a place that has a slot -/

section Tying

variable (h : m.Grouped count seen b) (hexact : m.Exact (seen ++ [e]))
  (hshape : b.Shape (m.place seen e) (b.table.get i))
  (honly : ∀ k x, exemplar? b (b.table.get k) = some x → m.coincides e x = true → k = i)
  (hj : b.Joined (m.place seen e) e i b')

include h hshape honly hj

/-- The slots of other places stand for the endpoints they stood for. -/
theorem exemplar_of_joined {k : Nat} (hk : k ≠ i) :
    exemplar? b' (b'.table.get k) = exemplar? b (b.table.get k) := by
  obtain ⟨w, hw, hexw⟩ := hshape.exemplar
  rw [hj.other hk]
  cases hslot : b.table.get k with
  | empty => rfl
  | endpoint x => rfl
  | junction j =>
    have hne : b.table.get i ≠ .junction j := fun hi => by
      rw [hi, ← hslot] at hexw
      exact hk (honly k w hexw (mem_place.1 hw).2)
    show (b'.junctions.members j).head? = (b.junctions.members j).head?
    rw [hj.members (h.held hslot) hne]

include hexact

/-- The place of `e` keeps its slot, and `e` comes last in it. -/
theorem slot_of_joined_self (hlead : b.table.Leads ((m.cell e).bucket b.table.size) i)
    (hy : y ∈ seen ++ [e]) (hye : m.coincides y e = true) :
    b'.table.Leads ((m.cell y).bucket b'.table.size) i ∧
      b'.Shape (m.place (seen ++ [e]) y) (b'.table.get i) ∧
      ∀ k x, exemplar? b' (b'.table.get k) = some x → m.coincides y x = true → k = i := by
  have hsub : seen ⊆ seen ++ [e] := List.subset_append_left seen [e]
  have hmem : e ∈ seen ++ [e] := List.mem_append_right seen (List.mem_singleton_self e)
  refine ⟨?_, ?_, fun k x hx hyx => ?_⟩
  · rw [hexact.cell hy hmem hye, hj.size]
    exact hj.leads hlead
  · rw [place_concat, if_pos hye, hexact.place_eq hsub hy hmem hye]
    exact hj.shape
  · by_contra hki
    rw [exemplar_of_joined h hshape honly hj hki] at hx
    have hxs := hsub (h.sound.mem_of_exemplar hx)
    exact hki (honly k x hx (hexact.trans hmem hy hxs (hexact.symm hy hmem hye) hyx))

/-- Another place keeps its slot and stays as it is. -/
theorem slot_of_joined_other (he : e ∉ seen) (hy : y ∈ seen) (hye : m.coincides y e ≠ true) :
    ∃ k, b'.table.Leads ((m.cell y).bucket b'.table.size) k ∧
      b'.Shape (m.place (seen ++ [e]) y) (b'.table.get k) ∧
      ∀ n x, exemplar? b' (b'.table.get n) = some x → m.coincides y x = true → n = k := by
  have hsub : seen ⊆ seen ++ [e] := List.subset_append_left seen [e]
  have hmem : e ∈ seen ++ [e] := List.mem_append_right seen (List.mem_singleton_self e)
  obtain ⟨w, hw, hexw⟩ := hshape.exemplar
  have hew := (mem_place.1 hw).2
  -- nothing is in both places
  have hapart {x : Endpoint} (hx : x ∈ seen ++ [e]) (hyx : m.coincides y x = true) :
      m.coincides e x ≠ true := fun hex =>
    hye (hexact.trans (hsub hy) hx hmem hyx (hexact.symm hmem hx hex))
  obtain ⟨k, hk, hs, honly'⟩ := h.slot hy
  have hki : k ≠ i := fun hki => by
    obtain ⟨x, hx, hexx⟩ := hs.exemplar
    obtain ⟨hxs, hyx⟩ := mem_place.1 hx
    rw [hki, hexw] at hexx
    cases hexx
    exact hapart (hsub hxs) hyx hew
  refine ⟨k, ?_, ?_, fun n x hx hyx => ?_⟩
  · rw [hj.size]
    exact hj.leads hk
  · rw [place_concat, if_neg hye, List.append_nil, hj.other hki]
    refine hs.congr (fun x hx => ?_) fun j hkj => ?_
    · obtain ⟨hxs, hyx⟩ := mem_place.1 hx
      refine hj.links (fun hxe => ?_) fun hxe => he (hxe ▸ hxs)
      exact hapart (hsub hxs) hyx (mem_place.1 hxe).2
    · refine hj.members (h.held hkj) fun hij => hki ?_
      rw [hij, ← hkj] at hexw
      exact honly k w hexw hew
  · by_cases hni : n = i
    · obtain ⟨x', hx', hexx'⟩ := hj.shape.exemplar
      rw [hni, hexx'] at hx
      cases hx
      rcases List.mem_append.1 hx' with hx' | hx'
      · exact absurd (mem_place.1 hx').2 (hapart (hsub (mem_place.1 hx').1) hyx)
      · rw [List.mem_singleton.1 hx'] at hyx
        exact absurd hyx hye
    · rw [exemplar_of_joined h hshape honly hj hni] at hx
      exact honly' n x hx hyx

theorem grouped_join (he : e ∉ seen) (hsound : b'.Sound count (seen ++ [e]))
    (hlead : b.table.Leads ((m.cell e).bucket b.table.size) i) :
    m.Grouped count (seen ++ [e]) b' := by
  have hmem : e ∈ seen ++ [e] := List.mem_append_right seen (List.mem_singleton_self e)
  refine ⟨hsound, hj.size ▸ h.size, ?_, fun {k j} hk => ?_, fun {y} hy => ?_⟩
  · have := h.room
    have := hj.occupied
    rw [List.length_append]
    omega
  · by_cases hki : k = i
    · have hs := hj.shape
      rw [← hki, hk] at hs
      exact hs.members_ne_nil
    · rw [hj.other hki] at hk
      obtain ⟨x, hx⟩ := List.exists_mem_of_ne_nil _ (h.held hk)
      exact List.ne_nil_of_mem (hj.grown hx)
  · by_cases hye : m.coincides y e = true
    · exact ⟨i, slot_of_joined_self h hexact hshape honly hj hlead hy hye⟩
    · refine slot_of_joined_other h hexact hshape honly hj he ?_ hye
      rcases List.mem_append.1 hy with hy | hy
      · exact hy
      · rw [List.mem_singleton.1 hy] at hye
        exact absurd (m.coincides_self e) hye

end Tying

/-! ## The first pass -/

theorem grouped_occupy (h : m.Grouped count seen b) (hexact : m.Exact (seen ++ [e]))
    (hsound : (b.occupy i (.endpoint e)).Sound count (seen ++ [e])) (hi : i < b.table.size)
    (hempty : b.table.get i = .empty)
    (hlead : b.table.Leads ((m.cell e).bucket b.table.size) i)
    (hnew : ∀ x ∈ seen, m.coincides e x ≠ true) :
    m.Grouped count (seen ++ [e]) (b.occupy i (.endpoint e)) := by
  have hsub : seen ⊆ seen ++ [e] := List.subset_append_left seen [e]
  have hmem : e ∈ seen ++ [e] := List.mem_append_right seen (List.mem_singleton_self e)
  have hget (k : Nat) : (b.occupy i (.endpoint e)).table.get k =
      if k = i then .endpoint e else b.table.get k := CellTable.get_set hi k
  have hlead' {x k : Nat} (hl : b.table.Leads x k) :
      (b.occupy i (.endpoint e)).table.Leads x k := hl.set hi (by simp)
  have hfree : (b.occupy i (.endpoint e)).links.get e = .unpaired :=
    h.sound.unpaired_of_not_mem fun he => hnew e he (m.coincides_self e)
  have hsize : (b.occupy i (.endpoint e)).table.size = b.table.size := CellTable.size_set
  refine ⟨hsound, hsize ▸ h.size, ?_, fun {k j} hk => ?_, fun {y} hy => ?_⟩
  · have hroom : (b.table.set i (.endpoint e)).occupied ≤ b.table.occupied + 1 :=
      CellTable.occupied_set_succ_le hi
    have := h.room
    rw [List.length_append, List.length_singleton]
    exact Nat.le_trans hroom (by omega)
  · rw [hget] at hk
    split at hk
    · cases hk
    · exact h.held hk
  · rw [place_concat, hsize]
    rcases List.mem_append.1 hy with hys | hye
    · have hye : m.coincides y e ≠ true := fun hye => hnew y hys (hexact.symm hy hmem hye)
      obtain ⟨k, hk, hs, honly⟩ := h.slot hys
      have hki : k ≠ i := fun hki => hs.ne_empty (by rw [hki, hempty])
      refine ⟨k, hlead' hk, ?_, fun n x hx hyx => ?_⟩
      · rw [if_neg hye, List.append_nil, hget, if_neg hki]
        exact hs.congr (fun _ _ => rfl) fun _ _ => rfl
      · rw [hget] at hx
        split at hx
        · cases hx
          exact absurd hyx hye
        · exact honly n x hx hyx
    · obtain rfl := List.mem_singleton.1 hye
      have hnone : m.place seen y = [] :=
        List.filter_eq_nil_iff.2 fun x hx => hnew x hx
      refine ⟨i, hlead' hlead, ?_, fun n x hx hyx => ?_⟩
      · rw [if_pos (m.coincides_self y), hnone, hget, if_pos rfl]
        exact .single hfree
      · rw [hget] at hx
        split at hx
        · assumption
        · exact absurd hyx (hnew x (h.sound.mem_of_exemplar hx))

/-- An endpoint is tied to the slot of its place, or gets a slot of its own if its place has
none. -/
theorem register_cases (h : m.Grouped count seen b) (hexact : m.Exact (seen ++ [e]))
    (hcount : seen.length ≤ count) (he : e ∉ seen) :
    (∃ i, m.register b e = b.join e i ∧ b.table.Leads ((m.cell e).bucket b.table.size) i ∧
      b.Shape (m.place seen e) (b.table.get i) ∧
      ∀ k x, exemplar? b (b.table.get k) = some x → m.coincides e x = true → k = i) ∨
    ∃ i, m.register b e = b.occupy i (.endpoint e) ∧ i < b.table.size ∧ b.table.get i = .empty ∧
      b.table.Leads ((m.cell e).bucket b.table.size) i ∧ m.place seen e = [] := by
  have hsub : seen ⊆ seen ++ [e] := List.subset_append_left seen [e]
  have hmem : e ∈ seen ++ [e] := List.mem_append_right seen (List.mem_singleton_self e)
  have hprobe := probe_zero m b e
  rw [register]
  by_cases hex : ∃ a ∈ seen, m.coincides e a = true
  · obtain ⟨a, ha, hea⟩ := hex
    obtain ⟨i, hlead, hshape, honly⟩ := h.slot ha
    rw [← hexact.cell hmem (hsub ha) hea] at hlead
    rw [← hexact.place_eq hsub hmem (hsub ha) hea] at hshape
    have honly' (k : Nat) (x : Endpoint) (hx : exemplar? b (b.table.get k) = some x)
        (hex : m.coincides e x = true) : k = i := by
      refine honly k x hx ?_
      exact hexact.trans (hsub ha) hmem (hsub (h.sound.mem_of_exemplar hx))
        (hexact.symm hmem (hsub ha) hea) hex
    have hnot : e ∉ m.place seen e := fun hmem => he (mem_place.1 hmem).1
    obtain ⟨x, hx, hexx⟩ := hshape.exemplar
    have hmatch : m.matching e x = true :=
      (coincides_iff.1 (mem_place.1 hx).2).resolve_left fun hxe => hnot (hxe ▸ hx)
    have hacc : m.accepts b e (b.table.get i) = true :=
      accepts_iff.2 ⟨hshape.ne_endpoint hnot, x, hexx, hmatch⟩
    have hfound : m.probe b e ⟨0, 0, 0⟩ = .found i := by
      rw [hprobe]
      refine CellTable.found_of_leads hlead hshape.ne_empty hacc fun k _ hk => ?_
      obtain ⟨-, x, hx, hex⟩ := accepts_iff.1 hk
      exact honly' k x hx (coincides_of_matching hex)
    rw [hfound]
    exact .inl ⟨i, rfl, hlead, hshape, honly'⟩
  · have hnew : ∀ x ∈ seen, m.coincides e x ≠ true := fun x hx hex' => hex ⟨x, hx, hex'⟩
    have hroom := CellTable.exists_empty (Nat.lt_of_le_of_lt (Nat.le_trans h.room hcount) h.size)
    cases hp : m.probe b e ⟨0, 0, 0⟩ with
    | found i =>
      obtain ⟨-, -, hacc⟩ := CellTable.found_spec (hprobe ▸ hp)
      obtain ⟨-, x, hx, hex'⟩ := accepts_iff.1 hacc
      exact absurd (coincides_of_matching hex') (hnew x (h.sound.mem_of_exemplar hx))
    | vacant i =>
      obtain ⟨hi, hempty, hlead, -⟩ := CellTable.vacant_spec hroom (hprobe ▸ hp)
      exact .inr ⟨i, rfl, hi, hempty, hlead, List.filter_eq_nil_iff.2 hnew⟩

theorem grouped_register (h : m.Grouped count seen b) (hexact : m.Exact (seen ++ [e]))
    (hrange : ∀ a ∈ seen ++ [e], a.index < count) (hlen : (seen ++ [e]).length < 0x100000000)
    (hcount : seen.length ≤ count) (he : e ∉ seen) :
    m.Grouped count (seen ++ [e]) (m.register b e) := by
  have hsound := sound_register (m := m) h.sound hrange hlen he
  have hsub : seen ⊆ seen ++ [e] := List.subset_append_left seen [e]
  have hmem : e ∈ seen ++ [e] := List.mem_append_right seen (List.mem_singleton_self e)
  rcases register_cases h hexact hcount he with
    ⟨i, hregister, hlead, hshape, honly⟩ | ⟨i, hregister, hi, hempty, hlead, hnone⟩
  · rw [hregister] at hsound ⊢
    refine grouped_join h hexact hshape honly ?_ he hsound hlead
    refine Bonds.joined_join h.sound (fun a ha => hrange a (hsub ha)) ?_ hshape
      (fun x hx => (mem_place.1 hx).1) he (hrange e hmem)
    rw [List.length_append] at hlen
    omega
  · rw [hregister] at hsound ⊢
    exact grouped_occupy h hexact hsound hi hempty hlead (List.filter_eq_nil_iff.1 hnone)

theorem grouped_empty (m : Matcher α) (count slotsPerEndpoint : Nat) :
    m.Grouped count [] (.empty count slotsPerEndpoint) := by
  refine ⟨Bonds.Sound.initial .., CellTable.lt_size_empty .., ?_, fun {i j} h => ?_, fun he => ?_⟩
  · exact Nat.le_of_eq (CellTable.occupied_empty ..)
  · have hempty : (Bonds.empty count slotsPerEndpoint).table.get i = .empty :=
      CellTable.get_empty ..
    rw [hempty] at h
    cases h
  · cases he

section

variable (hexact : m.Exact es) (hrange : ∀ a ∈ es, a.index < count) (hcount : es.length ≤ count)
  (hlt : count < 0x100000000)

include hexact hrange hcount hlt

theorem Grouped.step (h : m.Grouped count seen b) (hes : seen ++ [e] <+: es) (he : e ∉ seen) :
    m.Grouped count (seen ++ [e]) (m.register b e) := by
  have hlen := Nat.le_trans hes.length_le hcount
  refine grouped_register h (hexact.mono hes.subset) (fun a ha => hrange a (hes.subset ha))
    (Nat.lt_of_le_of_lt hlen hlt) ?_ he
  rw [List.length_append] at hlen
  omega

theorem grouped_registerAll (h : m.Grouped count [] b) (hnodup : es.Nodup) :
    m.Grouped count es (m.registerAll b es) :=
  registerAll_induction hnodup h fun _ _ _ hes he hb => hb.step hexact hrange hcount hlt hes he

end

/-! ## Places of one and of two -/

theorem Grouped.unpaired_of_alone (h : m.Grouped count es b) (hnodup : es.Nodup) (he : e ∈ es)
    (halone : ∀ a ∈ es, m.coincides e a = true → a = e) : b.links.get e = .unpaired := by
  have hn : (m.place es e).Nodup := hnodup.filter _
  have honly {a : Endpoint} (ha : a ∈ m.place es e) : a = e :=
    halone a (mem_place.1 ha).1 (mem_place.1 ha).2
  obtain ⟨i, -, hshape, -⟩ := h.slot he
  generalize m.place es e = g at hshape hn honly
  generalize b.table.get i = slot at hshape
  cases hshape with
  | @single x hx => rwa [honly List.mem_cons_self] at hx
  | @pair x y =>
    have hx := honly List.mem_cons_self
    have hy := honly (List.mem_cons_of_mem x List.mem_cons_self)
    rw [hx, hy] at hn
    simp at hn
  | @junction x y z rest =>
    have hx := honly List.mem_cons_self
    have hy := honly (List.mem_cons_of_mem x List.mem_cons_self)
    rw [hx, hy] at hn
    simp at hn

theorem Grouped.linked_of_two (h : m.Grouped count es b) (hnodup : es.Nodup) (he : e ∈ es)
    (hx : x ∈ es) (hex : m.coincides e x = true) (hne : x ≠ e)
    (htwo : ∀ a ∈ es, m.coincides e a = true → a = e ∨ a = x) : b.links.get e = .endpoint x := by
  have hn : (m.place es e).Nodup := hnodup.filter _
  have hmem : e ∈ m.place es e := mem_place.2 ⟨he, m.coincides_self e⟩
  have hmem' : x ∈ m.place es e := mem_place.2 ⟨hx, hex⟩
  have honly {a : Endpoint} (ha : a ∈ m.place es e) : a = e ∨ a = x :=
    htwo a (mem_place.1 ha).1 (mem_place.1 ha).2
  obtain ⟨i, -, hshape, -⟩ := h.slot he
  generalize m.place es e = g at hshape hn hmem hmem' honly
  generalize b.table.get i = slot at hshape
  cases hshape with
  | single => exact absurd ((List.mem_singleton.1 hmem').trans (List.mem_singleton.1 hmem).symm) hne
  | @pair a b ha hb =>
    simp only [List.mem_cons, List.not_mem_nil, or_false] at hmem hmem'
    rcases hmem with rfl | rfl
    · rcases hmem' with rfl | rfl
      · exact absurd rfl hne
      · exact ha
    · rcases hmem' with rfl | rfl
      · exact hb
      · exact absurd rfl hne
  | @junction a b c rest =>
    -- three different endpoints cannot all be one of two
    have ha := @honly a (by simp)
    have hb := @honly b (by simp)
    have hc := @honly c (by simp)
    simp only [List.nodup_cons, List.mem_cons, not_or] at hn
    grind

/-- Where no three endpoints are in one place, two of one place are linked to each other, and
nothing else is linked. -/
theorem Grouped.get_eq_iff (h : m.Grouped count es b) (hnodup : es.Nodup)
    (hpairs : ∀ e ∈ es, ∀ x ∈ es, ∀ y ∈ es, m.coincides e x = true → m.coincides e y = true →
      e = x ∨ e = y ∨ x = y) (e : Endpoint) :
    (∀ j, b.links.get e ≠ .junction j) ∧
      ∀ x, b.links.get e = .endpoint x ↔ (e ∈ es ∧ x ∈ es) ∧ x ≠ e ∧ m.coincides e x = true := by
  have hone {x a : Endpoint} (he : e ∈ es) (hx : x ∈ es) (hex : m.coincides e x = true)
      (hne : x ≠ e) (ha : a ∈ es) (hea : m.coincides e a = true) : a = e ∨ a = x := by
    rcases hpairs e he a ha x hx hea hex with hea | hex | hax
    · exact .inl hea.symm
    · exact absurd hex.symm hne
    · exact .inr hax
  by_cases hfree : b.links.get e = .unpaired
  · rw [hfree]
    refine ⟨by simp, fun x => ⟨by simp, fun ⟨⟨he, hx⟩, hne, hex⟩ => ?_⟩⟩
    rw [← hfree]
    exact h.linked_of_two hnodup he hx hex hne fun a ha hea => hone he hx hex hne ha hea
  · -- what is linked is not alone, so that it has a partner, and no other
    have he : e ∈ es := by
      by_contra he
      exact hfree (h.sound.unpaired_of_not_mem he)
    obtain ⟨x, hx, hex, hne⟩ : ∃ x ∈ es, m.coincides e x = true ∧ x ≠ e := by
      by_contra halone
      refine hfree (h.unpaired_of_alone hnodup he fun a ha hea => ?_)
      by_contra hne
      exact halone ⟨a, ha, hea, hne⟩
    have hget := h.linked_of_two hnodup he hx hex hne fun a ha hea => hone he hx hex hne ha hea
    rw [hget]
    refine ⟨by simp, fun a => ⟨fun ha => ?_, fun ⟨⟨_, ha⟩, hae, hea⟩ => ?_⟩⟩
    · rw [← Link.endpoint.inj ha]
      exact ⟨⟨he, hx⟩, hne, hex⟩
    · rw [(hone he hx hex hne ha hea).resolve_left hae]

/-! ## The second pass -/

/-- No search of the second pass finds anything. -/
theorem sweep?_of_grouped (h : m.Grouped count es b) (he : e ∈ es)
    (hf : b.links.get e = .unpaired) : m.sweep? b e = none := by
  rw [sweep?, List.findSome?_eq_none_iff]
  intro offset _
  rw [sweepCell?]
  split
  · rename_i i hi
    obtain ⟨-, -, hacc⟩ := CellTable.found_spec hi
    obtain ⟨hne, x, hx, hex⟩ := accepts_iff.1 hacc
    obtain ⟨k, -, hshape, honly⟩ := h.slot he
    obtain rfl := honly i x hx (coincides_of_matching hex)
    have hmem : e ∈ m.place es e := mem_place.2 ⟨he, m.coincides_self e⟩
    exact absurd (hshape.of_unpaired h.sound.tied hmem hf).2 hne
  · rfl

/-- The second pass ties nothing and reports what is free, by induction on the endpoints it comes
through. -/
theorem finishAll_of_grouped (h : m.Grouped count es b) {es' : List Endpoint}
    (hsub : es' ⊆ es) (notices : Array (Notice α)) :
    m.finishAll ⟨b, notices⟩ es' = ⟨b, notices ++
      ((es'.filter fun e => b.links.get e = .unpaired).map m.unmatchedNotice).toArray⟩ := by
  induction es' generalizing notices with
  | nil => simp [finishAll]
  | cons e es' ih =>
    rw [List.cons_subset] at hsub
    have hstep : m.finishAll ⟨b, notices⟩ (e :: es') =
        m.finishAll (m.finish ⟨b, notices⟩ e) es' := rfl
    rw [hstep, finish]
    dsimp only
    by_cases hf : b.links.get e = .unpaired
    · rw [if_neg (not_not.2 hf), sweep?_of_grouped h hsub.1 hf]
      dsimp only
      rw [ih hsub.2, List.filter_cons_of_pos (by simpa using hf), List.map_cons]
      simp [unmatchedNotice]
    · rw [if_pos hf, ih hsub.2, List.filter_cons_of_neg (by simpa using hf)]

end Matcher

namespace Matching

variable {α : Type} [Scalar α] {s : Segments α} {settings : Settings α} {e : Endpoint}

/-- The bonds after the first pass. -/
def registered (s : Segments α) (settings : Settings α) : Bonds :=
  Matcher.registerAll ⟨s, settings.matching, settings.cellScale⟩
    (.empty s.size settings.slotsPerEndpoint) (participants s settings.matching)

section

variable (hs : s.size < 0x100000000)
  (hexact : Matcher.Exact ⟨s, settings.matching, settings.cellScale⟩
    (participants s settings.matching))

include hs hexact

/-- What becomes of every place when endpoints match exactly if they are in the same one. -/
theorem grouped_registered : Matcher.Grouped ⟨s, settings.matching, settings.cellScale⟩ s.size
    (participants s settings.matching) (registered s settings) :=
  Matcher.grouped_registerAll hexact (range_participants _ (Nat.le_of_lt hs))
    (length_participants_le s _) hs (Matcher.grouped_empty ..)
    (nodup_participants (Nat.le_of_lt hs))

/-- The second pass adds nothing, and the endpoints reported are those that are free. -/
theorem ofSegments_of_exact : ofSegments s settings =
    ({ segments := s
       excluded := exclusions s settings.matching
       links := (registered s settings).links
       junctions := (registered s settings).junctions },
     (((participants s settings.matching).filter fun e =>
        (registered s settings).links.get e = .unpaired).map
          (Matcher.unmatchedNotice ⟨s, settings.matching, settings.cellScale⟩)).toArray) := by
  have hfinish := Matcher.finishAll_of_grouped (grouped_registered hs hexact)
    (List.Subset.refl _) #[]
  rw [Array.empty_append, registered] at hfinish
  rw [ofSegments, hfinish]
  rfl

end

end Matching

end DoubleCurve
