import DoubleCurve.Proofs.Matching.Ties

/-!
# Gathering merges junctions

`Bonds.gather` may reach two junctions, and it links up to four endpoints of which
some can be the same. `Bonds.Gathers` says what becomes of the bonds, whatever the
slot holds: one of the junctions that are reached, or a new one, gets the members of
the others and those who come (`Bonds.comers`), the others are left empty, and all
else stays. `Bonds.Agree` is kept: links to endpoints are returned, and links to
junctions are memberships.

A gathering is made of two steps, and each has a relation that tells what it changes:

* `Bonds.Merges`: the members of some junctions move to another one;
* `Bonds.Admits`: endpoints join a junction, and endpoints are linked to it.

`Bonds.gathers_gather` is the step, and `Bonds.agree_gatherAll` a run of gatherings:
who shares a junction goes on sharing one.
-/

namespace DoubleCurve

namespace Bonds

variable {b c d : Bonds} {e x y : Endpoint} {i : Nat} {j k : Junction} {ks ks' : List Junction}
  {es es' fs fs' : List Endpoint} {slot : Slot}

/-- Links to endpoints are returned, and links to junctions are memberships. -/
structure Agree (b : Bonds) : Prop where
  returned {x y : Endpoint} : b.links.get x = .endpoint y → b.links.get y = .endpoint x
  mem_iff {x : Endpoint} {j : Junction} : x ∈ b.junctions.members j ↔ b.links.get x = .junction j
  nodup (j : Junction) : (b.junctions.members j).Nodup

namespace Agree

theorem of_tied {part : List Endpoint} (h : Tied part b.links b.junctions) : b.Agree :=
  ⟨h.returned, h.mem_iff, h.nodup⟩

theorem index_lt (h : b.Agree) (hx : x ∈ b.junctions.members j) : x.index < b.links.entries.size :=
  Links.index_lt_of_get_ne (by rw [h.mem_iff.1 hx]; simp)

theorem lt_size (h : b.Agree) (hx : b.links.get x = .junction j) : j.index < b.junctions.size :=
  Junctions.index_lt_of_members_ne (List.ne_nil_of_mem (h.mem_iff.2 hx))

end Agree

/-! ## Merging -/

/-- Whether `c` is what becomes of `b` when the members of `ks` move to `j`, which may be new. -/
structure Merges (b : Bonds) (j : Junction) (ks : List Junction) (c : Bonds) : Prop where
  table : c.table = b.table
  size_links : c.links.entries.size = b.links.entries.size
  size_le : b.junctions.size ≤ c.junctions.size
  index_lt : j.index < c.junctions.size
  not_mem : j ∉ ks
  mem {x : Endpoint} : x ∈ c.junctions.members j ↔
    x ∈ b.junctions.members j ∨ ∃ k ∈ ks, x ∈ b.junctions.members k
  emptied {k : Junction} : k ∈ ks → c.junctions.members k = []
  kept {k : Junction} : k ∉ ks → k ≠ j → c.junctions.members k = b.junctions.members k
  get {x : Endpoint} : (∀ k ∈ ks, x ∉ b.junctions.members k) → c.links.get x = b.links.get x
  agree : c.Agree

namespace Merges

theorem refl (h : b.Agree) (hj : j.index < b.junctions.size) : b.Merges j [] b where
  table := rfl
  size_links := rfl
  size_le := Nat.le_refl _
  index_lt := hj
  not_mem := List.not_mem_nil
  mem := by simp
  emptied hk := absurd hk List.not_mem_nil
  kept _ _ := rfl
  get _ := rfl
  agree := h

theorem trans (h : b.Merges j ks c) (h' : c.Merges j ks' d) : b.Merges j (ks ++ ks') d where
  table := h'.table.trans h.table
  size_links := h'.size_links.trans h.size_links
  size_le := Nat.le_trans h.size_le h'.size_le
  index_lt := h'.index_lt
  not_mem := by
    rw [List.mem_append, not_or]
    exact ⟨h.not_mem, h'.not_mem⟩
  mem {x} := by
    rw [h'.mem, h.mem]
    constructor
    · rintro ((hx | ⟨k, hk, hx⟩) | ⟨k, hk, hx⟩)
      · exact .inl hx
      · exact .inr ⟨k, List.mem_append_left ks' hk, hx⟩
      · by_cases hks : k ∈ ks
        · rw [h.emptied hks] at hx
          cases hx
        · rw [h.kept hks fun hkj => h'.not_mem (hkj ▸ hk)] at hx
          exact .inr ⟨k, List.mem_append_right ks hk, hx⟩
    · rintro (hx | ⟨k, hk, hx⟩)
      · exact .inl (.inl hx)
      · by_cases hks : k ∈ ks
        · exact .inl (.inr ⟨k, hks, hx⟩)
        · have hk' : k ∈ ks' := (List.mem_append.1 hk).resolve_left hks
          rw [← h.kept hks fun hkj => h'.not_mem (hkj ▸ hk')] at hx
          exact .inr ⟨k, hk', hx⟩
  emptied {k} hk := by
    by_cases hk' : k ∈ ks'
    · exact h'.emptied hk'
    · have hks := (List.mem_append.1 hk).resolve_right hk'
      rw [h'.kept hk' fun hkj => h.not_mem (hkj ▸ hks), h.emptied hks]
  kept {k} hk hkj := by
    rw [List.mem_append, not_or] at hk
    rw [h'.kept hk.2 hkj, h.kept hk.1 hkj]
  get {x} hx := by
    rw [h'.get, h.get fun k hk => hx k (List.mem_append_left ks' hk)]
    intro k hk hxk
    by_cases hks : k ∈ ks
    · rw [h.emptied hks] at hxk
      cases hxk
    · rw [h.kept hks fun hkj => h'.not_mem (hkj ▸ hk)] at hxk
      exact hx k (List.mem_append_right ks hk) hxk
  agree := h'.agree

/-- Who is not linked to a junction that is merged keeps its link, and nobody is linked to one. -/
theorem get_cases (h : b.Merges j ks c) (hb : b.Agree) (x : Endpoint) :
    c.links.get x = b.links.get x ∧ (∀ k ∈ ks, b.links.get x ≠ .junction k) ∨
      c.links.get x = .junction j ∧ ∃ k ∈ ks, b.links.get x = .junction k := by
  by_cases hx : ∃ k ∈ ks, x ∈ b.junctions.members k
  · obtain ⟨k, hk, hxk⟩ := hx
    exact .inr ⟨h.agree.mem_iff.1 (h.mem.2 (.inr ⟨k, hk, hxk⟩)), k, hk, hb.mem_iff.1 hxk⟩
  · have hout (k : Junction) (hk : k ∈ ks) : x ∉ b.junctions.members k := fun hxk => hx ⟨k, hk, hxk⟩
    exact .inl ⟨h.get hout, fun k hk hxk => hout k hk (hb.mem_iff.2 hxk)⟩

/-- Nobody finds or loses a partner. -/
theorem endpoint?_get (h : b.Merges j ks c) (hb : b.Agree) (x : Endpoint) :
    (c.links.get x).endpoint? = (b.links.get x).endpoint? := by
  rcases h.get_cases hb x with ⟨hx, -⟩ | ⟨hx, k, -, hxk⟩
  · rw [hx]
  · rw [hx, hxk]
    rfl

/-- Who was linked to one of the junctions is linked to `j`. -/
theorem eq_of_get (h : b.Merges j ks c) (hb : b.Agree)
    (hx : ∀ k, b.links.get x = .junction k → k = j ∨ k ∈ ks)
    (hc : c.links.get x = .junction k) : k = j := by
  rcases h.get_cases hb x with ⟨hxc, hks⟩ | ⟨hxc, -⟩
  · rw [hxc] at hc
    exact (hx k hc).resolve_right fun hk => hks k hk hc
  · rw [hxc] at hc
    exact (Link.junction.inj hc).symm

end Merges

/-- A new junction has nobody to take in. -/
theorem merges_allocate (h : b.Agree) :
    b.Merges b.junctions.allocate.1 [] { b with junctions := b.junctions.allocate.2 } := by
  have hsize : b.junctions.allocate.2.size = b.junctions.size + 1 := Junctions.size_allocate
  have hmembers (k : Junction) :
      b.junctions.allocate.2.members k = b.junctions.members k := Junctions.members_allocate k
  refine ⟨rfl, rfl, ?_, ?_, List.not_mem_nil, ?_, fun hk => absurd hk List.not_mem_nil,
    fun _ _ => hmembers _, fun _ => rfl, h.returned, fun {x k} => ?_, fun k => ?_⟩
  · exact hsize ▸ Nat.le_succ _
  · exact hsize ▸ Nat.lt_succ_of_le (Junction.index_ofIndex_le _)
  · simp [hmembers]
  · exact hmembers k ▸ h.mem_iff
  · exact hmembers k ▸ h.nodup k

theorem get_absorb (h : b.Agree) (j k : Junction) (x : Endpoint) :
    (absorb j b k).links.get x =
      if x ∈ b.junctions.members k then .junction j else b.links.get x :=
  Links.get_foldl_set (fun _ hx => h.index_lt hx) x

theorem size_junctions_absorb (b : Bonds) (j k : Junction) :
    (absorb j b k).junctions.size = b.junctions.size := by
  rw [absorb, Junctions.size_add, Junctions.size_clear]

theorem mem_members_absorb (hj : j.index < b.junctions.size) (hk : k ≠ j) :
    x ∈ (absorb j b k).junctions.members j ↔
      x ∈ b.junctions.members j ∨ x ∈ b.junctions.members k := by
  rw [absorb, Junctions.mem_members_add (by rwa [Junctions.size_clear]), Junctions.members_clear,
    if_neg hk.symm]

theorem members_absorb_of_ne {l : Junction} (hl : l ≠ j) :
    (absorb j b k).junctions.members l = if l = k then [] else b.junctions.members l := by
  rw [absorb, Junctions.members_add_of_ne hl.symm, Junctions.members_clear]

theorem agree_absorb (h : b.Agree) (hj : j.index < b.junctions.size) (hk : k ≠ j) :
    (absorb j b k).Agree := by
  refine ⟨fun {x y} hxy => ?_, fun {x l} => ?_, fun l => ?_⟩
  · -- who is linked to an endpoint is no member, and so neither of the two has moved
    rw [get_absorb h] at hxy ⊢
    split at hxy
    · cases hxy
    · have hyx := h.returned hxy
      have hy : y ∉ b.junctions.members k := by
        rw [h.mem_iff, hyx]
        simp
      rw [if_neg hy, hyx]
  · have hkx := @h.mem_iff x k
    have hlx := @h.mem_iff x l
    rw [get_absorb h]
    by_cases hl : l = j
    · subst hl
      rw [mem_members_absorb hj hk]
      grind
    · rw [members_absorb_of_ne hl]
      grind
  · by_cases hl : l = j
    · subst hl
      refine Junctions.nodup_members_add (by rwa [Junctions.size_clear]) ?_
      rw [Junctions.members_clear, if_neg hk.symm]
      exact h.nodup l
    · rw [members_absorb_of_ne hl]
      split
      · exact List.nodup_nil
      · exact h.nodup l

theorem merges_absorb (h : b.Agree) (hj : j.index < b.junctions.size) (hk : k ≠ j) :
    b.Merges j [k] (absorb j b k) where
  table := rfl
  size_links := Links.size_foldl_set _
  size_le := Nat.le_of_eq (size_junctions_absorb b j k).symm
  index_lt := (size_junctions_absorb b j k).symm ▸ hj
  not_mem := by simpa using hk.symm
  mem := by simp [mem_members_absorb hj hk]
  emptied {l} hl := by
    rw [List.mem_singleton] at hl
    rw [members_absorb_of_ne (hl ▸ hk), if_pos hl]
  kept {l} hl hlj := by
    rw [List.mem_singleton] at hl
    rw [members_absorb_of_ne hlj, if_neg hl]
  get {x} hx := by rw [get_absorb h, if_neg (hx k (List.mem_singleton_self k))]
  agree := agree_absorb h hj hk

/-- Several junctions are merged into another, one after the other. -/
theorem merges_foldl_absorb (h : b.Agree) (hj : j.index < b.junctions.size) (hks : j ∉ ks) :
    b.Merges j ks (ks.foldl (absorb j) b) := by
  induction ks generalizing b with
  | nil => exact .refl h hj
  | cons k ks ih =>
    rw [List.mem_cons, not_or] at hks
    have hstep := merges_absorb h hj (Ne.symm hks.1)
    exact hstep.trans (ih hstep.agree hstep.index_lt hks.2)

/-! ## Admitting -/

/-- Whether `c` is what becomes of `b` when `es` join `j` and `fs` are linked to it. -/
structure Admits (b : Bonds) (j : Junction) (es fs : List Endpoint) (c : Bonds) : Prop where
  table : c.table = b.table
  size_links : c.links.entries.size = b.links.entries.size
  size_junctions : c.junctions.size = b.junctions.size
  mem {x : Endpoint} : x ∈ c.junctions.members j ↔ x ∈ b.junctions.members j ∨ x ∈ es
  nodup : (b.junctions.members j).Nodup → (c.junctions.members j).Nodup
  kept {k : Junction} : k ≠ j → c.junctions.members k = b.junctions.members k
  get (x : Endpoint) : c.links.get x = if x ∈ fs then .junction j else b.links.get x

namespace Admits

theorem refl (b : Bonds) (j : Junction) : b.Admits j [] [] b where
  table := rfl
  size_links := rfl
  size_junctions := rfl
  mem := by simp
  nodup := id
  kept _ := rfl
  get x := by rw [if_neg List.not_mem_nil]

theorem trans (h : b.Admits j es fs c) (h' : c.Admits j es' fs' d) :
    b.Admits j (es ++ es') (fs ++ fs') d where
  table := h'.table.trans h.table
  size_links := h'.size_links.trans h.size_links
  size_junctions := h'.size_junctions.trans h.size_junctions
  mem {x} := by rw [h'.mem, h.mem, List.mem_append, or_assoc]
  nodup hn := h'.nodup (h.nodup hn)
  kept hk := (h'.kept hk).trans (h.kept hk)
  get x := by
    rw [h'.get, h.get]
    by_cases hx : x ∈ fs <;> by_cases hx' : x ∈ fs' <;> simp [hx, hx']

/-- One more endpoint is linked. -/
theorem bind (h : b.Admits j es fs c) (he : e.index < b.links.entries.size) :
    b.Admits j es (fs ++ [e]) (c.bind e j) :=
  { h with
    size_links := Links.size_set.trans h.size_links
    get := fun x => by
      have he' : e.index < c.links.entries.size := h.size_links ▸ he
      rw [Bonds.bind, Links.get_set he', h.get]
      by_cases hx : x = e <;> by_cases hx' : x ∈ fs <;> simp [hx, hx'] }

/-- It does not matter in which order they come, nor whether one comes twice. -/
theorem congr (h : b.Admits j es fs c) (hes : ∀ x, x ∈ es ↔ x ∈ es') (hfs : ∀ x, x ∈ fs ↔ x ∈ fs') :
    b.Admits j es' fs' c :=
  { h with
    mem := h.mem.trans (or_congr_right (hes _))
    get := fun x => by
      rw [h.get]
      simp only [hfs] }

/-- If those who join are linked to it, bring their partners and were members of no other junction,
links and junctions agree. -/
theorem agree (h : b.Admits j es es c) (hb : b.Agree)
    (hpartner : ∀ x ∈ es, ∀ y, b.links.get x = .endpoint y → y ∈ es)
    (hmember : ∀ x ∈ es, ∀ k, b.links.get x = .junction k → k = j) : c.Agree where
  returned {x y} hxy := by
    rw [h.get] at hxy ⊢
    split at hxy
    · cases hxy
    · rename_i hx
      have hyx := hb.returned hxy
      rw [if_neg fun hy => hx (hpartner y hy x hyx), hyx]
  mem_iff {x k} := by
    rw [h.get]
    by_cases hk : k = j
    · subst hk
      rw [h.mem, hb.mem_iff]
      split <;> simp_all
    · rw [h.kept hk, hb.mem_iff]
      split
      · rename_i hx
        constructor
        · exact fun hxk => absurd (hmember x hx k hxk) hk
        · exact fun hjk => absurd (Link.junction.inj hjk).symm hk
      · exact Iff.rfl
  nodup k := by
    by_cases hk : k = j
    · exact hk ▸ h.nodup (hb.nodup j)
    · exact h.kept hk ▸ hb.nodup k

end Admits

theorem admits_addMembers (hj : j.index < b.junctions.size) (es : List Endpoint) :
    b.Admits j es [] (b.addMembers j es) where
  table := rfl
  size_links := rfl
  size_junctions := Junctions.size_add
  mem := Junctions.mem_members_add hj
  nodup := Junctions.nodup_members_add hj
  kept hk := Junctions.members_add_of_ne hk.symm
  get x := by rw [if_neg List.not_mem_nil]; rfl

/-- An endpoint and the one it is paired with. -/
def company (b : Bonds) (e : Endpoint) : List Endpoint := e :: (b.links.get e).endpoint?.toList

/-- The endpoint that a slot holds and the one it is paired with. -/
def slotCompany (b : Bonds) : Slot → List Endpoint
  | .endpoint e => b.company e
  | _ => []

/-- Who comes to the junction when `e` and a slot are gathered. -/
def comers (b : Bonds) (slot : Slot) (e : Endpoint) : List Endpoint :=
  b.company e ++ b.slotCompany slot

theorem mem_company_iff : x ∈ b.company e ↔ x = e ∨ b.links.get e = .endpoint x := by
  rw [company, List.mem_cons, Link.mem_toList_endpoint?]

theorem company_of_get (hl : b.links.get e = .endpoint y) : b.company e = [e, y] := by
  rw [company, hl]
  rfl

theorem company_of_endpoint?_get (hl : (b.links.get e).endpoint? = none) : b.company e = [e] := by
  rw [company, hl]
  rfl

theorem mem_company (h : b.Agree) (hx : x ∈ b.company e) (hxy : b.links.get x = .endpoint y) :
    y ∈ b.company e := by
  rw [mem_company_iff] at hx ⊢
  rcases hx with rfl | hx
  · exact .inr hxy
  · rw [h.returned hx, Link.endpoint.injEq] at hxy
    exact .inl hxy.symm

theorem mem_comers (h : b.Agree) (hx : x ∈ b.comers slot e) (hxy : b.links.get x = .endpoint y) :
    y ∈ b.comers slot e := by
  rw [comers, List.mem_append] at hx ⊢
  refine hx.imp (fun hx => mem_company h hx hxy) fun hx => ?_
  cases slot with
  | empty => cases hx
  | junction k => cases hx
  | endpoint z => exact mem_company h hx hxy

/-- Whether everything that a slot names exists. -/
def Names (b : Bonds) : Slot → Prop
  | .empty => True
  | .endpoint x => x.index < b.links.entries.size
  | .junction j => j.index < b.junctions.size

instance (b : Bonds) : DecidablePred b.Names := fun slot => by
  unfold Names
  split <;> infer_instance

theorem Names.mono (h : b.Names slot) (hl : c.links.entries.size = b.links.entries.size)
    (hj : b.junctions.size ≤ c.junctions.size) : c.Names slot := by
  cases slot with
  | empty => trivial
  | endpoint x =>
    change x.index < c.links.entries.size
    rw [hl]
    exact h
  | junction k => exact Nat.lt_of_lt_of_le h hj

/-- The endpoint and its company join, and its partner is linked. -/
theorem admits_enlist (h : b.Agree) (hj : j.index < b.junctions.size) (e : Endpoint) :
    b.Admits j (b.company e) (b.links.get e).endpoint?.toList (b.enlist j e) := by
  rw [enlist]
  split
  · rename_i p hp
    have hback := h.returned hp
    have hrange : p.index < b.links.entries.size := Links.index_lt_of_get_ne (by rw [hback]; simp)
    refine ((admits_addMembers hj _).bind hrange).congr (fun x => ?_) fun x => ?_
    · rw [company_of_get hp, hback]
      simp only [Link.endpoint?, Option.toList, List.mem_append, List.mem_cons, List.not_mem_nil,
        or_false]
      tauto
    · rw [hp]
      rfl
  · rename_i hl
    have hnone := Link.endpoint?_eq_none_iff.2 hl
    rw [hnone, company_of_endpoint?_get hnone]
    exact admits_addMembers hj [e]

/-- The endpoint that a slot holds and its company join and are linked. -/
theorem admits_enlistSlot (hj : j.index < b.junctions.size) (hslot : b.Names slot)
    (hrange : ∀ x y, b.links.get x = .endpoint y → y.index < b.links.entries.size) :
    b.Admits j (b.slotCompany slot) (b.slotCompany slot) (b.enlistSlot j slot) := by
  cases slot with
  | empty => exact .refl b j
  | junction k => exact .refl b j
  | endpoint x =>
    change x.index < b.links.entries.size at hslot
    rw [enlistSlot, slotCompany]
    split
    · rename_i p hp
      have hboth := ((admits_addMembers hj [x, p]).bind (hrange x p hp)).bind hslot
      rw [company_of_get hp]
      refine hboth.congr (fun y => Iff.rfl) fun y => ?_
      simp only [List.nil_append, List.singleton_append, List.mem_pair]
      exact or_comm
    · rename_i hl
      rw [company_of_endpoint?_get (Link.endpoint?_eq_none_iff.2 hl)]
      exact (admits_addMembers hj [x]).bind hslot

/-- The company of a slot is read when the partner of the endpoint is linked already. If the slot
holds that partner, it has no company any more, but then the endpoint has joined before. -/
theorem mem_company_append (h : b.Agree)
    (hc : b.Admits j es (b.links.get e).endpoint?.toList c) :
    x ∈ b.company e ++ c.slotCompany slot ↔ x ∈ b.comers slot e := by
  rw [comers]
  cases slot with
  | empty => exact Iff.rfl
  | junction k => exact Iff.rfl
  | endpoint y =>
    have hy := hc.get y
    rw [slotCompany, slotCompany]
    split at hy
    · rename_i hmem
      have hey := Link.mem_toList_endpoint?.1 hmem
      rw [company_of_get hey, company_of_get (h.returned hey),
        company_of_endpoint?_get (by rw [hy]; rfl)]
      simp only [List.mem_append, List.mem_cons, List.not_mem_nil, or_false]
      tauto
    · rw [company, company, company, hy]

/-- The company of an endpoint joins, the company of a slot joins, and all of them are linked. -/
theorem admits_comers (h : b.Agree) (hj : j.index < b.junctions.size) (hslot : b.Names slot)
    (he : e.index < b.links.entries.size) :
    b.Admits j (b.comers slot e) (b.comers slot e)
      (((b.enlist j e).enlistSlot j slot).bind e j) := by
  have hfirst := admits_enlist h hj e
  generalize b.enlist j e = c at hfirst
  have hpartner (x y : Endpoint) (hxy : c.links.get x = .endpoint y) :
      y.index < c.links.entries.size := by
    rw [hfirst.get] at hxy
    split at hxy
    · cases hxy
    · rw [hfirst.size_links]
      exact Links.index_lt_of_get_ne (by rw [h.returned hxy]; simp)
  have hnames := hslot.mono hfirst.size_links (Nat.le_of_eq hfirst.size_junctions.symm)
  have hsecond := admits_enlistSlot (hfirst.size_junctions ▸ hj) hnames hpartner
  have hcompany (x : Endpoint) : x ∈ b.company e ++ c.slotCompany slot ↔ x ∈ b.comers slot e :=
    mem_company_append h hfirst
  refine ((hfirst.trans hsecond).bind he).congr hcompany fun x => ?_
  rw [← hcompany]
  simp only [company, List.mem_append, List.mem_cons]
  tauto

/-! ## Gathering -/

/-- The junctions that are reached when `e` and a slot are gathered, that of the slot first. -/
def reached (b : Bonds) (slot : Slot) (e : Endpoint) : List Junction :=
  (b.slotJunction? slot).toList ++ (b.links.get e).junction?.toList

theorem meeting_eq (b : Bonds) (slot : Slot) (e : Endpoint) :
    b.meeting slot e =
      match b.reached slot e with
      | [] => (b.junctions.allocate.1, { b with junctions := b.junctions.allocate.2 })
      | j :: others => (j, (others.filter (· ≠ j)).foldl (absorb j) b) := rfl

theorem lt_size_of_mem_reached (h : b.Agree) (hslot : b.Names slot) (hj : j ∈ b.reached slot e) :
    j.index < b.junctions.size := by
  have hlink {x : Endpoint} (hx : j ∈ (b.links.get x).junction?.toList) :
      j.index < b.junctions.size := h.lt_size (Link.mem_toList_junction?.1 hx)
  rw [reached, List.mem_append] at hj
  rcases hj with hj | hj
  · cases slot with
    | empty => simp [slotJunction?] at hj
    | endpoint x => exact hlink hj
    | junction k =>
      simp only [slotJunction?, Option.toList, List.mem_singleton] at hj
      exact hj ▸ hslot
  · exact hlink hj

/-- Whoever comes was a member of a junction that is reached, if of any. -/
theorem mem_reached (h : b.Agree) (hx : x ∈ b.comers slot e) (hj : b.links.get x = .junction j) :
    j ∈ b.reached slot e := by
  -- a partner is linked to an endpoint
  have hself {z : Endpoint} (hz : x ∈ b.company z) : j ∈ (b.links.get z).junction?.toList := by
    rw [mem_company_iff] at hz
    rcases hz with rfl | hz
    · exact Link.mem_toList_junction?.2 hj
    · rw [h.returned hz] at hj
      cases hj
  rw [comers, List.mem_append] at hx
  rw [reached, List.mem_append]
  rcases hx with hx | hx
  · exact .inr (hself hx)
  · cases slot with
    | empty => cases hx
    | junction k => cases hx
    | endpoint z => exact .inl (hself hx)

/-- The junction that is chosen is the first one reached, or a new one, and the others are merged
into it. -/
theorem merges_meeting (h : b.Agree) (hslot : b.Names slot) :
    b.Merges (b.meeting slot e).1 ((b.reached slot e).filter (· ≠ (b.meeting slot e).1))
      (b.meeting slot e).2 := by
  rw [meeting_eq]
  cases hr : b.reached slot e with
  | nil => exact merges_allocate h
  | cons j others =>
    have hj := lt_size_of_mem_reached h hslot (hr ▸ List.mem_cons_self)
    rw [List.filter_cons_of_neg (by simp)]
    exact merges_foldl_absorb h hj (by simp)

/-- Whether `c` is what becomes of `b` when `e` and the slot at a position are gathered in `j`. -/
structure Gathers (b : Bonds) (e : Endpoint) (position : Nat) (j : Junction) (c : Bonds) : Prop where
  /-- The junction is the first one reached, or a new one if none is. -/
  chosen : (b.reached (b.table.get position) e).head? = some j ∨
    b.reached (b.table.get position) e = [] ∧ j = b.junctions.allocate.1
  /-- A junction is added if none is reached. -/
  size_junctions : c.junctions.size =
    if b.reached (b.table.get position) e = [] then b.junctions.size + 1 else b.junctions.size
  index_lt : j.index < c.junctions.size
  /-- It has its members, those of the others that are reached, and those who come. -/
  mem {x : Endpoint} : x ∈ c.junctions.members j ↔ x ∈ b.junctions.members j ∨
    (∃ k ∈ b.reached (b.table.get position) e, x ∈ b.junctions.members k) ∨
    x ∈ b.comers (b.table.get position) e
  emptied {k : Junction} : k ∈ b.reached (b.table.get position) e → k ≠ j →
    c.junctions.members k = []
  kept {k : Junction} : k ∉ b.reached (b.table.get position) e → k ≠ j →
    c.junctions.members k = b.junctions.members k
  size_links : c.links.entries.size = b.links.entries.size
  get {x : Endpoint} : x ∉ c.junctions.members j → c.links.get x = b.links.get x
  size_table : c.table.size = b.table.size
  slot : c.table.get position = .junction j
  slots {k : Nat} : k ≠ position → c.table.get k = b.table.get k

/-- Whether an endpoint and a slot exist, and all that the slot names. -/
structure Gatherable (b : Bonds) (e : Endpoint) (position : Nat) : Prop where
  index_lt : e.index < b.links.entries.size
  lt_size : position < b.table.size
  names : b.Names (b.table.get position)

theorem size_junctions_foldl_absorb (b : Bonds) (j : Junction) (ks : List Junction) :
    (ks.foldl (absorb j) b).junctions.size = b.junctions.size := by
  induction ks generalizing b with
  | nil => rfl
  | cons k ks ih => rw [List.foldl_cons, ih, size_junctions_absorb]

theorem size_junctions_meeting (b : Bonds) (slot : Slot) (e : Endpoint) :
    (b.meeting slot e).2.junctions.size =
      if b.reached slot e = [] then b.junctions.size + 1 else b.junctions.size := by
  rw [meeting_eq]
  cases b.reached slot e with
  | nil => exact Junctions.size_allocate
  | cons j others => exact size_junctions_foldl_absorb ..

/-- The junction of a gathering is the first one reached, or a new one. -/
theorem head?_reached (b : Bonds) (slot : Slot) (e : Endpoint) :
    (b.reached slot e).head? = some (b.meeting slot e).1 ∨
      b.reached slot e = [] ∧ (b.meeting slot e).1 = b.junctions.allocate.1 := by
  rw [meeting_eq]
  cases b.reached slot e with
  | nil => exact .inr ⟨rfl, rfl⟩
  | cons j others => exact .inl rfl

/-- Merging leaves everybody in the same company. -/
theorem Merges.comers_eq (h : b.Merges j ks c) (hb : b.Agree) (slot : Slot) (e : Endpoint) :
    c.comers slot e = b.comers slot e := by
  have hcompany (x : Endpoint) : c.company x = b.company x := by
    rw [company, company, h.endpoint?_get hb]
  cases slot <;> simp only [comers, slotCompany, hcompany]

theorem agree_of_admits (h : b.Agree) (hm : b.Merges j ((b.reached slot e).filter (· ≠ j)) c)
    (ha : c.Admits j (b.comers slot e) (b.comers slot e) d) : d.Agree := by
  refine ha.agree hm.agree (fun x hx y hxy => ?_) fun x hx k hxk => ?_
  · rw [← hm.comers_eq h] at hx ⊢
    exact mem_comers hm.agree hx hxy
  · refine hm.eq_of_get h (fun l hl => ?_) hxk
    by_cases hlj : l = j
    · exact .inl hlj
    · exact .inr (List.mem_filter.2 ⟨mem_reached h hx hl, by simpa using hlj⟩)

/-- Merging and admitting, and a slot that holds the junction from then on. -/
theorem gathers_of_admits (hm : b.Merges j ((b.reached slot e).filter (· ≠ j)) c)
    (ha : c.Admits j (b.comers slot e) (b.comers slot e) d) (hi : i < b.table.size)
    (hslot : b.table.get i = slot)
    (hchosen : (b.reached slot e).head? = some j ∨
      b.reached slot e = [] ∧ j = b.junctions.allocate.1)
    (hsize : c.junctions.size =
      if b.reached slot e = [] then b.junctions.size + 1 else b.junctions.size) :
    b.Gathers e i j (d.occupy i (.junction j)) := by
  have htable : d.table = b.table := ha.table.trans hm.table
  have hmem (k : Junction) : k ∈ (b.reached slot e).filter (· ≠ j) ↔ k ∈ b.reached slot e ∧ k ≠ j := by
    rw [List.mem_filter, decide_eq_true_iff]
  refine ⟨hslot ▸ hchosen, hslot ▸ ha.size_junctions.trans hsize, ?_, fun {x} => ?_,
    fun {k} hk hkj => ?_, fun {k} hk hkj => ?_, ha.size_links.trans hm.size_links, fun {x} hx => ?_,
    ?_, ?_, fun {k} hk => ?_⟩
  · show j.index < d.junctions.size
    rw [ha.size_junctions]
    exact hm.index_lt
  · show x ∈ d.junctions.members j ↔ _
    rw [ha.mem, hm.mem, hslot, ← or_assoc]
    refine or_congr_left ⟨Or.imp_right fun ⟨k, hk, hx⟩ => ⟨k, ((hmem k).1 hk).1, hx⟩, ?_⟩
    rintro (hx | ⟨k, hk, hx⟩)
    · exact .inl hx
    · by_cases hkj : k = j
      · exact .inl (hkj ▸ hx)
      · exact .inr ⟨k, (hmem k).2 ⟨hk, hkj⟩, hx⟩
  · rw [hslot] at hk
    exact (ha.kept hkj).trans (hm.emptied ((hmem k).2 ⟨hk, hkj⟩))
  · rw [hslot] at hk
    exact (ha.kept hkj).trans (hm.kept (fun hks => hk ((hmem k).1 hks).1) hkj)
  · change x ∉ d.junctions.members j at hx
    rw [ha.mem, hm.mem, not_or, not_or] at hx
    show d.links.get x = _
    rw [ha.get, if_neg hx.2, hm.get fun k hk hxk => hx.1.2 ⟨k, hk, hxk⟩]
  · show (d.table.set i _).size = _
    rw [CellTable.size_set, htable]
  · show (d.table.set i _).get i = _
    rw [htable, CellTable.get_set_self hi]
  · show (d.table.set i _).get k = _
    rw [htable, CellTable.get_set_of_ne hk.symm]

theorem agree_and_gathers (h : b.Agree) (hg : b.Gatherable e i) :
    (b.gather e i).2.Agree ∧ b.Gathers e i (b.gather e i).1 (b.gather e i).2 := by
  have hchosen := head?_reached b (b.table.get i) e
  have hsize := size_junctions_meeting b (b.table.get i) e
  have hm : b.Merges (b.meeting (b.table.get i) e).1 _ _ := merges_meeting h hg.names
  rcases hmeeting : b.meeting (b.table.get i) e with ⟨j, c⟩
  have hgather : b.gather e i = (j,
      (((c.enlist j e).enlistSlot j (b.table.get i)).bind e j).occupy i (.junction j)) := by
    rw [gather, hmeeting]
  rw [hmeeting] at hm hchosen hsize
  dsimp only at hm hchosen hsize
  have ha := admits_comers hm.agree hm.index_lt (hg.names.mono hm.size_links hm.size_le)
    (hm.size_links ▸ hg.index_lt)
  rw [hm.comers_eq h] at ha
  rw [hgather]
  have hagree := agree_of_admits h hm ha
  exact ⟨⟨hagree.returned, hagree.mem_iff, hagree.nodup⟩,
    gathers_of_admits hm ha hg.lt_size rfl hchosen hsize⟩

/-! ## The run -/

/-- The bonds after several gatherings, one after the other. -/
def gatherAll (b : Bonds) (steps : List (Endpoint × Nat)) : Bonds :=
  steps.foldl (fun b step => (b.gather step.1 step.2).2) b

namespace Gathers

variable (h : b.Gathers e i j c)

include h

theorem exists_members (k : Junction) : ∃ l, b.junctions.members k ⊆ c.junctions.members l := by
  by_cases hk : k = j
  · exact ⟨j, fun x hx => h.mem.2 (.inl (hk ▸ hx))⟩
  · by_cases hr : k ∈ b.reached (b.table.get i) e
    · exact ⟨j, fun x hx => h.mem.2 (.inr (.inl ⟨k, hr, hx⟩))⟩
    · exact ⟨k, (h.kept hr hk).symm ▸ List.Subset.refl _⟩

theorem names (hnames : ∀ k, b.Names (b.table.get k)) (k : Nat) : c.Names (c.table.get k) := by
  by_cases hk : k = i
  · rw [hk, h.slot]
    exact h.index_lt
  · rw [h.slots hk]
    have hle : b.junctions.size ≤ c.junctions.size := by
      rw [h.size_junctions]
      split <;> omega
    exact (hnames k).mono h.size_links hle

end Gathers

/-- A run of gatherings, by induction on its steps. -/
theorem agree_gatherAll {steps : List (Endpoint × Nat)} (h : b.Agree)
    (hnames : ∀ k, b.Names (b.table.get k))
    (hsteps : ∀ step ∈ steps, step.1.index < b.links.entries.size ∧ step.2 < b.table.size) :
    (b.gatherAll steps).Agree ∧
      ∀ k, ∃ l, b.junctions.members k ⊆ (b.gatherAll steps).junctions.members l := by
  induction steps generalizing b with
  | nil => exact ⟨h, fun k => ⟨k, List.Subset.refl _⟩⟩
  | cons step steps ih =>
    rw [List.forall_mem_cons] at hsteps
    obtain ⟨hagree, hgathers⟩ := agree_and_gathers h ⟨hsteps.1.1, hsteps.1.2, hnames step.2⟩
    have hrest (next) (hnext : next ∈ steps) :
        next.1.index < (b.gather step.1 step.2).2.links.entries.size ∧
          next.2 < (b.gather step.1 step.2).2.table.size := by
      rw [hgathers.size_links, hgathers.size_table]
      exact hsteps.2 next hnext
    obtain ⟨hlast, hmembers⟩ := ih hagree (hgathers.names hnames) hrest
    refine ⟨hlast, fun k => ?_⟩
    obtain ⟨l, hl⟩ := hgathers.exists_members k
    obtain ⟨l', hl'⟩ := hmembers l
    exact ⟨l', List.Subset.trans hl hl'⟩

/-- Gathering an endpoint and a slot keeps links and junctions in agreement, and makes one junction
of those that are reached and of those who come. Over a run of gatherings, who shares a junction
goes on sharing one. -/
theorem gathers_gather (b : Bonds) (h : b.Agree) :
    (∀ e i, b.Gatherable e i →
      (b.gather e i).2.Agree ∧ b.Gathers e i (b.gather e i).1 (b.gather e i).2) ∧
    ∀ steps, (∀ k, b.Names (b.table.get k)) →
      (∀ step ∈ steps, step.1.index < b.links.entries.size ∧ step.2 < b.table.size) →
      (b.gatherAll steps).Agree ∧
        ∀ k, ∃ l, b.junctions.members k ⊆ (b.gatherAll steps).junctions.members l :=
  ⟨fun _ _ hg => agree_and_gathers h hg, fun _ hnames hsteps => agree_gatherAll h hnames hsteps⟩

/-- Two pairs, each with a slot for one of its endpoints. -/
def twoPairs : Bonds where
  table := ((CellTable.empty 8 3).set 0 (.endpoint (.ofIndex 1))).set 2 (.endpoint (.ofIndex 5))
  links := ((Links.unpaired 8).pair (.ofIndex 1) (.ofIndex 2)).pair (.ofIndex 5) (.ofIndex 6)
  junctions := .empty

theorem agree_twoPairs : twoPairs.Agree := by
  have hfirst := (Tied.initial ([1, 2, 5, 6].map Endpoint.ofIndex) 8).pair
    (a := .ofIndex 1) (b := .ofIndex 2) (by decide) (by decide) (by decide) (by decide) (by decide)
    (by decide) (by decide)
  exact .of_tied (hfirst.pair (a := .ofIndex 5) (b := .ofIndex 6) (by decide) (by decide) (by decide)
    (by decide) (by decide) (by decide) (by decide))

theorem names_twoPairs (k : Nat) : twoPairs.Names (twoPairs.table.get k) := by
  rw [twoPairs, CellTable.get_set (by simp), CellTable.get_set (by simp), CellTable.get_empty]
  split
  · decide
  · split
    · decide
    · trivial

/-- An endpoint joins each of two pairs, and then the one and the slot of the other are gathered:
the junction of the slot gets all, and that of the endpoint is left empty. -/
theorem gathers_gather_twoPairs :
    ∃ b, b = twoPairs.gatherAll [(.ofIndex 4, 0), (.ofIndex 7, 2)] ∧ b.Agree ∧
      b.junctions.buckets = #[[4, 1, 2].map Endpoint.ofIndex, [7, 5, 6].map Endpoint.ofIndex] ∧
      b.Gathers (.ofIndex 4) 2 (.ofIndex 1) (b.gather (.ofIndex 4) 2).2 ∧
      (b.gather (.ofIndex 4) 2).2.Agree ∧
      (b.gather (.ofIndex 4) 2).2.junctions.buckets =
        #[[], [7, 5, 6, 4, 1, 2].map Endpoint.ofIndex] := by
  obtain ⟨hagree, -⟩ := (gathers_gather twoPairs agree_twoPairs).2
    [(.ofIndex 4, 0), (.ofIndex 7, 2)] names_twoPairs (by decide)
  obtain ⟨hlast, hgathers⟩ := (gathers_gather _ hagree).1 (.ofIndex 4) 2
    ⟨by decide, by decide, by decide⟩
  exact ⟨_, rfl, hagree, by decide, hgathers, hlast, by decide⟩

end Bonds

end DoubleCurve
