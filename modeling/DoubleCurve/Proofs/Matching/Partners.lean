import DoubleCurve.Proofs.Matching.Build

/-!
# Who finds a partner

Points that match need not be in one cell, but if their cells touch the second
pass finds what the first one missed. `Matcher.Coherent` says what this takes:
matching is an equivalence, and endpoints that match are in cells that touch.

An endpoint that was registered, or a companion of it, is found from its own cell
ever after (`Matcher.Stands`), although the slot that stands for it may come to
hold a junction: no slot on the way is emptied, and what stands for a slot is
replaced only by a companion of it. `Matcher.Tended` is the invariant of both
passes, and `Matching.partners_of_build` tells who is left without a partner.
-/

namespace DoubleCurve

namespace Cell

variable {a c : Cell}

/-- Whether no digit of two cells differs by more than one. -/
def Touches (a c : Cell) : Prop :=
  (c.x.toInt - a.x.toInt).natAbs ≤ 1 ∧ (c.y.toInt - a.y.toInt).natAbs ≤ 1 ∧
    (c.z.toInt - a.z.toInt).natAbs ≤ 1

instance : Decidable (a.Touches c) := inferInstanceAs (Decidable (_ ∧ _ ∧ _))

theorem exists_step {k n : Int32} (h : (n.toInt - k.toInt).natAbs ≤ 1) :
    ∃ d ∈ steps, k + d = n := by
  have hmin := n.le_toInt
  have hmax := n.toInt_lt
  refine ⟨.ofInt (n.toInt - k.toInt), ?_, ?_⟩
  · obtain hd | hd | hd :
        n.toInt - k.toInt = -1 ∨ n.toInt - k.toInt = 0 ∨ n.toInt - k.toInt = 1 := by
      omega
    all_goals rw [hd]; decide
  · rw [← Int32.toInt_inj, Int32.toInt_add, Int32.toInt_ofInt_of_le (by omega) (by omega),
      show k.toInt + (n.toInt - k.toInt) = n.toInt by omega]
    exact Int.bmod_eq_of_le (by omega) (by omega)

/-- A cell that touches another one is in its neighbourhood. -/
theorem Touches.exists_offset (h : a.Touches c) : ∃ offset ∈ neighbourhood, a + offset = c := by
  obtain ⟨dx, hdx, hx⟩ := exists_step h.1
  obtain ⟨dy, hdy, hy⟩ := exists_step h.2.1
  obtain ⟨dz, hdz, hz⟩ := exists_step h.2.2
  refine ⟨⟨dx, dy, dz⟩, ?_, Cell.ext hx hy hz⟩
  exact List.mem_flatMap.2 ⟨dx, hdx, List.mem_flatMap.2 ⟨dy, hdy, List.mem_map.2 ⟨dz, hdz, rfl⟩⟩⟩

end Cell

namespace Matcher

variable {α : Type} [Scalar α] {m : Matcher α} {b b' : Bonds} {e f x y z : Endpoint}
  {es seen : List Endpoint} {count i k : Nat}

/-- Whether matching is an equivalence of these endpoints, and only endpoints in cells that touch
match. -/
structure Coherent (m : Matcher α) (es : List Endpoint) : Prop where
  refl {x : Endpoint} : x ∈ es → m.matching x x = true
  symm {x y : Endpoint} : x ∈ es → y ∈ es → m.matching x y = true → m.matching y x = true
  trans {x y z : Endpoint} : x ∈ es → y ∈ es → z ∈ es → m.matching x y = true →
    m.matching y z = true → m.matching x z = true
  touches {x y : Endpoint} : x ∈ es → y ∈ es → m.matching x y = true → (m.cell x).Touches (m.cell y)

instance (m : Matcher α) (es : List Endpoint) : Decidable (m.Coherent es) :=
  decidable_of_iff ((∀ x ∈ es, m.matching x x = true) ∧
      (∀ x ∈ es, ∀ y ∈ es, m.matching x y = true → m.matching y x = true) ∧
      (∀ x ∈ es, ∀ y ∈ es, ∀ z ∈ es, m.matching x y = true → m.matching y z = true →
        m.matching x z = true) ∧
      ∀ x ∈ es, ∀ y ∈ es, m.matching x y = true → (m.cell x).Touches (m.cell y))
    ⟨fun h => ⟨h.1 _, fun hx hy => h.2.1 _ hx _ hy, fun hx hy hz => h.2.2.1 _ hx _ hy _ hz,
      fun hx hy => h.2.2.2 _ hx _ hy⟩,
    fun h => ⟨fun _ => h.refl, fun _ hx _ hy => h.symm hx hy,
      fun _ hx _ hy _ hz => h.trans hx hy hz, fun _ hx _ hy => h.touches hx hy⟩⟩

/-- Whether two of these endpoints match. -/
structure Matched (m : Matcher α) (es : List Endpoint) (x y : Endpoint) : Prop where
  left : x ∈ es
  right : y ∈ es
  matching : m.matching x y = true

namespace Coherent

variable (hm : m.Coherent es)

include hm

theorem matched_self (hx : x ∈ es) : m.Matched es x x := ⟨hx, hx, hm.refl hx⟩

theorem matched_symm (h : m.Matched es x y) : m.Matched es y x :=
  ⟨h.right, h.left, hm.symm h.left h.right h.matching⟩

theorem matched_trans (h : m.Matched es x y) (h' : m.Matched es y z) : m.Matched es x z :=
  ⟨h.left, h'.right, hm.trans h.left h.right h'.right h.matching h'.matching⟩

end Coherent

/-- Whether all that is tied together matches. -/
def Alike (m : Matcher α) (es : List Endpoint) (b : Bonds) : Prop :=
  ∀ x y, b.Together x y → m.Matched es x y

/-- Whether a slot stands for a match of `f`. -/
def standsFor (m : Matcher α) (b : Bonds) (f : Endpoint) (slot : Slot) : Bool :=
  match exemplar? b slot with
  | some x => m.matching f x
  | none => false

theorem standsFor_of_exemplar {slot : Slot} (hx : exemplar? b slot = some x) :
    m.standsFor b f slot = m.matching f x := by
  rw [standsFor, hx]

/-- For an endpoint that was not seen, every slot that stands for a match is accepted. -/
theorem accepts_eq_standsFor (h : b.Sound count seen) (he : e ∉ seen) (k : Nat) :
    m.accepts b e (b.table.get k) = m.standsFor b e (b.table.get k) := by
  have hne : b.table.get k ≠ .endpoint e := fun hk => he (h.held hk)
  rw [accepts, bne_iff_ne.2 hne, Bool.true_and]
  rfl

/-- Whether every occupied slot stands for an endpoint. -/
def Filled (b : Bonds) : Prop := ∀ k, b.table.get k ≠ .empty → ∃ x, exemplar? b (b.table.get k) = some x

/-- Whether the first slot on the way from the cell of `f` that stands for a match of it stands for
`f` or for an endpoint that is tied together with it. -/
def Stands (m : Matcher α) (b : Bonds) (f : Endpoint) : Prop :=
  ∃ i x, b.table.probe ((m.cell f).bucket b.table.size) (m.standsFor b f) = .found i ∧
    exemplar? b (b.table.get i) = some x ∧ b.Companions x f

/-! ## A step -/

section Tying

variable (hm : m.Coherent es) (hj : b.Joins e i x b') (hw : b.Waits count seen e)
  (hex : m.Matched es e x) (ha : m.Alike es b)

include hm hj hw hex ha

/-- What is tied to a match of its own matches all that is tied together with it. -/
theorem alike_of_joins : m.Alike es b' := fun y z hyz => by
  have hnear {a : Endpoint} (hea : a = e ∨ a = x ∨ b.Together x a) : m.Matched es e a := by
    rcases hea with rfl | rfl | hxa
    · exact hm.matched_self hex.left
    · exact hex
    · exact hm.matched_trans hex (ha _ _ hxa)
  rcases hj.together_cases hw hyz with hyz | ⟨hy, hz⟩
  · exact ha y z hyz
  · exact hm.matched_trans (hm.matched_symm (hnear hy)) (hnear hz)

/-- A slot stands for matches of the same endpoints as before. -/
theorem standsFor_of_joins (hf : f ∈ es) (hy : exemplar? b (b.table.get k) = some y) :
    m.standsFor b' f (b'.table.get k) = m.standsFor b f (b.table.get k) := by
  obtain ⟨z, hz, hyz⟩ := hj.exists_exemplar hw hy
  rw [standsFor_of_exemplar hz, standsFor_of_exemplar hy]
  rcases hyz with rfl | hyz
  · rfl
  · have hyz := alike_of_joins hm hj hw hex ha y z hyz
    rw [Bool.eq_iff_iff]
    exact ⟨fun hfz => hm.trans hf hyz.right hyz.left hfz (hm.matched_symm hyz).matching,
      fun hfy => hm.trans hf hyz.left hyz.right hfy hyz.matching⟩

/-- What a search finds is found again, and stands for companions of what it stood for. -/
theorem stands_of_found (hfill : Filled b) (hf : f ∈ es)
    (hfound : b.table.probe ((m.cell f).bucket b.table.size) (m.standsFor b f) = .found k)
    (hy : exemplar? b (b.table.get k) = some y) (hyf : b'.Companions y f) : m.Stands b' f := by
  have ht := (hj.sound hw).tied
  obtain ⟨z, hz, hyz⟩ := hj.exists_exemplar hw hy
  refine ⟨k, z, ?_, hz, (hyz.symm ht).trans hyf ht⟩
  rw [hj.size_table]
  refine CellTable.found_of_kept hfound hj.size_table fun n hn => ⟨hj.get_eq_empty_iff.not.2 hn, ?_⟩
  obtain ⟨u, hu⟩ := hfill n hn
  exact standsFor_of_joins hm hj hw hex ha hf hu

theorem stands_of_joins (hfill : Filled b) (hf : f ∈ es) (hst : m.Stands b f) : m.Stands b' f := by
  obtain ⟨k, y, hfound, hy, hyf⟩ := hst
  exact stands_of_found hm hj hw hex ha hfill hf hfound hy (hj.companions_mono hw hyf)

omit hm hex ha in
theorem filled_of_joins (hfill : Filled b) : Filled b' := fun k hk => by
  obtain ⟨y, hy⟩ := hfill k (hj.get_eq_empty_iff.not.1 hk)
  obtain ⟨z, hz, -⟩ := hj.exists_exemplar hw hy
  exact ⟨z, hz⟩

end Tying

/-! ## The invariant -/

/-- What holds of the bonds in both passes. -/
structure Tended (m : Matcher α) (es : List Endpoint) (count : Nat) (seen : List Endpoint)
    (b : Bonds) : Prop where
  sound : b.Sound count seen
  size : count < b.table.size
  room : b.table.occupied ≤ seen.length
  alike : m.Alike es b
  filled : Filled b
  /-- Every endpoint that was seen is found from its cell, or a companion of it is. -/
  stands {f : Endpoint} : f ∈ seen → m.Stands b f

namespace Tended

theorem empty (m : Matcher α) (es : List Endpoint) (count slotsPerEndpoint : Nat) :
    m.Tended es count [] (.empty count slotsPerEndpoint) where
  sound := Bonds.Sound.initial count slotsPerEndpoint
  size := CellTable.lt_size_empty count slotsPerEndpoint
  room := Nat.le_of_eq (CellTable.occupied_empty count slotsPerEndpoint)
  alike x y h := by
    rcases h with h | ⟨j, hx, -⟩
    · simp [Bonds.empty] at h
    · simp [Bonds.empty] at hx
  filled k hk := absurd (by simp [Bonds.empty]) hk
  stands hf := absurd hf List.not_mem_nil

theorem exists_empty (h : m.Tended es count seen b) (hlen : seen.length ≤ count) :
    ∃ k < b.table.size, b.table.get k = .empty :=
  CellTable.exists_empty (Nat.lt_of_le_of_lt (Nat.le_trans h.room hlen) h.size)

theorem matched (h : m.Tended es count seen b) (hm : m.Coherent es) (hx : x ∈ es)
    (hxy : b.Companions x y) : m.Matched es x y := by
  rcases hxy with rfl | hxy
  · exact hm.matched_self hx
  · exact h.alike x y hxy

/-- Tying a free endpoint to a match, when those that were seen stand already or do so then. -/
theorem joins {seen' : List Endpoint} (h : m.Tended es count seen b) (hm : m.Coherent es)
    (hj : b.Joins e i x b') (hw : b.Waits count seen' e) (hex : m.Matched es e x)
    (hseen : seen.length ≤ seen'.length) (hsub : seen' ⊆ es)
    (hstands : ∀ f ∈ seen', m.Stands b f ∨ m.Stands b' f) : m.Tended es count seen' b' where
  sound := hj.sound hw
  size := hj.size_table ▸ h.size
  room := Nat.le_trans hj.occupied_le (Nat.le_trans h.room hseen)
  alike := alike_of_joins hm hj hw hex h.alike
  filled := filled_of_joins hj hw h.filled
  stands {f} hf' := (hstands f hf').elim
    (stands_of_joins hm hj hw hex h.alike h.filled (hsub hf')) id

theorem occupy (h : m.Tended es count seen b) (hm : m.Coherent es) (hmem : e ∈ es) (he : e ∉ seen)
    (hlen : seen.length ≤ count)
    (hp : b.table.probe ((m.cell e).bucket b.table.size) (m.accepts b e) = .vacant i) :
    m.Tended es count (seen ++ [e]) (b.occupy i (.endpoint e)) := by
  have hfree := h.exists_empty hlen
  obtain ⟨hi, hempty, -, -⟩ := CellTable.vacant_spec hfree hp
  have hget (k : Nat) : (b.occupy i (.endpoint e)).table.get k =
      if k = i then .endpoint e else b.table.get k := CellTable.get_set hi k
  have hsize : (b.occupy i (.endpoint e)).table.size = b.table.size := CellTable.size_set
  -- an occupied slot is not the one at which the search ended, and so it holds what it held
  have hkept {k : Nat} (hk : b.table.get k ≠ .empty) :
      (b.occupy i (.endpoint e)).table.get k = b.table.get k := by
    rw [hget, if_neg]
    rintro rfl
    exact hk hempty
  refine ⟨(h.sound.mono (List.subset_append_left seen [e])).occupy ?_ hi, hsize ▸ h.size, ?_, h.alike,
    fun k hk => ?_, fun {f} hf => ?_⟩
  · exact List.mem_append_right seen (List.mem_singleton_self e)
  · have hle : (b.table.set i (.endpoint e)).occupied ≤ b.table.occupied + 1 :=
      CellTable.occupied_set_succ_le hi
    rw [List.length_append, List.length_singleton]
    exact Nat.le_trans hle (Nat.succ_le_succ h.room)
  · rw [hget]
    split
    · exact ⟨e, rfl⟩
    · rw [hget, if_neg ‹_›] at hk
      exact h.filled k hk
  · rcases List.mem_append.1 hf with hf | hf
    · obtain ⟨k, x, hfound, hx, hxf⟩ := h.stands hf
      have hk := (CellTable.found_spec hfound).2.1
      refine ⟨k, x, ?_, (hkept hk).symm ▸ hx, hxf⟩
      rw [hsize]
      refine CellTable.found_of_kept hfound hsize fun n hn => ?_
      rw [hkept hn]
      exact ⟨hn, rfl⟩
    · obtain rfl := List.mem_singleton.1 hf
      have hslot : (b.occupy i (.endpoint f)).table.get i = .endpoint f := by rw [hget, if_pos rfl]
      refine ⟨i, f, ?_, by rw [hslot, exemplar?], .refl _ f⟩
      rw [hsize]
      refine CellTable.found_of_vacant hfree hp hsize (fun n hn => ?_) ?_ ?_
      · rw [hkept hn]
        exact ⟨hn, (accepts_eq_standsFor h.sound he n).symm⟩
      · rw [hslot]
        simp
      · rw [hslot]
        exact hm.refl hmem

theorem register (h : m.Tended es count seen b) (hm : m.Coherent es) (hsub : seen ++ [e] ⊆ es)
    (hrange : ∀ a ∈ es, a.index < count) (hcount : (seen ++ [e]).length ≤ count)
    (hlt : count < 0x100000000) (he : e ∉ seen) :
    m.Tended es count (seen ++ [e]) (m.register b e) := by
  have hmem : e ∈ seen ++ [e] := List.mem_append_right seen (List.mem_singleton_self e)
  have hlen : seen.length ≤ count := by
    rw [List.length_append] at hcount
    omega
  have hprobe := probe_zero m b e
  rw [Matcher.register]
  cases hp : m.probe b e ⟨0, 0, 0⟩ with
  | found i =>
    rw [hprobe] at hp
    have hw : b.Waits count (seen ++ [e]) e :=
      ⟨h.sound.mono (List.subset_append_left seen [e]), fun a ha => hrange a (hsub ha),
        Nat.lt_of_le_of_lt hcount hlt, hmem, h.sound.unpaired_of_not_mem he⟩
    obtain ⟨x, hx, hmatch, hj⟩ := joins_join hw.sound.tied hw.free (CellTable.found_spec hp).2.2
    have hex : m.Matched es e x := ⟨hsub hmem, hsub (hw.sound.mem_of_exemplar hx), hmatch⟩
    refine h.joins hm hj hw hex (by simp) hsub fun f hf' => ?_
    rcases List.mem_append.1 hf' with hf' | hf'
    · exact .inl (h.stands hf')
    · obtain rfl := List.mem_singleton.1 hf'
      have hfound : b.table.probe ((m.cell f).bucket b.table.size) (m.standsFor b f) = .found i :=
        CellTable.found_of_kept hp rfl fun n hn => ⟨hn, (accepts_eq_standsFor h.sound he n).symm⟩
      exact .inr (stands_of_found hm hj hw hex h.alike h.filled (hsub hmem) hfound hx
        (.inr ((hj.together_self hw).symm (hj.sound hw).tied)))
  | vacant i =>
    rw [hprobe] at hp
    exact h.occupy hm (hsub hmem) he hlen hp

theorem registerAll (h : m.Tended es count [] b) (hm : m.Coherent es)
    (hrange : ∀ a ∈ es, a.index < count) (hcount : es.length ≤ count) (hlt : count < 0x100000000)
    (hnodup : es.Nodup) : m.Tended es count es (m.registerAll b es) :=
  registerAll_induction hnodup h fun _ _ _ hes he hb =>
    hb.register hm hes.subset hrange (Nat.le_trans hes.length_le hcount) hlt he

end Tended

/-! ## The second pass -/

/-- What a search from the cells around it finds is tied to a free endpoint in one of the known
ways. -/
theorem joins_of_sweep?_eq_some (ht : Tied seen b.links b.junctions)
    (hf : b.links.get e = .unpaired) (hb : m.sweep? b e = some b') :
    ∃ i x, exemplar? b (b.table.get i) = some x ∧ m.matching e x = true ∧ b.Joins e i x b' := by
  obtain ⟨offset, -, hb⟩ := List.exists_of_findSome?_eq_some hb
  rw [sweepCell?] at hb
  split at hb
  · rename_i i hi
    obtain ⟨x, hx, hmatch, hj⟩ := joins_join ht hf (CellTable.found_spec hi).2.2
    rw [Option.some.inj hb] at hj
    exact ⟨i, x, hx, hmatch, hj⟩
  · cases hb

/-- Whether no other of these endpoints matches. -/
def Alone (m : Matcher α) (es : List Endpoint) (e : Endpoint) : Prop :=
  ∀ x ∈ es, x ≠ e → m.matching e x = false

instance (m : Matcher α) (es : List Endpoint) (e : Endpoint) : Decidable (m.Alone es e) :=
  inferInstanceAs (Decidable (∀ x ∈ es, _))

namespace Tended

theorem not_alone (h : m.Tended es count seen b) (hl : b.links.get e ≠ .unpaired) :
    ¬ m.Alone es e := by
  obtain ⟨x, hx, hxe⟩ := Bonds.exists_together h.sound.tied hl
  intro halone
  have hex := h.alike e x hx
  exact absurd hex.matching (by rw [halone x hex.right hxe]; simp)

variable (hm : m.Coherent es) (h : m.Tended es count es b) (hcount : es.length ≤ count)
  (he : e ∈ es) (hf : b.links.get e = .unpaired)

include h hcount he hf

/-- If no search from the cells around it finds anything, a free endpoint is alone. -/
theorem alone_of_sweep?_eq_none (hm : m.Coherent es) (hnone : m.sweep? b e = none) :
    m.Alone es e := fun x hx hxe => by
  by_contra hex
  rw [Bool.not_eq_false] at hex
  have hex : m.Matched es e x := ⟨he, hx, hex⟩
  obtain ⟨i, z, hfound, hz, hzx⟩ := h.stands hx
  have hlead := CellTable.leads_of_found hfound
  have hxz := h.matched hm hx (hzx.symm h.sound.tied)
  obtain ⟨offset, hoffset, hcell⟩ := (hm.touches he hx hex.matching).exists_offset
  have hsearch := List.findSome?_eq_none_iff.1 hnone offset hoffset
  rw [sweepCell?] at hsearch
  split at hsearch
  · cases hsearch
  · rename_i k hk
    rw [probe, hcell] at hk
    obtain ⟨-, -, -, hpassed⟩ := CellTable.vacant_spec (h.exists_empty hcount) hk
    have hne := (CellTable.found_spec hfound).2.1
    have hself : b.table.get i ≠ .endpoint e := fun hself => by
      rw [hself, exemplar?, Option.some.injEq] at hz
      subst hz
      rcases hzx with rfl | hex
      · exact hxe rfl
      · exact (hex.symm h.sound.tied).linked h.sound.tied hf
    have hacc := accepts_iff.2 ⟨hself, z, hz, (hm.matched_trans hex hxz).matching⟩
    rw [hpassed i hlead hne] at hacc
    cases hacc

theorem sweep (hm : m.Coherent es) (hrange : ∀ a ∈ es, a.index < count) (hlt : count < 0x100000000)
    (hb : m.sweep? b e = some b') : m.Tended es count es b' ∧ b'.links.get e ≠ .unpaired ∧
      ∀ y, b.links.get y ≠ .unpaired → b'.links.get y ≠ .unpaired := by
  obtain ⟨i, x, hx, hmatch, hj⟩ := joins_of_sweep?_eq_some h.sound.tied hf hb
  have hex : m.Matched es e x := ⟨he, h.sound.mem_of_exemplar hx, hmatch⟩
  have hw : b.Waits count es e := ⟨h.sound, hrange, Nat.lt_of_le_of_lt hcount hlt, he, hf⟩
  have hlinked {y : Endpoint} := hj.get_eq_unpaired_iff (y := y) hw
  refine ⟨?_, fun hfree => (hlinked.1 hfree).1 rfl, fun y hy hfree => hy (hlinked.1 hfree).2.2⟩
  exact h.joins hm hj hw hex (Nat.le_refl _) (List.Subset.refl _) fun f hf' => .inl (h.stands hf')

end Tended

/-- What the second pass makes of the bonds when it comes through `es'`. -/
structure Finishes (m : Matcher α) (es : List Endpoint) (count : Nat) (s : Swept α)
    (es' : List Endpoint) (s' : Swept α) : Prop where
  tended : m.Tended es count es s'.bonds
  linked {y : Endpoint} : s.bonds.links.get y ≠ .unpaired → s'.bonds.links.get y ≠ .unpaired
  /-- What is left free is alone. -/
  alone {e : Endpoint} : e ∈ es' → s'.bonds.links.get e = .unpaired → m.Alone es e
  notices : s'.notices = s.notices ++ ((es'.filter (m.Alone es)).map m.unmatchedNotice).toArray

theorem finishes_finish {s : Swept α} (hm : m.Coherent es) (h : m.Tended es count es s.bonds)
    (hrange : ∀ a ∈ es, a.index < count) (hcount : es.length ≤ count) (hlt : count < 0x100000000)
    (he : e ∈ es) : m.Finishes es count s [e] (m.finish s e) := by
  rw [finish]
  by_cases hf : s.bonds.links.get e = .unpaired
  · rw [if_neg (not_not.2 hf)]
    cases hb : m.sweep? s.bonds e with
    | some b' =>
      obtain ⟨htended, hlinked, hmono⟩ := h.sweep hcount he hf hm hrange hlt hb
      refine ⟨htended, hmono _, fun ha hfree => ?_, ?_⟩
      · rw [List.mem_singleton.1 ha] at hfree
        exact absurd hfree hlinked
      · rw [List.filter_cons_of_neg (by simpa using htended.not_alone hlinked)]
        simp
    | none =>
      have halone := h.alone_of_sweep?_eq_none hcount he hf hm hb
      refine ⟨h, id, fun ha _ => List.mem_singleton.1 ha ▸ halone, ?_⟩
      rw [List.filter_cons_of_pos (by simpa using halone)]
      simp [unmatchedNotice]
  · rw [if_pos hf]
    refine ⟨h, id, fun ha hfree => ?_, ?_⟩
    · rw [List.mem_singleton.1 ha] at hfree
      exact absurd hfree hf
    · rw [List.filter_cons_of_neg (by simpa using h.not_alone hf)]
      simp

/-- The second pass, by induction on the endpoints it comes through. -/
theorem finishes_finishAll {s : Swept α} {es' : List Endpoint} (hm : m.Coherent es)
    (h : m.Tended es count es s.bonds) (hrange : ∀ a ∈ es, a.index < count)
    (hcount : es.length ≤ count) (hlt : count < 0x100000000) (hsub : es' ⊆ es) :
    m.Finishes es count s es' (m.finishAll s es') := by
  induction es' generalizing s with
  | nil => exact ⟨h, id, fun ha => absurd ha List.not_mem_nil, by simp [finishAll]⟩
  | cons e es' ih =>
    rw [List.cons_subset] at hsub
    have hstep := finishes_finish hm h hrange hcount hlt hsub.1
    have hrest := ih hstep.tended hsub.2
    refine ⟨hrest.tended, hrest.linked ∘ hstep.linked, fun {a} ha hfree => ?_, ?_⟩
    · rcases List.mem_cons.1 ha with rfl | ha
      · refine hstep.alone (List.mem_singleton_self a) ?_
        by_contra hlinked
        exact hrest.linked hlinked hfree
      · exact hrest.alone ha hfree
    · show (m.finishAll (m.finish s e) es').notices = _
      have hsplit : (e :: es').filter (m.Alone es) =
          [e].filter (m.Alone es) ++ es'.filter (m.Alone es) :=
        List.filter_append [e] es'
      rw [hrest.notices, hstep.notices, hsplit, List.map_append, Array.append_assoc]
      simp

end Matcher

namespace Matching

variable {α : Type} [Scalar α] {points : Array (Vec3 α)} {s : Segments α} {settings : Settings α}

theorem finishes_ofSegments (hs : s.size < 0x100000000)
    (hm : Matcher.Coherent ⟨s, settings.matching, settings.cellScale⟩
      (participants s settings.matching)) :
    ∃ first last, (ofSegments s settings).1.links = last.bonds.links ∧
      (ofSegments s settings).2 = last.notices ∧ first.notices = #[] ∧
      Matcher.Finishes ⟨s, settings.matching, settings.cellScale⟩
        (participants s settings.matching) s.size first (participants s settings.matching)
        last := by
  have hrange := range_participants settings.matching (Nat.le_of_lt hs)
  have hcount := length_participants_le s settings.matching
  have hempty := Matcher.Tended.empty ⟨s, settings.matching, settings.cellScale⟩
    (participants s settings.matching) s.size settings.slotsPerEndpoint
  have hfirst := hempty.registerAll hm hrange hcount hs
    (nodup_participants (Nat.le_of_lt hs))
  exact ⟨_, _, rfl, rfl, rfl, Matcher.finishes_finishAll hm hfirst hrange hcount hs
    (List.Subset.refl _)⟩

/-- The endpoints that found no partner are those that take part and are linked to nothing. -/
theorem unmatched_ofSegments (hs : s.size ≤ 0x100000000) :
    (ofSegments s settings).1.unmatched = (participants s settings.matching).filter fun e =>
      (ofSegments s settings).1.links.get e == .unpaired := by
  rw [participants, List.filter_filter]
  refine List.filter_congr fun e he => ?_
  rw [isExcluded_ofSegments hs he, Bool.and_comm]

/-- Where matching is an equivalence and what matches is in cells that touch, an endpoint is left
unpaired if and only if no other matches it, and those that are left are reported in order. -/
theorem partners_of_build (points : Array (Vec3 α)) (settings : Settings α)
    (hv : settings.validate = .ok ())
    (hs : Segments.evenPart points.size * settings.symmetry ≤ Segments.greatestSize)
    (hm : Matcher.Coherent
      ⟨.replicate points settings.symmetry, settings.matching, settings.cellScale⟩
      (participants (.replicate points settings.symmetry) settings.matching)) :
    ∃ m found, build points settings = .ok (m, found) ∧
      (∀ e ∈ participants m.segments settings.matching, m.links.get e = .unpaired ↔
        ∀ x ∈ participants m.segments settings.matching, x ≠ e →
          (m.segments.point e).near settings.matching (m.segments.point x) = false) ∧
      found = oddNotice points.size ++
        (m.unmatched.map fun e => .info (.unmatchedEndpoint e (m.segments.point e))).toArray ∧
      m.unmatched.Pairwise fun a b => a.index < b.index := by
  have hsize := Segments.size_replicate_lt points (Settings.symmetry_pos hv) hs
  refine ⟨_, _, build_eq_ok hv hs, ?_⟩
  generalize Segments.replicate points settings.symmetry = s at hm hsize
  obtain ⟨first, last, hlinks, hnotices, hfirst, hfinishes⟩ := finishes_ofSegments hsize hm
  have hfree {e : Endpoint} (he : e ∈ participants s settings.matching) :
      last.bonds.links.get e = .unpaired ↔
        Matcher.Alone ⟨s, settings.matching, settings.cellScale⟩ (participants s settings.matching)
          e := by
    refine ⟨hfinishes.alone he, fun halone => ?_⟩
    by_contra hlinked
    exact hfinishes.tended.not_alone hlinked halone
  have hunmatched : (ofSegments s settings).1.unmatched =
      (participants s settings.matching).filter
        (Matcher.Alone ⟨s, settings.matching, settings.cellScale⟩
          (participants s settings.matching)) := by
    rw [unmatched_ofSegments (Nat.le_of_lt hsize), hlinks]
    refine List.filter_congr fun e he => ?_
    rw [Bool.eq_iff_iff, beq_iff_eq, decide_eq_true_iff, hfree he]
  refine ⟨fun e he => ?_, ?_, ?_⟩
  · rw [hlinks]
    exact hfree he
  · rw [hnotices, hfinishes.notices, hfirst, Array.empty_append, hunmatched]
    rfl
  · rw [hunmatched]
    exact (pairwise_participants (Nat.le_of_lt hsize) _).filter _

/-- Two segments of which the near ends match, in cells that touch. -/
def nearEnds : Array (Vec3 Float) :=
  #[⟨0, 0, 0⟩, ⟨0.499995, 0, 0⟩, ⟨0.500005, 0, 0⟩, ⟨1, 0, 0⟩]

/-- The near ends find a partner, and the far ends are left. -/
theorem partners_of_build_nearEnds :
    ∃ m found, build nearEnds .standard = .ok (m, found) ∧
      m.links.get (.ofIndex 1) ≠ .unpaired ∧ m.links.get (.ofIndex 2) ≠ .unpaired ∧
      m.links.get (.ofIndex 0) = .unpaired ∧ m.links.get (.ofIndex 3) = .unpaired := by
  obtain ⟨m, found, hbuild, hall, -⟩ := partners_of_build nearEnds .standard rfl (by decide)
    (by decide +kernel)
  obtain ⟨-, -, rfl⟩ := of_build_eq_ok hbuild
  refine ⟨_, found, hbuild, ?_, ?_, ?_, ?_⟩
  · exact (hall (.ofIndex 1) (by decide +kernel)).not.2 (by decide +kernel)
  · exact (hall (.ofIndex 2) (by decide +kernel)).not.2 (by decide +kernel)
  · exact (hall (.ofIndex 0) (by decide +kernel)).2 (by decide +kernel)
  · exact (hall (.ofIndex 3) (by decide +kernel)).2 (by decide +kernel)

end Matching

end DoubleCurve
