import DoubleCurve.Proofs.Matching.Build

/-!
# What holds at every stage of a matching

Both passes do two things only: an endpoint whose search ended at an empty slot is
entered there, and a free endpoint is tied to a slot that stands for a match of it
(`Matcher.Ties`). `Matcher.Preserves` says what a property has to keep up with for
every such step, and `Matcher.Preserves.stage` is the run: the property holds after
every single step of both passes.

A property may depend on which endpoints have come through the first pass.
-/

namespace DoubleCurve

namespace Matcher

variable {α : Type} [Scalar α] {m : Matcher α} {b b₀ b' : Bonds} {e x : Endpoint}
  {es seen done : List Endpoint} {count i : Nat} {offset : Cell}

/-- Whether a list of endpoints can be matched in a table of `count` links. -/
structure Listed (count : Nat) (es : List Endpoint) : Prop where
  range : ∀ a ∈ es, a.index < count
  nodup : es.Nodup
  length_le : es.length ≤ count
  count_lt : count < 0x100000000

theorem Listed.of_prefix (h : Listed count es) (hd : done <+: es) : Listed count done where
  range a ha := h.range a (hd.subset ha)
  nodup := h.nodup.sublist hd.sublist
  length_le := Nat.le_trans hd.length_le h.length_le
  count_lt := h.count_lt

theorem Listed.length_lt (h : Listed count es) : es.length < 0x100000000 :=
  Nat.lt_of_le_of_lt h.length_le h.count_lt

/-- Whether a free endpoint that was seen is tied to a slot that stands for a match of it. -/
structure Ties (m : Matcher α) (count : Nat) (seen : List Endpoint) (b : Bonds) (e : Endpoint)
    (i : Nat) (x : Endpoint) (b' : Bonds) : Prop where
  waits : b.Waits count seen e
  exemplar : exemplar? b (b.table.get i) = some x
  matching : m.matching e x = true
  joins : b.Joins e i x b'

/-- What a search finds is tied to a free endpoint. -/
theorem exists_ties (hw : b.Waits count seen e) (hp : m.probe b e offset = .found i) :
    ∃ x, m.Ties count seen b e i x (b.join e i) := by
  obtain ⟨x, hx, hmatch, hj⟩ := joins_join hw.sound.tied hw.free (CellTable.found_spec hp).2.2
  exact ⟨x, hw, hx, hmatch, hj⟩

/-- Whether `P`, said of the endpoints that have come through the first pass and of the bonds, is
kept by every step of the two passes over `es`. -/
structure Preserves (m : Matcher α) (count : Nat) (b₀ : Bonds) (es : List Endpoint)
    (P : List Endpoint → Bonds → Prop) : Prop where
  occupy {seen : List Endpoint} {e : Endpoint} {i : Nat} : seen ++ [e] <+: es → e ∉ seen →
    (m.registerAll b₀ seen).Sound count seen →
    m.probe (m.registerAll b₀ seen) e ⟨0, 0, 0⟩ = .vacant i → P seen (m.registerAll b₀ seen) →
    P (seen ++ [e]) ((m.registerAll b₀ seen).occupy i (.endpoint e))
  join {seen : List Endpoint} {e x : Endpoint} {i : Nat} {b' : Bonds} : seen ++ [e] <+: es →
    e ∉ seen → m.probe (m.registerAll b₀ seen) e ⟨0, 0, 0⟩ = .found i →
    m.Ties count (seen ++ [e]) (m.registerAll b₀ seen) e i x b' → P seen (m.registerAll b₀ seen) →
    P (seen ++ [e]) b'
  sweep {b b' : Bonds} {e x : Endpoint} {i : Nat} : m.Ties count es b e i x b' → P es b → P es b'

theorem registerAll_concat (m : Matcher α) (b : Bonds) (es : List Endpoint) (e : Endpoint) :
    m.registerAll b (es ++ [e]) = m.register (m.registerAll b es) e := by
  simp only [registerAll, List.foldl_append, List.foldl_cons, List.foldl_nil]

namespace Preserves

variable {P : List Endpoint → Bonds → Prop} {s : Swept α} (h : m.Preserves count b₀ es P)
  (hes : Listed count es)

include h hes

theorem register (hs : seen ++ [e] <+: es) (he : e ∉ seen)
    (hsound : (m.registerAll b₀ seen).Sound count seen) (hP : P seen (m.registerAll b₀ seen)) :
    P (seen ++ [e]) (m.registerAll b₀ (seen ++ [e])) := by
  have hlist := hes.of_prefix hs
  have hmem : e ∈ seen ++ [e] := List.mem_append_right seen (List.mem_singleton_self e)
  rw [registerAll_concat, Matcher.register]
  split
  · rename_i i hp
    have hw : (m.registerAll b₀ seen).Waits count (seen ++ [e]) e :=
      ⟨hsound.mono (List.subset_append_left seen [e]), hlist.range, hlist.length_lt, hmem,
        hsound.unpaired_of_not_mem he⟩
    obtain ⟨x, hties⟩ := exists_ties hw hp
    exact h.join hs he hp hties hP
  · rename_i i hp
    exact h.occupy hs he hsound hp hP

/-- The first pass, by induction on the endpoints that have come through it. -/
theorem registerAll (h0 : b₀.Sound count []) (hP0 : P [] b₀) (hd : done <+: es) :
    (m.registerAll b₀ done).Sound count done ∧ P done (m.registerAll b₀ done) := by
  have hlist := hes.of_prefix hd
  refine (registerAll_induction (P := fun seen b => b = m.registerAll b₀ seen ∧ b.Sound count seen ∧
    P seen b) hlist.nodup ⟨rfl, h0, hP0⟩ fun seen e b hs he ⟨hb, hsound, hP⟩ => ?_).2
  subst hb
  have hseen := hlist.of_prefix hs
  have hstep := sound_register (m := m) hsound hseen.range hseen.length_lt he
  rw [← registerAll_concat] at hstep ⊢
  exact ⟨rfl, hstep, h.register hes (hs.trans hd) he hsound hP⟩

theorem afterSweeps (hb : b.Sound count es) (he : e ∈ es) (hf : b.links.get e = .unpaired)
    (hP : P es b) (offsets : List Cell) : P es (m.afterSweeps b e offsets) := by
  rw [Matcher.afterSweeps]
  cases hfound : offsets.findSome? (m.sweepCell? b e) with
  | none => exact hP
  | some b' =>
    obtain ⟨offset, -, hcell⟩ := List.exists_of_findSome?_eq_some hfound
    rw [sweepCell?] at hcell
    split at hcell
    · rename_i i hp
      obtain ⟨x, hties⟩ := exists_ties ⟨hb, hes.range, hes.length_lt, he, hf⟩ hp
      rw [Option.some.inj hcell] at hties
      exact h.sweep hties hP
    · cases hcell

/-- The second pass, by induction on the endpoints it has come through. -/
theorem finishAll (hb : s.bonds.Sound count es) (hP : P es s.bonds) (hd : done ⊆ es) :
    P es (m.finishAll s done).bonds := by
  induction done generalizing s with
  | nil => exact hP
  | cons e done ih =>
    rw [List.cons_subset] at hd
    refine ih ?_ ?_ hd.2
    · have hsingle : [e] ⊆ es := List.cons_subset.2 ⟨hd.1, List.nil_subset es⟩
      exact sound_finishAll hb hes.range hes.length_lt hsingle
    · rw [bonds_finish]
      split
      · exact h.afterSweeps hes hb hd.1 ‹_› hP _
      · exact hP

variable (h0 : b₀.Sound count []) (hP0 : P [] b₀)

include h0 hP0

theorem finished (hd : done ⊆ es) :
    P es (m.finishAll ⟨m.registerAll b₀ es, #[]⟩ done).bonds := by
  obtain ⟨hsound, hP⟩ := h.registerAll hes h0 hP0 (List.prefix_refl es)
  exact h.finishAll hes hsound hP hd

theorem swept {rest : List Endpoint} (hsplit : es = done ++ e :: rest)
    (hf : (m.finishAll ⟨m.registerAll b₀ es, #[]⟩ done).bonds.links.get e = .unpaired)
    (tried : List Cell) :
    P es (m.afterSweeps (m.finishAll ⟨m.registerAll b₀ es, #[]⟩ done).bonds e tried) := by
  have hd : done ⊆ es := by
    rw [hsplit]
    exact List.subset_append_left _ _
  have he : e ∈ es := by
    rw [hsplit]
    exact List.mem_append_right _ List.mem_cons_self
  obtain ⟨hsound, -⟩ := h.registerAll hes h0 hP0 (List.prefix_refl es)
  exact h.afterSweeps hes (sound_finishAll hsound hes.range hes.length_lt hd) he hf
    (h.finished hes h0 hP0 hd) tried

/-- What every step preserves holds at every stage, of the endpoints that have come through the first
pass. -/
theorem stage (hb : m.Stage b₀ es b) : ∃ seen, seen <+: es ∧ P seen b := by
  cases hb with
  | registered done rest hsplit =>
    have hd : done <+: es := ⟨rest, hsplit.symm⟩
    exact ⟨done, hd, (h.registerAll hes h0 hP0 hd).2⟩
  | swept done rest e tried untried hsplit _ hf =>
    exact ⟨es, List.prefix_refl es, h.swept hes h0 hP0 hsplit hf tried⟩

end Preserves

end Matcher

theorem Matching.listed_participants {α : Type} [Scalar α] {s : Segments α}
    (hs : s.size < 0x100000000) (tolerance : α) : Matcher.Listed s.size (participants s tolerance) where
  range := range_participants tolerance (Nat.le_of_lt hs)
  nodup := nodup_participants (Nat.le_of_lt hs)
  length_le := length_participants_le s tolerance
  count_lt := hs

end DoubleCurve
