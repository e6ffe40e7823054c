import DoubleCurve.Proofs.Matching.Stages

/-!
# Who was entered where

The first pass searches for every endpoint once (`Matcher.Searched`). A search that
finds nothing ends at an empty slot, and there the endpoint is entered; what a search
finds, the endpoint is tied to. Slots may come to hold junctions later, and so the
table alone does not tell who was entered where, but the searches do.

`Matcher.Filed` is the invariant of both passes: the table is never full, the occupied
slots are those in which an endpoint was entered, one in each, and the cell of that
endpoint leads to its slot. Hence every later search from that cell comes to the slot,
unless something before it is accepted (`Matcher.Orderly`).

`Matcher.Filed.occupy` and `Matcher.Filed.ties` are the steps, and
`Matching.files_of_build` is the run.
-/

namespace DoubleCurve

namespace Matcher

variable {α : Type} [Scalar α] {m : Matcher α} {b b' b₀ : Bonds} {e x : Endpoint}
  {es seen seen' done : List Endpoint} {p : Probe} {count i k : Nat}

/-- Whether the first pass over `seen` has searched for `e`, and the search ended like this. -/
def Searched (m : Matcher α) (b₀ : Bonds) (seen : List Endpoint) (e : Endpoint) (p : Probe) : Prop :=
  ∃ done rest, seen = done ++ e :: rest ∧ m.probe (m.registerAll b₀ done) e ⟨0, 0, 0⟩ = p

theorem Searched.mono (h : m.Searched b₀ done e p) (hd : done <+: seen) : m.Searched b₀ seen e p := by
  obtain ⟨before, rest, rfl, hp⟩ := h
  obtain ⟨rest', rfl⟩ := hd
  exact ⟨before, rest ++ rest', by rw [List.append_assoc, List.cons_append], hp⟩

/-- The searches when the first pass has come to one more endpoint. -/
theorem searched_concat : m.Searched b₀ (seen ++ [e]) x p ↔
    m.Searched b₀ seen x p ∨ x = e ∧ m.probe (m.registerAll b₀ seen) e ⟨0, 0, 0⟩ = p := by
  constructor
  · rintro ⟨done, rest, hsplit, hp⟩
    rcases List.eq_nil_or_concat rest with rfl | ⟨rest, y, rfl⟩
    · obtain ⟨rfl, hxe⟩ := List.append_inj' hsplit rfl
      obtain rfl := List.singleton_inj.1 hxe
      exact .inr ⟨rfl, hp⟩
    · rw [List.concat_eq_append, ← List.cons_append, ← List.append_assoc] at hsplit
      exact .inl ⟨done, rest, (List.append_inj' hsplit rfl).1, hp⟩
  · rintro (h | ⟨rfl, hp⟩)
    · exact h.mono (List.prefix_append seen [e])
    · exact ⟨seen, [], rfl, hp⟩

/-- Every endpoint is searched for once in the first pass. -/
theorem existsUnique_searched (m : Matcher α) (b₀ : Bonds) (hnodup : seen.Nodup) (he : e ∈ seen) :
    ∃! p, m.Searched b₀ seen e p := by
  obtain ⟨done, rest, rfl⟩ := List.append_of_mem he
  refine ⟨_, ⟨done, rest, rfl, rfl⟩, ?_⟩
  rintro p ⟨done', rest', hsplit, rfl⟩
  rw [List.nodup_middle, List.nodup_cons, List.mem_append, not_or] at hnodup
  obtain ⟨rfl, -, -⟩ := (List.append_cons_inj_of_notMem hnodup.1.1 hnodup.1.2).1 hsplit
  rfl

/-! ## The invariant -/

/-- What holds of the table when the first pass has come through `seen`. -/
structure Filed (m : Matcher α) (b₀ : Bonds) (seen : List Endpoint) (b : Bonds) : Prop where
  size : b.table.size = b₀.table.size
  occupied_le : b.table.occupied ≤ seen.length
  occupied_lt : b.table.occupied < b.table.size
  get_ne_empty_iff {i : Nat} : b.table.get i ≠ .empty ↔ ∃ e, m.Searched b₀ seen e (.vacant i)
  entered_inj {i : Nat} {e x : Endpoint} : m.Searched b₀ seen e (.vacant i) →
    m.Searched b₀ seen x (.vacant i) → e = x
  leads {i : Nat} {e : Endpoint} : m.Searched b₀ seen e (.vacant i) →
    b.table.Leads ((m.cell e).bucket b.table.size) i
  tied {i : Nat} {e : Endpoint} : m.Searched b₀ seen e (.found i) →
    b.links.get e ≠ .unpaired ∧ ∃ x, exemplar? b (b.table.get i) = some x ∧ b.Companions x e

namespace Filed

theorem initial (m : Matcher α) (count slotsPerEndpoint : Nat) :
    m.Filed (.empty count slotsPerEndpoint) [] (.empty count slotsPerEndpoint) := by
  have hnone {e : Endpoint} {p : Probe} : ¬ m.Searched (.empty count slotsPerEndpoint) [] e p := by
    rintro ⟨done, rest, hsplit, -⟩
    simp at hsplit
  have hzero := CellTable.occupied_empty count slotsPerEndpoint
  refine ⟨rfl, Nat.le_of_eq hzero, ?_, ?_, fun h => absurd h hnone, fun h => absurd h hnone,
    fun h => absurd h hnone⟩
  · exact hzero ▸ CellTable.pos_size _
  · have hempty : (Bonds.empty count slotsPerEndpoint).table.get = fun _ => .empty :=
      funext (CellTable.get_empty count slotsPerEndpoint)
    simp [hempty, hnone]

/-- A search that finds nothing ends at an empty slot. -/
theorem get_of_vacant (h : m.Filed b₀ seen b) {start : Nat} {accepts : Slot → Bool}
    (hp : b.table.probe start accepts = .vacant i) : b.table.get i = .empty :=
  (CellTable.vacant_spec (CellTable.exists_empty h.occupied_lt) hp).2.1

/-- Where nothing is, nobody was entered. -/
theorem not_searched (h : m.Filed b₀ seen b) (hempty : b.table.get i = .empty) :
    ¬ m.Searched b₀ seen x (.vacant i) := fun hx => h.get_ne_empty_iff.2 ⟨x, hx⟩ hempty

theorem occupy (h : m.Filed b₀ seen (m.registerAll b₀ seen)) (hlen : seen.length + 1 < b₀.table.size)
    (hp : m.probe (m.registerAll b₀ seen) e ⟨0, 0, 0⟩ = .vacant i) :
    m.Filed b₀ (seen ++ [e]) ((m.registerAll b₀ seen).occupy i (.endpoint e)) := by
  have hsearched {x : Endpoint} {p : Probe} : m.Searched b₀ (seen ++ [e]) x p ↔
      m.Searched b₀ seen x p ∨ x = e ∧ .vacant i = p := by
    rw [searched_concat, hp]
  rw [probe_zero] at hp
  generalize m.registerAll b₀ seen = b at *
  obtain ⟨hi, hempty, hlead, -⟩ := CellTable.vacant_spec (CellTable.exists_empty h.occupied_lt) hp
  have hget (k : Nat) : (b.occupy i (.endpoint e)).table.get k =
      if k = i then .endpoint e else b.table.get k := CellTable.get_set hi k
  have hsize : (b.occupy i (.endpoint e)).table.size = b.table.size := CellTable.size_set
  have hle : (b.occupy i (.endpoint e)).table.occupied ≤ seen.length + 1 :=
    Nat.le_trans (CellTable.occupied_set_succ_le hi) (Nat.succ_le_succ h.occupied_le)
  refine ⟨hsize.trans h.size, ?_, ?_, fun {k} => ?_, fun {k x y} hx hy => ?_, fun {k x} hx => ?_,
    fun {k x} hx => ?_⟩
  · rw [List.length_append]
    exact hle
  · rw [hsize, h.size]
    exact Nat.lt_of_le_of_lt hle hlen
  · simp only [hget, hsearched, exists_or, Probe.vacant.injEq]
    by_cases hk : k = i
    · simp [hk]
    · rw [if_neg hk, h.get_ne_empty_iff]
      simp [Ne.symm hk]
  · rcases hsearched.1 hx with hx | ⟨rfl, hk⟩
    · rcases hsearched.1 hy with hy | ⟨-, hk⟩
      · exact h.entered_inj hx hy
      · exact absurd (hk ▸ hx) (h.not_searched hempty)
    · rcases hsearched.1 hy with hy | ⟨rfl, -⟩
      · exact absurd (hk ▸ hy) (h.not_searched hempty)
      · rfl
  · rw [hsize]
    rcases hsearched.1 hx with hx | ⟨rfl, hk⟩
    · exact (h.leads hx).set hi (by simp)
    · exact Probe.vacant.inj hk ▸ hlead.set hi (by simp)
  · obtain ⟨hl, y, hy, hyx⟩ := h.tied ((hsearched.1 hx).resolve_right (by simp))
    refine ⟨hl, y, ?_, hyx⟩
    -- the slot that was found stands for something, and so it is not the one that was empty
    rw [hget, if_neg]
    · exact hy
    · rintro rfl
      rw [hempty] at hy
      cases hy

theorem ties (h : m.Filed b₀ seen b) (ht : m.Ties count seen' b e i x b') : m.Filed b₀ seen b' := by
  have hj := ht.joins
  have hw := ht.waits
  refine ⟨hj.size_table.trans h.size, Nat.le_trans hj.occupied_le h.occupied_le, ?_, ?_,
    h.entered_inj, fun hx => ?_, fun {k y} hy => ?_⟩
  · rw [hj.size_table]
    exact Nat.lt_of_le_of_lt hj.occupied_le h.occupied_lt
  · intro k
    rw [Ne, hj.get_eq_empty_iff]
    exact h.get_ne_empty_iff
  · rw [hj.size_table]
    exact hj.leads (h.leads hx)
  · obtain ⟨hl, z, hz, hzy⟩ := h.tied hy
    obtain ⟨u, hu, hzu⟩ := hj.exists_exemplar hw hz
    have htied := (hj.sound hw).tied
    refine ⟨fun hfree => hl ((hj.get_eq_unpaired_iff hw).1 hfree).2.2, u, hu, ?_⟩
    exact (hzu.symm htied).trans (hj.companions_mono hw hzy) htied

theorem found (h : m.Filed b₀ seen (m.registerAll b₀ seen))
    (hp : m.probe (m.registerAll b₀ seen) e ⟨0, 0, 0⟩ = .found i)
    (ht : m.Ties count seen' (m.registerAll b₀ seen) e i x b') : m.Filed b₀ (seen ++ [e]) b' := by
  have hsearched {y : Endpoint} {p : Probe} : m.Searched b₀ (seen ++ [e]) y p ↔
      m.Searched b₀ seen y p ∨ y = e ∧ .found i = p := by
    rw [searched_concat, hp]
  have hvacant {y : Endpoint} {k : Nat} : m.Searched b₀ (seen ++ [e]) y (.vacant k) ↔
      m.Searched b₀ seen y (.vacant k) := by
    rw [hsearched]
    simp
  have hold := h.ties ht
  refine ⟨hold.size, ?_, hold.occupied_lt, ?_, fun hy hz => ?_, fun hy => hold.leads (hvacant.1 hy),
    fun {k y} hy => ?_⟩
  · rw [List.length_append]
    exact Nat.le_add_right_of_le hold.occupied_le
  · intro k
    simp only [hvacant]
    exact hold.get_ne_empty_iff
  · exact hold.entered_inj (hvacant.1 hy) (hvacant.1 hz)
  · rcases hsearched.1 hy with hy | ⟨rfl, hk⟩
    · exact hold.tied hy
    · rw [← Probe.found.inj hk]
      obtain ⟨z, hz, hxz⟩ := ht.joins.exists_exemplar ht.waits ht.exemplar
      have htied := (ht.joins.sound ht.waits).tied
      refine ⟨fun hfree => ((ht.joins.get_eq_unpaired_iff ht.waits).1 hfree).1 rfl, z, hz, ?_⟩
      exact (hxz.symm htied).trans (.inr ((ht.joins.together_self ht.waits).symm htied)) htied

end Filed

/-- Every step of the two passes keeps the table in order, if it has more slots than there are
endpoints. -/
theorem preserves_filed (hes : Listed count es) (hsize : count < b₀.table.size) :
    m.Preserves count b₀ es (m.Filed b₀) where
  occupy {seen e i} hs _ _ hp h := by
    refine h.occupy ?_ hp
    have hle := (hes.of_prefix hs).length_le
    rw [List.length_append, List.length_singleton] at hle
    exact Nat.lt_of_le_of_lt hle hsize
  join _ _ hp ht h := h.found hp ht
  sweep ht h := h.ties ht

/-! ## The run -/

/-- A table in order, and what this means for later searches. -/
structure Orderly (m : Matcher α) (b₀ : Bonds) (seen : List Endpoint) (b : Bonds) : Prop
    extends Filed m b₀ seen b where
  vacant {start i : Nat} {accepts : Slot → Bool} :
    b.table.probe start accepts = .vacant i → b.table.get i = .empty
  /-- A search from the cell of an endpoint comes to the slot in which it was entered, unless it
  accepts something before it. -/
  reaches {i : Nat} {e : Endpoint} (accepts : Slot → Bool) : m.Searched b₀ seen e (.vacant i) →
    b.table.Reaches ((m.cell e).bucket b.table.size) accepts i

theorem Filed.orderly (h : m.Filed b₀ seen b) : m.Orderly b₀ seen b :=
  { h with
    vacant := h.get_of_vacant
    reaches := fun accepts he => (h.leads he).reaches (h.get_ne_empty_iff.2 ⟨_, he⟩) accepts }

/-- What holds of the table in both passes over `es`. -/
structure Files (m : Matcher α) (b₀ : Bonds) (es : List Endpoint) : Prop where
  once {done : List Endpoint} {e : Endpoint} : done <+: es → e ∈ done → ∃! p, m.Searched b₀ done e p
  first {done : List Endpoint} : done <+: es → m.Orderly b₀ done (m.registerAll b₀ done)
  /-- An endpoint whose search found nothing is entered into a slot that was empty. -/
  entered {done : List Endpoint} {e : Endpoint} {i : Nat} : done ++ [e] <+: es →
    m.probe (m.registerAll b₀ done) e ⟨0, 0, 0⟩ = .vacant i →
    (m.registerAll b₀ done).table.get i = .empty ∧
      m.registerAll b₀ (done ++ [e]) = (m.registerAll b₀ done).occupy i (.endpoint e)
  stays {done done' : List Endpoint} {i : Nat} : done <+: done' → done' <+: es →
    (m.registerAll b₀ done).table.get i ≠ .empty → (m.registerAll b₀ done').table.get i ≠ .empty
  /-- The table is in order after every step of the second pass, and the same slots are occupied. -/
  second {done rest : List Endpoint} {e : Endpoint} {tried untried : List Cell} :
    es = done ++ e :: rest → Cell.neighbourhood = tried ++ untried →
    (m.finishAll ⟨m.registerAll b₀ es, #[]⟩ done).bonds.links.get e = .unpaired →
    m.Orderly b₀ es (m.afterSweeps (m.finishAll ⟨m.registerAll b₀ es, #[]⟩ done).bonds e tried) ∧
    ∀ i, (m.afterSweeps (m.finishAll ⟨m.registerAll b₀ es, #[]⟩ done).bonds e tried).table.get i =
      .empty ↔ (m.registerAll b₀ es).table.get i = .empty
  /-- So it is when the second pass has come through some of the endpoints. -/
  finished {done : List Endpoint} : done <+: es →
    m.Orderly b₀ es (m.finishAll ⟨m.registerAll b₀ es, #[]⟩ done).bonds ∧
    ∀ i, (m.finishAll ⟨m.registerAll b₀ es, #[]⟩ done).bonds.table.get i = .empty ↔
      (m.registerAll b₀ es).table.get i = .empty

/-- The same endpoints were entered, and so the same slots are occupied. -/
theorem Filed.get_eq_empty_iff (h : m.Filed b₀ seen b) (h' : m.Filed b₀ seen b') (i : Nat) :
    b'.table.get i = .empty ↔ b.table.get i = .empty := by
  rw [← not_iff_not]
  exact h'.get_ne_empty_iff.trans h.get_ne_empty_iff.symm

theorem files (hes : Listed count es) (h0 : b₀.Sound count []) (hinit : m.Filed b₀ [] b₀)
    (hsize : count < b₀.table.size) : m.Files b₀ es := by
  have hkept : m.Preserves count b₀ es (m.Filed b₀) := preserves_filed hes hsize
  have hfirst {done : List Endpoint} (hd : done <+: es) : m.Filed b₀ done (m.registerAll b₀ done) :=
    (hkept.registerAll hes h0 hinit hd).2
  have hall := hfirst (List.prefix_refl es)
  exact {
    once := fun hd he => existsUnique_searched m b₀ (hes.of_prefix hd).nodup he
    first := fun hd => (hfirst hd).orderly
    entered := fun {done e i} hd hp => by
      refine ⟨?_, by rw [registerAll_concat, Matcher.register, hp]⟩
      rw [probe_zero] at hp
      exact (hfirst ((List.prefix_append done [e]).trans hd)).get_of_vacant hp
    stays := fun hd hd' hi => by
      obtain ⟨e, he⟩ := (hfirst (hd.trans hd')).get_ne_empty_iff.1 hi
      exact (hfirst hd').get_ne_empty_iff.2 ⟨e, he.mono hd⟩
    second := fun {done rest e tried untried} hsplit _ hf => by
      have hswept := hkept.swept hes h0 hinit hsplit hf tried
      exact ⟨hswept.orderly, hall.get_eq_empty_iff hswept⟩
    finished := fun hd => by
      have hfinished := hkept.finished hes h0 hinit hd.subset
      exact ⟨hfinished.orderly, hall.get_eq_empty_iff hfinished⟩ }

end Matcher

namespace Matching

variable {α : Type} [Scalar α]

/-- In both passes the table keeps an empty slot, what is occupied stays so, every endpoint is
entered into an empty slot once or tied to what a slot stands for, and its cell leads to the slot in
which it was entered. The second pass enters nothing. -/
theorem files_of_build (points : Array (Vec3 α)) (settings : Settings α)
    (hv : settings.validate = .ok ())
    (hs : Segments.evenPart points.size * settings.symmetry ≤ Segments.greatestSize) :
    ∃ m found, build points settings = .ok (m, found) ∧
      Matcher.Files ⟨m.segments, settings.matching, settings.cellScale⟩
        (.empty m.segments.size settings.slotsPerEndpoint)
        (participants m.segments settings.matching) := by
  have hsize := Segments.size_replicate_lt points (Settings.symmetry_pos hv) hs
  refine ⟨_, _, build_eq_ok hv hs, ?_⟩
  exact Matcher.files (listed_participants hsize settings.matching) (Bonds.Sound.initial _ _)
    (Matcher.Filed.initial _ _ _) (CellTable.lt_size_empty _ _)

/-- Two segments from one point, of which the first ends in another cell with the same home, the last
slot of the table. -/
def colliding : Array (Vec3 Float) :=
  #[⟨0.00125, 0, 0⟩, ⟨0.00015, 0.00015, 0⟩, ⟨0.00125, 0, 0⟩, ⟨1, 0, 0⟩]

/-- Of two endpoints with the same home, the second is entered around the end of the table, and a
third one is tied to the first. -/
theorem files_of_build_colliding :
    ∃ m found, build colliding .standard = .ok (m, found) ∧
      ∃ t : Matcher Float, t = ⟨m.segments, Settings.standard.matching, Settings.standard.cellScale⟩ ∧
        t.Searched (.empty 4 3) (participants m.segments t.tolerance) (.ofIndex 0) (.vacant 12) ∧
        t.Searched (.empty 4 3) (participants m.segments t.tolerance) (.ofIndex 1) (.vacant 0) ∧
        t.Searched (.empty 4 3) (participants m.segments t.tolerance) (.ofIndex 2) (.found 12) ∧
        (t.cell (.ofIndex 1)).bucket 13 = 12 ∧
        t.Files (.empty 4 3) (participants m.segments t.tolerance) := by
  obtain ⟨m, found, hbuild, hfiles⟩ := files_of_build colliding .standard rfl (by decide)
  refine ⟨m, found, hbuild, _, rfl, ?_, ?_, ?_, ?_, ?_⟩
  · obtain ⟨-, -, rfl⟩ := of_build_eq_ok hbuild
    exact ⟨[], [1, 2, 3].map Endpoint.ofIndex, by decide +kernel, by decide +kernel⟩
  · obtain ⟨-, -, rfl⟩ := of_build_eq_ok hbuild
    exact ⟨[.ofIndex 0], [2, 3].map Endpoint.ofIndex, by decide +kernel, by decide +kernel⟩
  · obtain ⟨-, -, rfl⟩ := of_build_eq_ok hbuild
    exact ⟨[0, 1].map Endpoint.ofIndex, [.ofIndex 3], by decide +kernel, by decide +kernel⟩
  · obtain ⟨-, -, rfl⟩ := of_build_eq_ok hbuild
    decide +kernel
  · obtain ⟨-, -, rfl⟩ := of_build_eq_ok hbuild
    exact hfiles

end Matching

end DoubleCurve
