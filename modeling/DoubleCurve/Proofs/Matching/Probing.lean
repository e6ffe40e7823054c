import DoubleCurve.CellTable
import Mathlib.Tactic.ByContra

/-!
# Where a search ends

A search of the cell table visits one position after another, around the end,
and goes on past every slot that is occupied and not accepted
(`CellTable.Passes`). `CellTable.probe_cases` tells the three ways in which it
can end. What the users of a search need is said with `CellTable.Leads`, that
all slots on the way from a start to a position are occupied:

* `found_iff`: a search finds the first accepted slot if no empty one comes before it;
* `found_of_leads`: a search finds the only accepted slot that its start leads to;
* `vacant_spec`: a search that ends at an empty slot was led there, and its start
  leads to no accepted slot;
* `Leads.of_occupied`: occupying more slots, or other contents of the occupied
  ones, breaks no lead;
* `probeLog_eq`: a search asks about occupied slots only, one after the other, and
  so it reaches every one that its start leads to (`Leads.reaches`).
-/

namespace DoubleCurve.CellTable

variable {t t' : CellTable} {start i k : Nat} {accepts : Slot → Bool} {slot : Slot}

/-- The position that a search from `start` visits after `k` others. -/
def visited (t : CellTable) (start k : Nat) : Nat := (start + k) % t.size

/-- A search goes on past this position: the slot is occupied and not accepted. -/
def Passes (t : CellTable) (accepts : Slot → Bool) (position : Nat) : Prop :=
  t.get position ≠ .empty ∧ accepts (t.get position) = false

/-- All slots that a search from `start` visits before it comes to `position` are occupied. -/
def Leads (t : CellTable) (start position : Nat) : Prop :=
  ∃ k < t.size, t.visited start k = position ∧ ∀ n < k, t.get (t.visited start n) ≠ .empty

theorem pos_size (t : CellTable) : 0 < t.size := t.size_pos

theorem visited_lt (t : CellTable) (start k : Nat) : t.visited start k < t.size :=
  Nat.mod_lt _ t.pos_size

theorem next_visited (t : CellTable) (start k : Nat) :
    t.next (t.visited start k) = t.visited start (k + 1) := by
  have hlt := t.visited_lt start k
  have hsucc : t.visited start (k + 1) = (t.visited start k + 1) % t.size := by
    rw [visited, visited, Nat.mod_add_mod, Nat.add_assoc]
  rw [hsucc, next]
  split
  · rw [Nat.mod_eq_of_lt ‹_›]
  · rw [show t.visited start k + 1 = t.size by omega, Nat.mod_self]

/-- A search that is never stopped visits every position. -/
theorem exists_visited (start : Nat) {j : Nat} (hj : j < t.size) :
    ∃ k < t.size, t.visited start k = j := by
  have hr := Nat.mod_lt start t.pos_size
  rcases Nat.lt_or_ge j (start % t.size) with hlt | hge
  · refine ⟨j + t.size - start % t.size, by omega, ?_⟩
    rw [visited, ← Nat.mod_add_mod, show start % t.size + (j + t.size - start % t.size) = j + t.size by omega,
      Nat.add_mod_right, Nat.mod_eq_of_lt hj]
  · refine ⟨j - start % t.size, by omega, ?_⟩
    rw [visited, ← Nat.mod_add_mod, show start % t.size + (j - start % t.size) = j by omega,
      Nat.mod_eq_of_lt hj]

/-- A search asks about an occupied slot, and goes on if it is not accepted. -/
theorem go_succ {left : Nat} (hne : t.get (t.visited start k) ≠ .empty) :
    probeM.go (m := Id) t start (fun slot => pure (accepts slot)) (left + 1) (t.visited start k) =
      if accepts (t.get (t.visited start k)) then .found (t.visited start k)
      else probeM.go (m := Id) t start (fun slot => pure (accepts slot)) left
        (t.visited start (k + 1)) := by
  rw [probeM.go, ← next_visited]
  split
  · exact absurd ‹_› hne
  · rfl

/-- The rest of a search, by induction on the number of positions that are left. -/
theorem go_cases (t : CellTable) (start : Nat) (accepts : Slot → Bool) (left k : Nat)
    (hk : left + k = t.size) :
    (∃ n, k ≤ n ∧ n < t.size ∧ (∀ m, k ≤ m → m < n → t.Passes accepts (t.visited start m)) ∧
      t.get (t.visited start n) ≠ .empty ∧ accepts (t.get (t.visited start n)) = true ∧
      probeM.go (m := Id) t start (fun slot => pure (accepts slot)) left (t.visited start k) =
        .found (t.visited start n)) ∨
    (∃ n, k ≤ n ∧ n < t.size ∧ (∀ m, k ≤ m → m < n → t.Passes accepts (t.visited start m)) ∧
      t.get (t.visited start n) = .empty ∧
      probeM.go (m := Id) t start (fun slot => pure (accepts slot)) left (t.visited start k) =
        .vacant (t.visited start n)) ∨
    ((∀ m, k ≤ m → m < t.size → t.Passes accepts (t.visited start m)) ∧
      probeM.go (m := Id) t start (fun slot => pure (accepts slot)) left (t.visited start k) =
        .vacant (t.visited start 0)) := by
  induction left generalizing k with
  | zero => exact .inr (.inr ⟨fun m _ _ => by omega, rfl⟩)
  | succ left ih =>
    by_cases hempty : t.get (t.visited start k) = .empty
    · refine .inr (.inl ⟨k, Nat.le_refl k, by omega, fun m _ _ => by omega, hempty, ?_⟩)
      rw [probeM.go, hempty]
      rfl
    · rw [go_succ hempty]
      by_cases hacc : accepts (t.get (t.visited start k)) = true
      · exact .inl ⟨k, Nat.le_refl k, by omega, fun m _ _ => by omega, hempty, hacc, if_pos hacc⟩
      · rw [if_neg hacc]
        have hpass : t.Passes accepts (t.visited start k) := ⟨hempty, by simpa using hacc⟩
        have hstep {n : Nat} (h : ∀ m, k + 1 ≤ m → m < n → t.Passes accepts (t.visited start m)) :
            ∀ m, k ≤ m → m < n → t.Passes accepts (t.visited start m) := fun m hm hn => by
          rcases Nat.eq_or_lt_of_le hm with rfl | hm
          · exact hpass
          · exact h m hm hn
        rcases ih (k + 1) (by omega) with ⟨n, hn, h⟩ | ⟨n, hn, h⟩ | h
        · exact .inl ⟨n, by omega, h.1, hstep h.2.1, h.2.2⟩
        · exact .inr (.inl ⟨n, by omega, h.1, hstep h.2.1, h.2.2⟩)
        · exact .inr (.inr ⟨hstep h.1, h.2⟩)

/-- A search ends at the first accepted slot, at the first empty one, or has passed all slots. -/
theorem probe_cases (t : CellTable) (start : Nat) (accepts : Slot → Bool) :
    (∃ k < t.size, (∀ n < k, t.Passes accepts (t.visited start n)) ∧
      t.get (t.visited start k) ≠ .empty ∧ accepts (t.get (t.visited start k)) = true ∧
      t.probe start accepts = .found (t.visited start k)) ∨
    (∃ k < t.size, (∀ n < k, t.Passes accepts (t.visited start n)) ∧
      t.get (t.visited start k) = .empty ∧ t.probe start accepts = .vacant (t.visited start k)) ∨
    ((∀ n < t.size, t.Passes accepts (t.visited start n)) ∧
      t.probe start accepts = .vacant (t.visited start 0)) := by
  have hprobe : t.probe start accepts =
      probeM.go (m := Id) t start (fun slot => pure (accepts slot)) t.size (t.visited start 0) := rfl
  rw [hprobe]
  rcases go_cases t start accepts t.size 0 (Nat.add_zero _) with
    ⟨k, -, hk, hpass, h⟩ | ⟨k, -, hk, hpass, h⟩ | h
  · exact .inl ⟨k, hk, fun n => hpass n (Nat.zero_le n), h⟩
  · exact .inr (.inl ⟨k, hk, fun n => hpass n (Nat.zero_le n), h⟩)
  · exact .inr (.inr ⟨fun n => h.1 n (Nat.zero_le n), h.2⟩)

/-- A search finds the first slot on its way that is accepted, if no slot before it is empty. -/
theorem found_iff : t.probe start accepts = .found i ↔
    ∃ k < t.size, t.visited start k = i ∧ (∀ n < k, t.Passes accepts (t.visited start n)) ∧
      t.get i ≠ .empty ∧ accepts (t.get i) = true := by
  rcases probe_cases t start accepts with
    ⟨n, hn, hpass, hne, hacc, hprobe⟩ | ⟨n, hn, hpass, hempty, hprobe⟩ | ⟨hpass, hprobe⟩
  · rw [hprobe, Probe.found.injEq]
    refine ⟨fun h => ⟨n, hn, h, hpass, h ▸ hne, h ▸ hacc⟩, ?_⟩
    rintro ⟨k, hk, rfl, hpass', -, hacc'⟩
    rcases Nat.lt_trichotomy n k with hlt | rfl | hlt
    · rw [(hpass' n hlt).2] at hacc
      cases hacc
    · rfl
    · rw [(hpass k hlt).2] at hacc'
      cases hacc'
  · rw [hprobe]
    refine ⟨nofun, ?_⟩
    rintro ⟨k, hk, rfl, hpass', hne', hacc'⟩
    rcases Nat.lt_trichotomy n k with hlt | rfl | hlt
    · exact absurd hempty (hpass' n hlt).1
    · exact absurd hempty hne'
    · rw [(hpass k hlt).2] at hacc'
      cases hacc'
  · rw [hprobe]
    refine ⟨nofun, ?_⟩
    rintro ⟨k, hk, rfl, -, -, hacc'⟩
    rw [(hpass k hk).2] at hacc'
    cases hacc'

theorem found_spec (h : t.probe start accepts = .found i) :
    i < t.size ∧ t.get i ≠ .empty ∧ accepts (t.get i) = true := by
  obtain ⟨k, -, rfl, -, hne, hacc⟩ := found_iff.1 h
  exact ⟨visited_lt .., hne, hacc⟩

theorem leads_of_found (h : t.probe start accepts = .found i) : t.Leads start i := by
  obtain ⟨k, hk, hi, hpass, -⟩ := found_iff.1 h
  exact ⟨k, hk, hi, fun n hn => (hpass n hn).1⟩

theorem vacant_lt (h : t.probe start accepts = .vacant i) : i < t.size := by
  rcases probe_cases t start accepts with ⟨k, -, -, -, -, hk⟩ | ⟨k, -, -, -, hk⟩ | ⟨-, hk⟩
  · rw [hk] at h
    cases h
  · rw [hk, Probe.vacant.injEq] at h
    exact h ▸ visited_lt ..
  · rw [hk, Probe.vacant.injEq] at h
    exact h ▸ visited_lt ..

/-- The only accepted slot that a start leads to is found. -/
theorem found_of_leads (hl : t.Leads start i) (hne : t.get i ≠ .empty)
    (hacc : accepts (t.get i) = true)
    (honly : ∀ j, t.get j ≠ .empty → accepts (t.get j) = true → j = i) :
    t.probe start accepts = .found i := by
  obtain ⟨k, hk, rfl, hocc⟩ := hl
  rcases probe_cases t start accepts with
    ⟨n, -, -, hne', hacc', hn⟩ | ⟨n, hn, hpass, hempty, -⟩ | ⟨hpass, -⟩
  · rw [hn, honly _ hne' hacc']
  · exfalso
    rcases Nat.lt_trichotomy n k with hlt | rfl | hlt
    · exact hocc n hlt hempty
    · exact hne hempty
    · rw [(hpass k hlt).2] at hacc
      cases hacc
  · rw [(hpass k hk).2] at hacc
    cases hacc

/-- A search of a table that is not full and finds nothing ends at an empty slot to which its start
leads, and its start leads to no slot that is accepted. -/
theorem vacant_spec (hfree : ∃ j < t.size, t.get j = .empty)
    (h : t.probe start accepts = .vacant i) :
    i < t.size ∧ t.get i = .empty ∧ t.Leads start i ∧
      ∀ j, t.Leads start j → t.get j ≠ .empty → accepts (t.get j) = false := by
  rcases probe_cases t start accepts with
    ⟨n, -, -, -, -, hn⟩ | ⟨n, hn, hpass, hempty, hprobe⟩ | ⟨hpass, -⟩
  · rw [hn] at h
    cases h
  · rw [hprobe, Probe.vacant.injEq] at h
    subst h
    refine ⟨visited_lt .., hempty, ⟨n, hn, rfl, fun m hm => (hpass m hm).1⟩, ?_⟩
    rintro j ⟨k, -, rfl, hocc⟩ hne
    rcases Nat.lt_trichotomy k n with hlt | rfl | hlt
    · exact (hpass k hlt).2
    · exact absurd hempty hne
    · exact absurd hempty (hocc n hlt)
  · -- every position is visited, and so the table would be full
    obtain ⟨j, hj, hempty⟩ := hfree
    obtain ⟨n, hn, rfl⟩ := exists_visited start hj
    exact absurd hempty (hpass n hn).1

/-- What was found is found again when no slot is emptied and the same slots are accepted. -/
theorem found_of_kept {accepts' : Slot → Bool} (h : t.probe start accepts = .found i)
    (hsize : t'.size = t.size) (hkept : ∀ j, t.get j ≠ .empty →
      t'.get j ≠ .empty ∧ accepts' (t'.get j) = accepts (t.get j)) :
    t'.probe start accepts' = .found i := by
  obtain ⟨k, hk, rfl, hpass, hne, hacc⟩ := found_iff.1 h
  have hvisited (n : Nat) : t'.visited start n = t.visited start n := by rw [visited, visited, hsize]
  refine found_iff.2 ⟨k, hsize ▸ hk, hvisited k, fun n hn => ?_, (hkept _ hne).1, ?_⟩
  · obtain ⟨hne', hacc'⟩ := hkept _ (hpass n hn).1
    rw [hvisited]
    exact ⟨hne', hacc'.trans (hpass n hn).2⟩
  · rw [(hkept _ hne).2, hacc]

/-- A search that ended at an empty slot finds what is put there, when no slot is emptied and the
same slots are accepted. -/
theorem found_of_vacant {accepts' : Slot → Bool} (hfree : ∃ j < t.size, t.get j = .empty)
    (h : t.probe start accepts = .vacant i) (hsize : t'.size = t.size)
    (hkept : ∀ j, t.get j ≠ .empty → t'.get j ≠ .empty ∧ accepts' (t'.get j) = accepts (t.get j))
    (hne : t'.get i ≠ .empty) (hacc : accepts' (t'.get i) = true) :
    t'.probe start accepts' = .found i := by
  obtain ⟨-, -, ⟨k, hk, rfl, hocc⟩, hpassed⟩ := vacant_spec hfree h
  have hvisited (n : Nat) : t'.visited start n = t.visited start n := by rw [visited, visited, hsize]
  refine found_iff.2 ⟨k, hsize ▸ hk, hvisited k, fun n hn => ?_, hne, hacc⟩
  have hlead : t.Leads start (t.visited start n) :=
    ⟨n, Nat.lt_trans hn hk, rfl, fun l hl => hocc l (Nat.lt_trans hl hn)⟩
  obtain ⟨hne', hacc'⟩ := hkept _ (hocc n hn)
  rw [hvisited]
  exact ⟨hne', hacc'.trans (hpassed _ hlead (hocc n hn))⟩

theorem Leads.of_occupied (hl : t.Leads start i) (hsize : t'.size = t.size)
    (hocc : ∀ j, t.get j ≠ .empty → t'.get j ≠ .empty) : t'.Leads start i := by
  obtain ⟨k, hk, rfl, hlead⟩ := hl
  have hvisited (n : Nat) : t'.visited start n = t.visited start n := by rw [visited, visited, hsize]
  refine ⟨k, hsize ▸ hk, hvisited k, fun n hn => ?_⟩
  rw [hvisited]
  exact hocc _ (hlead n hn)

theorem Leads.set (hl : t.Leads start k) (hi : i < t.size) (hslot : slot ≠ .empty) :
    (t.set i slot).Leads start k := by
  refine hl.of_occupied size_set fun j hj => ?_
  rw [get_set hi]
  split
  · exact hslot
  · exact hj

/-! ## What a search asks about -/

/-- A test that notes what it is asked about. -/
def noting (accepts : Slot → Bool) (slot : Slot) : StateT (List Slot) Id Bool := do
  modify (· ++ [slot])
  return accepts slot

/-- What the first `n` positions on the way from `start` hold. -/
def contents (t : CellTable) (start n : Nat) : List Slot :=
  (List.range n).map fun k => t.get (t.visited start k)

theorem contents_succ (t : CellTable) (start n : Nat) :
    t.contents start (n + 1) = t.contents start n ++ [t.get (t.visited start n)] := by
  rw [contents, List.range_succ, List.map_append, contents]
  rfl

theorem isPrefix_contents (t : CellTable) (start : Nat) {n k : Nat} (h : n ≤ k) :
    t.contents start n <+: t.contents start k := by
  refine List.IsPrefix.map _ ?_
  obtain ⟨d, rfl⟩ := Nat.exists_eq_add_of_le h
  rw [List.range_add]
  exact List.prefix_append _ _

/-- Why a search ends when it has asked about `n` slots. -/
inductive Stops (t : CellTable) (start : Nat) (accepts : Slot → Bool) : Nat → Probe → Prop
  | found {k : Nat} (hk : k < t.size) (hne : t.get (t.visited start k) ≠ .empty)
      (hacc : accepts (t.get (t.visited start k)) = true) :
      Stops t start accepts (k + 1) (.found (t.visited start k))
  | vacant {k : Nat} (hk : k < t.size) (hempty : t.get (t.visited start k) = .empty) :
      Stops t start accepts k (.vacant (t.visited start k))
  | full : Stops t start accepts t.size (.vacant (t.visited start 0))

/-- The rest of a search that has asked about the slots at the first `k` positions, by induction on
the number of positions that are left. -/
theorem go_noting (t : CellTable) (start : Nat) (accepts : Slot → Bool) (left k : Nat)
    (hk : left + k = t.size) :
    ∃ n, k ≤ n ∧
      (probeM.go t start (noting accepts) left (t.visited start k)).run (t.contents start k) =
        (probeM.go (m := Id) t start (fun slot => pure (accepts slot)) left (t.visited start k),
          t.contents start n) ∧
      (∀ l, k ≤ l → l < n → t.get (t.visited start l) ≠ .empty) ∧
      t.Stops start accepts n
        (probeM.go (m := Id) t start (fun slot => pure (accepts slot)) left (t.visited start k)) := by
  induction left generalizing k with
  | zero =>
    obtain rfl : k = t.size := by omega
    exact ⟨t.size, Nat.le_refl _, rfl, fun l _ _ => by omega, .full⟩
  | succ left ih =>
    by_cases hempty : t.get (t.visited start k) = .empty
    · refine ⟨k, Nat.le_refl k, ?_, fun l _ _ => by omega, ?_⟩
      · rw [probeM.go, probeM.go, hempty]
        rfl
      · rw [probeM.go, hempty]
        exact .vacant (by omega) hempty
    · have hrun : (probeM.go t start (noting accepts) (left + 1) (t.visited start k)).run
            (t.contents start k) =
          if accepts (t.get (t.visited start k)) then
            (.found (t.visited start k), t.contents start (k + 1))
          else (probeM.go t start (noting accepts) left (t.visited start (k + 1))).run
            (t.contents start (k + 1)) := by
        rw [probeM.go, ← next_visited, contents_succ]
        split
        · exact absurd ‹_› hempty
        · cases hacc : accepts (t.get (t.visited start k)) with
          | false => simp [noting, hacc]
          | true =>
            simp only [noting, hacc]
            rfl
      rw [go_succ hempty, hrun]
      by_cases hacc : accepts (t.get (t.visited start k)) = true
      · rw [if_pos hacc, if_pos hacc]
        refine ⟨k + 1, Nat.le_succ k, rfl, fun l hl hl' => ?_, .found (by omega) hempty hacc⟩
        obtain rfl : l = k := by omega
        exact hempty
      · rw [if_neg hacc, if_neg hacc]
        obtain ⟨n, hn, hlog, hocc, hstop⟩ := ih (k + 1) (by omega)
        refine ⟨n, by omega, hlog, fun l hl hl' => ?_, hstop⟩
        rcases Nat.eq_or_lt_of_le hl with rfl | hl
        · exact hempty
        · exact hocc l hl hl'

/-- A search asks about the slots on its way one after the other, none of them empty, until one is
accepted, the next one is empty or there are no more. -/
theorem probeLog_eq (t : CellTable) (start : Nat) (accepts : Slot → Bool) :
    ∃ n, t.probeLog start accepts = (t.probe start accepts, t.contents start n) ∧
      (∀ l < n, t.get (t.visited start l) ≠ .empty) ∧
      t.Stops start accepts n (t.probe start accepts) := by
  obtain ⟨n, -, hlog, hocc, hstop⟩ := go_noting t start accepts t.size 0 (Nat.add_zero _)
  exact ⟨n, hlog, fun l hl => hocc l (Nat.zero_le l) hl, hstop⟩

/-- Whether a search asks about the slot at a position and all before it, or ends at one of these
because it accepts it. -/
def Reaches (t : CellTable) (start : Nat) (accepts : Slot → Bool) (position : Nat) : Prop :=
  ∃ k < t.size, t.visited start k = position ∧
    (t.contents start (k + 1) <+: (t.probeLog start accepts).2 ∨
      ∃ n < k, t.probe start accepts = .found (t.visited start n))

/-- A search reaches every occupied slot that its start leads to. -/
theorem Leads.reaches (hl : t.Leads start i) (hne : t.get i ≠ .empty) (accepts : Slot → Bool) :
    t.Reaches start accepts i := by
  obtain ⟨k, hk, rfl, hlead⟩ := hl
  refine ⟨k, hk, rfl, ?_⟩
  obtain ⟨n, hlog, -, hstop⟩ := probeLog_eq t start accepts
  rw [hlog]
  -- a search that stops early has found something, since no slot on the way is empty
  rcases Nat.lt_or_ge k n with hkn | hkn
  · exact .inl (isPrefix_contents t start hkn)
  · right
    generalize t.probe start accepts = outcome at hstop
    cases hstop with
    | found => exact ⟨_, hkn, rfl⟩
    | vacant _ hempty =>
      rcases Nat.eq_or_lt_of_le hkn with rfl | hlt
      · exact absurd hempty hne
      · exact absurd hempty (hlead _ hlt)
    | full => omega

/-! ## Room in the table -/

theorem get_eq_getElem (hi : i < t.slots.size) : t.get i = t.slots[i] := by
  rw [get, Array.getD_eq_getD_getElem?, Array.getElem?_eq_getElem hi, Option.getD_some]

theorem occupied_set (hi : i < t.slots.size) :
    (t.set i slot).occupied =
      t.occupied - (if t.get i ≠ .empty then 1 else 0) + (if slot ≠ .empty then 1 else 0) := by
  show (t.slots.setIfInBounds i slot).countP _ = t.slots.countP _ - _ + _
  rw [get_eq_getElem hi, Array.setIfInBounds_def, dif_pos hi, Array.countP_set]
  simp

/-- Replacing what an occupied slot holds occupies no other. -/
theorem occupied_set_le (hi : t.get i ≠ .empty) : (t.set i slot).occupied ≤ t.occupied := by
  have hlt : i < t.slots.size := lt_size_of_get_ne hi
  have hpos : 0 < t.occupied := by
    rw [occupied, Array.countP_pos_iff]
    rw [get_eq_getElem hlt] at hi
    exact ⟨_, Array.getElem_mem hlt, decide_eq_true hi⟩
  rw [occupied_set hlt, if_pos hi]
  split <;> omega

theorem occupied_set_succ_le (hi : i < t.size) : (t.set i slot).occupied ≤ t.occupied + 1 := by
  rw [occupied_set hi]
  split <;> split <;> omega

theorem lt_size_empty (count slotsPerEndpoint : Nat) :
    count < (empty count slotsPerEndpoint).size := by
  rw [size_empty]
  exact Nat.lt_succ_of_le (Nat.le_mul_of_pos_right count (Nat.le_max_left 1 slotsPerEndpoint))

theorem occupied_empty (count slotsPerEndpoint : Nat) :
    (empty count slotsPerEndpoint).occupied = 0 := by
  rw [occupied, empty, Array.countP_replicate]
  simp

theorem exists_empty (h : t.occupied < t.size) : ∃ j < t.size, t.get j = .empty := by
  by_contra hfull
  have hall : t.occupied = t.slots.size := by
    rw [occupied, Array.countP_eq_size]
    intro slot hslot
    obtain ⟨j, hj, rfl⟩ := Array.getElem_of_mem hslot
    rw [decide_eq_true_iff]
    intro hempty
    refine hfull ⟨j, hj, ?_⟩
    rw [get_eq_getElem hj, hempty]
  rw [hall] at h
  exact Nat.lt_irrefl _ h

end DoubleCurve.CellTable
