import DoubleCurve.Matching

/-!
# What a trace changes

While curves are traced along the links of a matching, endpoints are used up and
the links at junctions are replaced by links between two endpoints. The matching
itself stays as it is; `Trace.State` is a copy of what changes. The number of
endpoints that are still free bounds the length of every walk.
-/

namespace DoubleCurve.Trace

/-- Whether an endpoint can still be walked over. -/
inductive Usage where
  /-- It can. -/
  | free
  /-- It was kept out of matching. -/
  | excluded
  /-- It belongs to a segment that was walked over. By which walk is not kept, since nothing asks for
  it. -/
  | claimed
deriving DecidableEq, Repr

/-- The usage of every endpoint. -/
structure Usages where
  /-- The entries, by the index of the endpoint. -/
  entries : Array Usage
deriving DecidableEq, Repr

namespace Usages

/-- The usage of `e`; an endpoint outside the table cannot be walked over. -/
def get (u : Usages) (e : Endpoint) : Usage := u.entries.getD e.index .excluded

/-- The table with `e` claimed. -/
def claim (u : Usages) (e : Endpoint) : Usages := ⟨u.entries.setIfInBounds e.index .claimed⟩

/-- The table with both endpoints of the segment of `e` claimed. -/
def claimSegment (u : Usages) (e : Endpoint) : Usages := (u.claim e).claim e.twin

/-- Whether `e` can still be walked over. -/
def isFree (u : Usages) (e : Endpoint) : Bool := u.get e == .free

/-- The number of endpoints that can still be walked over. -/
def freeCount (u : Usages) : Nat := u.entries.count .free

variable {u : Usages} {e e' : Endpoint}

theorem get_claim_self (h : e.index < u.entries.size) : (u.claim e).get e = .claimed := by
  simp [claim, get, Array.getD_eq_getD_getElem?, h]

theorem get_claim_of_ne (h : e ≠ e') : (u.claim e).get e' = u.get e' := by
  have hi : e.index ≠ e'.index := fun hi => h (Endpoint.ext hi)
  simp [claim, get, Array.getD_eq_getD_getElem?, hi]

/-- Claiming an endpoint leaves the others as free as they were. -/
theorem isFree_claim (u : Usages) (e a : Endpoint) :
    (u.claim e).isFree a = (u.isFree a && a != e) := by
  by_cases h : e = a
  · subst h
    rw [bne_self_eq_false, Bool.and_false, isFree]
    rcases Nat.lt_or_ge e.index u.entries.size with hlt | hge
    · rw [get_claim_self hlt]
      rfl
    · simp [claim, get, Array.getD_eq_getD_getElem?, hge]
  · rw [isFree, get_claim_of_ne h, isFree, bne_iff_ne.2 (Ne.symm h), Bool.and_true]

theorem isFree_claimSegment (u : Usages) (e a : Endpoint) :
    (u.claimSegment e).isFree a = (u.isFree a && a.segment != e.segment) := by
  rw [claimSegment, isFree_claim, isFree_claim, Bool.and_assoc]
  congr 1
  rw [Bool.eq_iff_iff, Bool.and_eq_true, bne_iff_ne, bne_iff_ne, bne_iff_ne, ne_eq, ne_eq, ne_eq,
    Endpoint.segment_eq_iff, not_or]

/-- A free endpoint is in the table. -/
theorem index_lt_of_isFree (h : u.isFree e = true) : e.index < u.entries.size := by
  simp only [isFree, beq_iff_eq, get, Array.getD_eq_getD_getElem?] at h
  rcases Nat.lt_or_ge e.index u.entries.size with hlt | hge
  · exact hlt
  · simp [Array.getElem?_eq_none hge] at h

/-- Claiming frees nothing. -/
theorem freeCount_claim_le (u : Usages) (e : Endpoint) : (u.claim e).freeCount ≤ u.freeCount := by
  simp only [claim, freeCount, Array.setIfInBounds]
  split
  · rename_i h
    rw [Array.count_set h]
    simp
  · exact Nat.le_refl _

/-- Claiming a free endpoint leaves one fewer. -/
theorem freeCount_claim_of_isFree (h : u.isFree e = true) :
    (u.claim e).freeCount + 1 = u.freeCount := by
  have hlt := index_lt_of_isFree h
  have hfree : u.entries[e.index] = .free := by
    simpa [isFree, get, Array.getD_eq_getD_getElem?, hlt] using h
  have hpos : 0 < u.entries.count .free :=
    Array.count_pos_iff.mpr (hfree ▸ Array.getElem_mem hlt)
  simp only [claim, freeCount, Array.setIfInBounds, hlt, ↓reduceDIte]
  rw [Array.count_set hlt, hfree]
  simp only [beq_self_eq_true, ↓reduceIte]
  simp
  omega

theorem freeCount_claimSegment_le (u : Usages) (e : Endpoint) :
    (u.claimSegment e).freeCount ≤ u.freeCount :=
  Nat.le_trans (freeCount_claim_le _ _) (freeCount_claim_le _ _)

/-- Claiming the segment of an endpoint whose twin is free leaves fewer free endpoints. -/
theorem freeCount_claimSegment_lt (h : u.isFree e.twin = true) :
    (u.claimSegment e).freeCount < u.freeCount := by
  have hne : e ≠ e.twin := fun he => e.twin_ne he.symm
  have h' : (u.claim e).isFree e.twin = true := by
    simp only [isFree, get_claim_of_ne hne] at h ⊢
    exact h
  have := freeCount_claim_of_isFree h'
  have := freeCount_claim_le u e
  simp only [claimSegment]
  omega

end Usages

/-- The state of a trace. -/
structure State (α : Type) where
  /-- The links, with those at junctions replaced as walks pass through. -/
  links : Links
  /-- The usage of every endpoint. -/
  usages : Usages
  /-- The notices so far. -/
  notices : Array (Notice α)

namespace State

variable {α : Type}

/-- The state before the first walk over a matching. -/
def start (m : Matching α) : State α where
  links := m.links
  usages := ⟨m.excluded.map fun excluded => if excluded then .excluded else .free⟩
  notices := #[]

/-- Whether `e` can still be walked over. -/
def isFree (s : State α) (e : Endpoint) : Bool := s.usages.isFree e

/-- The state with both endpoints of the segment of `e` claimed. -/
def claim (s : State α) (e : Endpoint) : State α := { s with usages := s.usages.claimSegment e }

/-- The state with one more notice. -/
def report (s : State α) (n : Notice α) : State α := { s with notices := s.notices.push n }

variable {m : Matching α} {s : State α} {e a : Endpoint} {n : Notice α}

@[simp] theorem links_claim : (s.claim e).links = s.links := rfl

@[simp] theorem notices_claim : (s.claim e).notices = s.notices := rfl

@[simp] theorem links_report : (s.report n).links = s.links := rfl

@[simp] theorem usages_report : (s.report n).usages = s.usages := rfl

@[simp] theorem isFree_report : (s.report n).isFree a = s.isFree a := rfl

/-- Claiming takes the two endpoints of a segment and no other. -/
theorem isFree_claim (s : State α) (e a : Endpoint) :
    (s.claim e).isFree a = (s.isFree a && a.segment != e.segment) :=
  s.usages.isFree_claimSegment e a

theorem isFree_claim_self (s : State α) (e : Endpoint) : (s.claim e).isFree e = false := by
  rw [isFree_claim, bne_self_eq_false, Bool.and_false]

/-- At first the endpoints are free that exist and are not excluded. -/
theorem isFree_start :
    (start m).isFree a = true ↔ a.index < m.excluded.size ∧ m.isExcluded a = false := by
  simp only [isFree, Usages.isFree, Usages.get, start, Matching.isExcluded, beq_iff_eq,
    Array.getD_eq_getD_getElem?, Array.getElem?_map]
  rcases Nat.lt_or_ge a.index m.excluded.size with hlt | hge
  · rw [Array.getElem?_eq_getElem hlt, Option.map_some, Option.getD_some, Option.getD_some]
    cases m.excluded[a.index] <;> simp [hlt]
  · rw [Array.getElem?_eq_none hge]
    simp [Nat.not_lt.2 hge]

end State

end DoubleCurve.Trace
