import DoubleCurve.Proofs.Matching.Probing
import Mathlib.Data.List.Nodup
import Mathlib.Data.Nat.ModEq

/-!
# A search as the first match on its way

The positions on the way of a search are all positions of the table, once each, from its start to
the end and around (`CellTable.way`). Whatever effects its test has, a search looks for the first
of them whose slot is empty or accepted (`CellTable.probeM_eq_findM?`). For a test without effects
this is the first match in a list (`CellTable.probe_eq_find?`).

A test with a state can tell what it was asked, in which order. `CellTable.asked_of_probeM` says
that it is asked about the slots on the way, one after the other, up to the first that it accepts,
and that the search ends there, or before the first empty slot, or when there are no more.
-/

namespace DoubleCurve.CellTable

variable {t : CellTable} {start i j : Nat}

/-- The positions in the order in which a search from `start` comes to them. -/
def way (t : CellTable) (start : Nat) : List Nat := (List.range t.size).map (t.visited start)

theorem visited_inj {k l : Nat} (hk : k < t.size) (hl : l < t.size)
    (h : t.visited start k = t.visited start l) : k = l := by
  have hmod : start + k ≡ start + l [MOD t.size] := h
  exact (Nat.ModEq.add_left_cancel' start hmod).eq_of_lt_of_lt hk hl

theorem nodup_way (t : CellTable) (start : Nat) : (t.way start).Nodup :=
  List.Nodup.map_on (fun _ hk _ hl => visited_inj (List.mem_range.1 hk) (List.mem_range.1 hl))
    List.nodup_range

/-- The way comes to every position of the table once. -/
theorem way_perm (t : CellTable) (start : Nat) : (t.way start).Perm (List.range t.size) := by
  rw [List.perm_ext_iff_of_nodup (t.nodup_way start) List.nodup_range]
  intro i
  rw [way, List.mem_map, List.mem_range]
  constructor
  · rintro ⟨k, -, rfl⟩
    exact t.visited_lt start k
  · intro hi
    obtain ⟨k, hk, rfl⟩ := exists_visited start hi
    exact ⟨k, List.mem_range.2 hk, rfl⟩

/-! ## The first match -/

/-- Where a search ended that stopped at this position, or passed them all. -/
def stopped (t : CellTable) (start : Nat) : Option Nat → Probe
  | some i => if t.get i = .empty then .vacant i else .found i
  | none => .vacant (start % t.size)

section

variable {m : Type → Type} [Monad m]

/-- Whether a search stops at a position: at an empty slot without asking, at an occupied one if the
test accepts it. -/
def stopsAt (t : CellTable) (test : Slot → m Bool) (position : Nat) : m Bool :=
  if t.get position = .empty then pure true else test (t.get position)

variable [LawfulMonad m]

/-- The rest of a search, by induction on the number of positions that are left. -/
theorem go_eq_findM? (t : CellTable) (start : Nat) (test : Slot → m Bool) (left k : Nat) :
    probeM.go t start test left (t.visited start k) =
      t.stopped start <$> ((List.range' k left).map (t.visited start)).findM? (t.stopsAt test) := by
  induction left generalizing k with
  | zero =>
    rw [probeM.go, List.range'_zero, List.map_nil, List.findM?, map_pure]
    rfl
  | succ left ih =>
    rw [probeM.go, List.range'_succ, List.map_cons, List.findM?, stopsAt, next_visited]
    by_cases hempty : t.get (t.visited start k) = .empty
    · rw [hempty, if_pos rfl, pure_bind, map_pure, stopped, if_pos hempty]
    · rw [if_neg hempty, map_bind]
      split
      · exact absurd ‹_› hempty
      · refine bind_congr fun accepted => ?_
        cases accepted with
        | true => rw [if_pos rfl, map_pure, stopped, if_neg hempty]
        | false => exact ih (k + 1)

/-- A search with any test is the search for the first position on its way at which it stops. -/
theorem probeM_eq_findM? (t : CellTable) (start : Nat) (test : Slot → m Bool) :
    t.probeM start test = t.stopped start <$> (t.way start).findM? (t.stopsAt test) := by
  rw [way, List.range_eq_range']
  exact go_eq_findM? t start test t.size 0

end

/-- A search with a test that has no effects ends at the first position on its way whose slot is
empty or accepted, or back at its start if there is none. -/
theorem probe_eq_find? (t : CellTable) (start : Nat) (accepts : Slot → Bool) :
    t.probe start accepts = t.stopped start
      ((t.way start).find? fun i => t.get i = .empty || accepts (t.get i)) := by
  have hstops : t.stopsAt (m := Id) (fun slot => pure (accepts slot)) =
      fun i => pure (t.get i = .empty || accepts (t.get i)) := by
    funext i
    rw [stopsAt]
    split <;> simp [*]
  rw [probe, probeM_eq_findM?, hstops, List.findM?_pure]
  rfl

/-! ## What a test is asked -/

section

variable {σ : Type} {test : Slot → StateM σ Bool} {ahead asked : List Nat} {answers : List Bool}
  {outcome : Probe}

/-- How a search from `start` ends, with the positions `ahead` still before it, that asks about some
of them and is given these answers. -/
inductive Answered (t : CellTable) (start : Nat) (ahead : List Nat) :
    List Nat → List Bool → Probe → Prop
  | found {before : List Nat} {i : Nat} :
      Answered t start ahead (before ++ [i]) (before.map (fun _ => false) ++ [true]) (.found i)
  /-- All are refused, and the next slot is empty. -/
  | vacant {asked : List Nat} {i : Nat} : asked ++ [i] <+: ahead → t.get i = .empty →
      Answered t start ahead asked (asked.map fun _ => false) (.vacant i)
  /-- All positions are asked about and refused, and the search ends where it began. -/
  | full : Answered t start ahead ahead (ahead.map fun _ => false) (.vacant (start % t.size))

/-- A position that is refused comes before the rest of the search. -/
theorem Answered.cons (h : t.Answered start ahead asked answers outcome) (i : Nat) :
    t.Answered start (i :: ahead) (i :: asked) (false :: answers) outcome := by
  cases h with
  | @found before j => exact @found t start (i :: ahead) (i :: before) j
  | vacant hnext hempty => exact .vacant ((List.prefix_cons_inj i).2 hnext) hempty
  | full => exact .full

/-- Asking a test about several positions, one after another. -/
def ask (t : CellTable) (test : Slot → StateM σ Bool) (positions : List Nat) : StateM σ (List Bool) :=
  positions.mapM fun i => test (t.get i)

theorem run_ask_cons (t : CellTable) (test : Slot → StateM σ Bool) (i : Nat) (positions : List Nat)
    (s : σ) : (t.ask test (i :: positions)).run s =
      (((test (t.get i)).run s).1 :: ((t.ask test positions).run ((test (t.get i)).run s).2).1,
        ((t.ask test positions).run ((test (t.get i)).run s).2).2) := by
  rw [ask, List.mapM_cons]
  rfl

/-- What a test is asked in a search of the positions `ahead`, by induction on them. -/
theorem asked_of_findM? (t : CellTable) (start : Nat) (test : Slot → StateM σ Bool)
    (ahead : List Nat) (s : σ) :
    ∃ asked answers, asked <+: ahead ∧ (∀ i ∈ asked, t.get i ≠ .empty) ∧
      (t.ask test asked).run s = (answers, ((ahead.findM? (t.stopsAt test)).run s).2) ∧
      t.Answered start ahead asked answers
        (t.stopped start ((ahead.findM? (t.stopsAt test)).run s).1) := by
  induction ahead generalizing s with
  | nil => exact ⟨[], [], List.prefix_rfl, List.forall_mem_nil _, rfl, .full⟩
  | cons i ahead ih =>
    have hfirst : [i] <+: i :: ahead := (List.prefix_cons_inj i).2 List.nil_prefix
    by_cases hempty : t.get i = .empty
    · have hfind : ((i :: ahead).findM? (t.stopsAt test)).run s = (some i, s) := by
        rw [List.findM?, stopsAt, if_pos hempty]
        rfl
      rw [hfind, stopped, if_pos hempty]
      exact ⟨[], [], List.nil_prefix, List.forall_mem_nil _, rfl, .vacant hfirst hempty⟩
    · rcases htest : (test (t.get i)).run s with ⟨accepted, s'⟩
      have hfind : ((i :: ahead).findM? (t.stopsAt test)).run s =
          if accepted then (some i, s') else (ahead.findM? (t.stopsAt test)).run s' := by
        rw [List.findM?, stopsAt, if_neg hempty, StateT.run_bind, htest]
        cases accepted <;> rfl
      cases accepted with
      | true =>
        rw [hfind, if_pos rfl, stopped, if_neg hempty]
        refine ⟨[i], [true], hfirst, List.forall_mem_singleton.2 hempty, ?_,
          @Answered.found t start (i :: ahead) [] i⟩
        rw [run_ask_cons, htest]
        rfl
      | false =>
        obtain ⟨asked, answers, hprefix, hocc, hask, hends⟩ := ih s'
        rw [hfind, if_neg Bool.false_ne_true]
        refine ⟨i :: asked, false :: answers, (List.prefix_cons_inj i).2 hprefix,
          List.forall_mem_cons.2 ⟨hempty, hocc⟩, ?_, hends.cons i⟩
        rw [run_ask_cons, htest]
        dsimp only
        rw [hask]

/-- A search goes around the table from its start and asks about occupied slots only, each at most
once, whatever the test does to its state. It finds the first that is accepted, if none before it is
empty, ends at the first empty one, if none before it is accepted, and is back at its start when all
are occupied and refused. -/
theorem asked_of_probeM (t : CellTable) (start : Nat) (test : Slot → StateM σ Bool) (s : σ) :
    (t.way start).Perm (List.range t.size) ∧
      ∃ asked answers, asked <+: t.way start ∧ asked.Nodup ∧ (∀ i ∈ asked, t.get i ≠ .empty) ∧
        (t.ask test asked).run s = (answers, ((t.probeM start test).run s).2) ∧
        t.Answered start (t.way start) asked answers ((t.probeM start test).run s).1 := by
  obtain ⟨asked, answers, hprefix, hocc, hask, hends⟩ :=
    asked_of_findM? t start test (t.way start) s
  rw [probeM_eq_findM?, StateT.run_map]
  exact ⟨t.way_perm start, asked, answers, hprefix, (t.nodup_way start).sublist hprefix.sublist, hocc,
    hask, hends⟩

end

end DoubleCurve.CellTable
