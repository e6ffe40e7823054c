import DoubleCurve.Proofs.Distance.Lowering
import Mathlib.Order.Bounds.Basic

/-!
# Distances are numbers of steps

`Mesh.Reached` says in how many steps a face can be reached from the seeds.
`Propagation.Progress` is the invariant of a propagation: every distance is such
a number, and every face that was reached waits or is settled. When no face is
left waiting, distances grow by no more than one with a step
(`Propagation.Progress.distance_step_le`), so that each is the least number of
steps, cut off at the greatest distance.
-/

namespace DoubleCurve

namespace Mesh

variable {α : Type}

/-- Whether a face can be reached in so many steps from a seed that is the number of a face. -/
inductive Reached (m : Mesh α) (mode : Mode) (seeds : List Nat) : Nat → Nat → Prop
  | seed {f : Nat} : f ∈ seeds → f < m.faceCount → Reached m mode seeds 0 f
  | step {n f g : Nat} : Reached m mode seeds n f → m.IsStep mode f g →
    Reached m mode seeds (n + 1) g

end Mesh

namespace Seeding

variable {α : Type} {faceCount : Nat}

theorem size_plant (s : Seeding α) (f : Nat) :
    (s.plant f).distances.size = s.distances.size := by
  rw [plant]
  split
  · exact Array.size_setIfInBounds
  · rfl

theorem getElem?_plant (s : Seeding α) {f g : Nat} (hg : g < s.distances.size) :
    (s.plant f).distances[g]? = if g = f then some DistanceField.seed else s.distances[g]? := by
  rw [plant]
  by_cases hgf : g = f
  · subst hgf
    rw [if_pos hg, if_pos rfl, Array.getElem?_setIfInBounds_self_of_lt hg]
  · rw [if_neg hgf]
    split
    · exact Array.getElem?_setIfInBounds_ne (Ne.symm hgf)
    · rfl

/-- What seeds make of the distances, by induction on the seeds. -/
theorem foldl_plant (s : Seeding α) (seeds : List Nat) :
    (seeds.foldl plant s).distances.size = s.distances.size ∧
      ∀ f < s.distances.size, (seeds.foldl plant s).distances[f]? =
        if f ∈ seeds then some DistanceField.seed else s.distances[f]? := by
  induction seeds generalizing s with
  | nil => exact ⟨rfl, fun f _ => rfl⟩
  | cons a seeds ih =>
    obtain ⟨hsize, hget⟩ := ih (s.plant a)
    rw [size_plant] at hsize hget
    refine ⟨hsize, fun f hf => ?_⟩
    rw [List.foldl_cons, hget f hf, getElem?_plant s hf]
    by_cases hfa : f = a
    · simp [hfa]
    · simp [hfa]

/-- A notice for every seed that is not the number of a face, by induction on the seeds. -/
theorem notices_foldl_plant (s : Seeding α) (seeds : List Nat) :
    (seeds.foldl plant s).notices = s.notices ++ ((seeds.filter (s.distances.size ≤ ·)).map fun f =>
      .warning (.missingSeed f s.distances.size)).toArray := by
  induction seeds generalizing s with
  | nil => simp
  | cons a seeds ih =>
    rw [List.foldl_cons, ih, size_plant, plant]
    by_cases ha : a < s.distances.size
    · rw [if_pos ha, List.filter_cons_of_neg (by simpa using ha)]
    · rw [if_neg ha, List.filter_cons_of_pos (by simpa using ha)]
      simp

theorem size_ofSeeds (seeds : List Nat) :
    (ofSeeds (α := α) faceCount seeds).distances.size = faceCount := by
  rw [ofSeeds, (foldl_plant _ seeds).1, Array.size_replicate]

/-- The seeds have a distance, and no other face has one. -/
theorem getElem?_ofSeeds (seeds : List Nat) {f : Nat} (hf : f < faceCount) :
    (ofSeeds (α := α) faceCount seeds).distances[f]? =
      some (if f ∈ seeds then DistanceField.seed else DistanceField.unknown) := by
  rw [ofSeeds, (foldl_plant _ seeds).2 f (by rwa [Array.size_replicate])]
  split
  · rfl
  · rw [Array.getElem?_replicate, if_pos hf]

theorem notices_ofSeeds (seeds : List Nat) : (ofSeeds (α := α) faceCount seeds).notices =
    ((seeds.filter (faceCount ≤ ·)).map fun f =>
      .warning (.missingSeed f faceCount)).toArray := by
  rw [ofSeeds, notices_foldl_plant, Array.size_replicate, Array.empty_append]

theorem distances_congr {seeds seeds' : List Nat}
    (h : ∀ f < faceCount, f ∈ seeds' ↔ f ∈ seeds) :
    (ofSeeds (α := α) faceCount seeds').distances =
      (ofSeeds (α := α) faceCount seeds).distances := by
  refine Array.ext_getElem? fun f => ?_
  rcases Nat.lt_or_ge f faceCount with hf | hf
  · rw [getElem?_ofSeeds seeds' hf, getElem?_ofSeeds seeds hf]
    simp only [h f hf]
  · rw [Array.getElem?_eq_none (by rwa [size_ofSeeds]),
      Array.getElem?_eq_none (by rwa [size_ofSeeds])]

end Seeding

namespace Propagation

open DistanceField (clamp)

variable {α : Type} {m : Mesh α} {mode : Mode} {seeds : List Nat} {p : Propagation} {f g n v : Nat}

/-- What holds of the state before and after every visit. -/
structure Progress (m : Mesh α) (mode : Mode) (seeds : List Nat) (p : Propagation) : Prop where
  ready : Ready m.faceCount p
  seed {f : Nat} : f ∈ seeds → f < m.faceCount → p.distance f = DistanceField.seed
  reached {f : Nat} : f < m.faceCount → p.distance f ≠ DistanceField.unknown →
    m.Reached mode seeds (p.distance f).toNat f
  settled {f : Nat} : f < m.faceCount → p.distance f ≠ DistanceField.unknown →
    f ∈ p.waiting ∨ Settled m mode p f

namespace Progress

theorem start (m : Mesh α) (mode : Mode) (seeds : List Nat) :
    Progress m mode seeds
      (start (Seeding.ofSeeds (α := α) m.faceCount seeds).distances) := by
  have hsize : (Seeding.ofSeeds (α := α) m.faceCount seeds).distances.size = m.faceCount :=
    Seeding.size_ofSeeds seeds
  have hdistance {f : Nat} (hf : f < m.faceCount) :
      (Propagation.start (Seeding.ofSeeds (α := α) m.faceCount seeds).distances).distance f =
        if f ∈ seeds then DistanceField.seed else DistanceField.unknown := by
    rw [distance, Propagation.start, Array.getD_eq_getD_getElem?, Seeding.getElem?_ofSeeds seeds hf,
      Option.getD_some]
  have hseed {f : Nat} (hf : f < m.faceCount)
      (hne : (Propagation.start (Seeding.ofSeeds (α := α) m.faceCount seeds).distances).distance f ≠
        DistanceField.unknown) : f ∈ seeds := by
    by_contra hnot
    rw [hdistance hf, if_neg hnot] at hne
    exact hne rfl
  refine ⟨⟨hsize, ?_, fun stamp hstamp => ?_, Nat.zero_le _⟩, fun hf hlt => ?_,
    fun {f} hf hne => ?_, fun {f} hf hne => .inl ?_⟩
  · rw [Propagation.start, Array.size_replicate, hsize]
  · exact Nat.le_of_eq (Array.eq_of_mem_replicate hstamp)
  · rw [hdistance hlt, if_pos hf]
  · rw [hdistance hf, if_pos (hseed hf hne)]
    exact .seed (hseed hf hne) hf
  · show f ∈ List.drop 0 _
    rw [List.drop_zero, Array.mem_toList_iff, Propagation.start, Array.mem_filter, Array.mem_range,
      Array.getD_eq_getD_getElem?, Seeding.getElem?_ofSeeds seeds hf, hsize]
    exact ⟨hf, by rw [if_pos (hseed hf hne)]; rfl⟩

theorem step (h : Progress m mode seeds p) (hp : p.visited < p.order.size) :
    Progress m mode seeds
      ({ p with visited := p.visited + 1 }.visit m mode p.order[p.visited]) := by
  generalize hf : p.order[p.visited] = f
  generalize hq : { p with visited := p.visited + 1 } = q
  have hwaiting : p.waiting = f :: q.waiting := by
    subst hq hf
    exact List.drop_eq_getElem_cons (by simpa using hp)
  have hready : Ready m.faceCount q := by
    subst hq
    exact { h.ready with visited_le := hp }
  have hdistance (g : Nat) : q.distance g = p.distance g := by
    subst hq
    rfl
  obtain ⟨hlowers, hsettled⟩ := visit_spec m mode hready f
  simp only [hdistance] at hlowers
  refine ⟨hlowers.ready, fun {g} hg hlt => ?_, fun {g} hg hne => ?_, fun {g} hg hne => ?_⟩
  · have hzero : q.distance g = DistanceField.seed := (hdistance g).trans (h.seed hg hlt)
    rw [hlowers.eq_of_le, hzero]
    rw [hzero]
    exact UInt8.zero_le
  · rcases hlowers.cases g with hkept | ⟨hstep, hlt, hd, -⟩
    · rw [hkept, hdistance] at hne ⊢
      exact h.reached hg hne
    · -- a face is lowered only where there is room for one more step
      have hroom : (clamp ((p.distance f).toNat + 1)).toNat < 255 :=
        Nat.lt_of_lt_of_le (UInt8.lt_iff_toNat_lt.1 hlt) (Nat.le_of_lt_succ (UInt8.toNat_lt _))
      rw [hd]
      rw [DistanceField.toNat_clamp] at hroom ⊢
      rw [Nat.min_eq_left (by omega)]
      refine .step (h.reached hstep.lt_left fun hf => ?_) hstep
      rw [hf] at hroom
      exact absurd hroom (by decide)
  · rcases hlowers.cases g with hkept | ⟨-, -, -, hwait⟩
    · have hsame := hkept.trans (hdistance g)
      rcases h.settled hg (hsame ▸ hne) with hwait | hset
      · rw [hwaiting] at hwait
        rcases List.mem_cons.1 hwait with rfl | hwait
        · exact .inr hsettled
        · exact .inl (hlowers.waiting hwait)
      · exact .inr (hset.mono (fun x => hdistance x ▸ hlowers.le x) hsame)
    · exact .inl hwait

/-- A propagation makes progress until no face waits, by induction on its visits. -/
theorem run (h : Progress m mode seeds p) :
    Progress m mode seeds (p.run m mode) ∧ (p.run m mode).waiting = [] := by
  fun_induction Propagation.run m mode p with
  | case1 p hp ih => exact ih (h.step hp)
  | case2 p hp => exact ⟨h, List.drop_eq_nil_iff.2 (by simpa using hp)⟩

/-! ## When no face waits -/

section

variable (h : Progress m mode seeds p) (hdone : p.waiting = [])

include h hdone

theorem settled_of_lt (hf : f < m.faceCount) (hne : p.distance f ≠ DistanceField.unknown) :
    Settled m mode p f := by
  rcases h.settled hf hne with hwait | hset
  · rw [hdone] at hwait
    cases hwait
  · exact hset

end

/-- However a walk around a vertex goes on from faces that have been walked over, it comes to no
face that is farther than these. Where the walk was broken off, the face in the way is closer and
has been walked around itself. The induction is on the rest of the way. -/
theorem le_of_chain (h : Progress m .ribbon seeds p) (hdone : p.waiting = [])
    (hchain : Relation.ReflTransGen (m.Turns v) f g) {d : UInt8} {seen : Set Nat} (hf : f ∈ seen)
    (hlow : ∀ e ∈ seen, p.distance e ≤ d)
    (hclosed : ∀ e ∈ seen, ∀ e', m.Turns v e e' → e' ∈ seen ∨ p.distance e' < d) :
    p.distance g ≤ d := by
  induction hchain using Relation.ReflTransGen.head_induction_on generalizing d seen with
  | refl => exact hlow g hf
  | @head f f' hff' hchain ih =>
    rcases hclosed f hf f' hff' with hin | hlt
    · exact ih hin hlow hclosed
    · have hlt' := UInt8.lt_iff_toNat_lt.1 hlt
      have hd := d.toNat_lt
      have hne : p.distance f' ≠ DistanceField.unknown := fun hunknown => by
        rw [hunknown] at hlt'
        have : DistanceField.unknown.toNat = 255 := rfl
        omega
      obtain ⟨seen', hf', hlow', hclosed'⟩ :=
        h.settled_of_lt hdone (Mesh.lt_of_mem_face hff'.2) hne v hff'.2
      refine UInt8.le_trans (ih hf' hlow' hclosed') (UInt8.le_iff_toNat_le.2 ?_)
      rw [DistanceField.toNat_clamp]
      omega

theorem distance_step_le (h : Progress m mode seeds p) (hdone : p.waiting = [])
    (hstep : m.IsStep mode f g) : p.distance g ≤ clamp ((p.distance f).toNat + 1) := by
  by_cases hne : p.distance f = DistanceField.unknown
  · rw [hne, UInt8.le_iff_toNat_le, DistanceField.toNat_clamp]
    exact Nat.le_of_lt_succ (UInt8.toNat_lt _)
  · have hset := h.settled_of_lt hdone hstep.lt_left hne
    cases mode with
    | face => exact hset g hstep
    | ribbon =>
      obtain ⟨v, hv, hchain⟩ := hstep
      obtain ⟨seen, hf, hlow, hclosed⟩ := hset v hv
      exact h.le_of_chain hdone hchain hf hlow hclosed

/-- A face that is reached in some number of steps is no farther, by induction on the steps. -/
theorem toNat_distance_le (h : Progress m mode seeds p) (hdone : p.waiting = [])
    (hreached : m.Reached mode seeds n f) : (p.distance f).toNat ≤ n := by
  induction hreached with
  | seed hf hlt =>
    rw [h.seed hf hlt]
    exact Nat.zero_le 0
  | step _ hstep ih =>
    have hle := UInt8.le_iff_toNat_le.1 (h.distance_step_le hdone hstep)
    rw [DistanceField.toNat_clamp] at hle
    omega

/-- Every distance is the least number of steps, as far as that is a distance. -/
theorem toNat_distance_eq (h : Progress m mode seeds p) (hdone : p.waiting = [])
    (hf : f < m.faceCount) (hn : IsLeast {n | m.Reached mode seeds n f} n) :
    (p.distance f).toNat = min 255 n := by
  have hle := h.toNat_distance_le hdone hn.1
  by_cases hne : p.distance f = DistanceField.unknown
  · rw [hne] at hle ⊢
    exact (Nat.min_eq_left hle).symm
  · have hge : n ≤ (p.distance f).toNat := hn.2 (h.reached hf hne)
    have := (p.distance f).toNat_lt
    omega

end Progress

end Propagation

namespace DistanceField

variable {α : Type}

theorem progress_compute (m : Mesh α) (seeds : List Nat) (mode : Mode) :
    ∃ p : Propagation, (compute m seeds mode).1.bytes = p.distances ∧
      p.Progress m mode seeds ∧ p.waiting = [] :=
  ⟨_, rfl, (Propagation.Progress.start m mode seeds).run⟩

theorem size_compute (m : Mesh α) (seeds : List Nat) (mode : Mode) :
    (compute m seeds mode).1.size = m.faceCount := by
  obtain ⟨p, hbytes, hprogress, -⟩ := progress_compute m seeds mode
  rw [size, hbytes, hprogress.ready.size_distances]

/-- The distance of a face is the least number of steps from a seed, cut off at the greatest
distance, and the greatest distance if there is no way. -/
theorem getElem?_compute (m : Mesh α) (seeds : List Nat) (mode : Mode) {f : Nat}
    (hf : f < m.faceCount) :
    (∀ n, IsLeast {n | m.Reached mode seeds n f} n →
      (compute m seeds mode).1.bytes[f]?.map UInt8.toNat = some (min 255 n)) ∧
    ((∀ n, ¬ m.Reached mode seeds n f) → (compute m seeds mode).1.bytes[f]? = some unknown) := by
  obtain ⟨p, hbytes, hprogress, hdone⟩ := progress_compute m seeds mode
  have hlt : f < p.distances.size := by rwa [hprogress.ready.size_distances]
  have hget : p.distances[f]? = some (p.distance f) := by
    rw [Propagation.distance, Array.getD_eq_getD_getElem?, Array.getElem?_eq_getElem hlt,
      Option.getD_some]
  rw [hbytes, hget]
  refine ⟨fun n hn => ?_, fun hnone => congrArg some ?_⟩
  · rw [Option.map_some, hprogress.toNat_distance_eq hdone hf hn]
  · by_contra hne
    exact hnone _ (hprogress.reached hf hne)

/-! ## Around vertices and across edges -/

/-- Three faces around a vertex, each leading to the next and none back, and one face apart. -/
def oneWayFan : Mesh Float where
  positions := Array.replicate 8 .zero
  faces := #[#[0, 1, 2], #[0, 2, 3], #[0, 3, 4], #[5, 6, 7]]
  neighbours := #[#[none, none, some 1], #[none, none, some 2], #[none, none, none],
    #[none, none, none]]
  three_le := by decide
  vertex_lt := by decide
  row_sizes := Mesh.row_sizes_of_neighboursFault? rfl
  neighbour_lt := Mesh.neighbour_lt_of_neighboursFault? rfl

theorem adjacent_fan {f g : Nat} (h : g ∈ oneWayFan.adjacent f) : f + 1 = g ∧ g ≤ 2 := by
  have hf : f < 4 := Mesh.lt_of_adjacent h
  match f with
  | 0 | 1 | 2 | 3 => simp_all [oneWayFan, Mesh.adjacent, Mesh.row]

theorem eq_zero_of_seed_fan {f : Nat} (hs : f ∈ [0, 7]) (hf : f < oneWayFan.faceCount) : f = 0 := by
  have hlt : f < 4 := hf
  simp only [List.mem_cons, List.not_mem_nil, or_false] at hs
  omega

/-- No way leads to the face that is apart. -/
theorem le_two_of_reached_fan {mode : Mode} {n f : Nat} (h : oneWayFan.Reached mode [0, 7] n f) :
    f ≤ 2 := by
  induction h with
  | seed hs hf =>
    rw [eq_zero_of_seed_fan hs hf]
    exact Nat.zero_le 2
  | step _ hstep ih =>
    cases mode with
    | face => exact (adjacent_fan hstep).2
    | ribbon =>
      obtain ⟨v, -, hchain⟩ := hstep
      rcases hchain.cases_tail with rfl | ⟨e, -, he⟩
      · exact ih
      · exact (adjacent_fan he.1).2

/-- Every edge that is crossed leads to the next face. -/
theorem le_of_reached_fan {n f : Nat} (h : oneWayFan.Reached .face [0, 7] n f) : f ≤ n := by
  induction h with
  | seed hs hf => exact Nat.le_of_eq (eq_zero_of_seed_fan hs hf)
  | step _ hstep ih =>
    have := (adjacent_fan hstep).1
    omega

/-- The distance of every face is the least number of walks around a vertex that lead to it from a
seed. No byte is greater than 255, and 255 is also the distance of faces that no walks lead to. -/
theorem ribbon_distances (m : Mesh α) (seeds : List Nat) :
    (compute m seeds .ribbon).1.size = m.faceCount ∧ ∀ f < m.faceCount,
      (∀ n, IsLeast {n | m.Reached .ribbon seeds n f} n →
        (compute m seeds .ribbon).1.bytes[f]?.map UInt8.toNat = some (min 255 n)) ∧
      ((∀ n, ¬ m.Reached .ribbon seeds n f) →
        (compute m seeds .ribbon).1.bytes[f]? = some 255) :=
  ⟨size_compute m seeds .ribbon, fun _ hf => getElem?_compute m seeds .ribbon hf⟩

/-- In the fan, the last face around the vertex is one walk away, and the face apart is not
reached. -/
theorem ribbon_distances_fan :
    (compute oneWayFan [0, 7] .ribbon).1.bytes[2]?.map UInt8.toNat = some 1 ∧
      (compute oneWayFan [0, 7] .ribbon).1.bytes[3]? = some 255 := by
  obtain ⟨-, hall⟩ := ribbon_distances oneWayFan [0, 7]
  have hwalk : oneWayFan.Around 0 0 2 :=
    ⟨by decide, .tail (.single (b := 1) ⟨by decide, by decide⟩) ⟨by decide, by decide⟩⟩
  have hleast : IsLeast {n | oneWayFan.Reached .ribbon [0, 7] n 2} 1 := by
    refine ⟨Mesh.Reached.step (.seed (by decide) (by decide)) ⟨0, hwalk⟩, fun n hn => ?_⟩
    refine Nat.pos_of_ne_zero fun hzero => ?_
    subst hzero
    cases hn with
    | seed hs => exact absurd hs (by decide)
  exact ⟨(hall 2 (by decide)).1 1 hleast, (hall 3 (by decide)).2 fun n hn =>
    absurd (le_two_of_reached_fan hn) (by decide)⟩

/-- The distance of every face is the least number of edges that are crossed on the way to it from a
seed. There is a notice for every seed that is not the number of a face, in the order of the seeds,
and the distances depend only on which faces are seeds. -/
theorem face_distances (m : Mesh α) (seeds : List Nat) :
    ((compute m seeds .face).1.size = m.faceCount ∧ ∀ f < m.faceCount,
      (∀ n, IsLeast {n | m.Reached .face seeds n f} n →
        (compute m seeds .face).1.bytes[f]?.map UInt8.toNat = some (min 255 n)) ∧
      ((∀ n, ¬ m.Reached .face seeds n f) →
        (compute m seeds .face).1.bytes[f]? = some 255)) ∧
    (compute m seeds .face).2 = ((seeds.filter (m.faceCount ≤ ·)).map fun f =>
      .warning (.missingSeed f m.faceCount)).toArray ∧
    ∀ seeds', (∀ f < m.faceCount, f ∈ seeds' ↔ f ∈ seeds) →
      (compute m seeds' .face).1 = (compute m seeds .face).1 := by
  refine ⟨⟨size_compute m seeds .face, fun _ hf => getElem?_compute m seeds .face hf⟩,
    Seeding.notices_ofSeeds seeds, fun seeds' hsame => ?_⟩
  rw [compute, compute, Seeding.distances_congr hsame]

/-- Across edges it is two steps away, and the seed that is left out is reported. -/
theorem face_distances_fan :
    (compute oneWayFan [0, 7] .face).1.bytes[2]?.map UInt8.toNat = some 2 ∧
      (compute oneWayFan [0, 7] .face).1.bytes[3]? = some 255 ∧
      (compute oneWayFan [0, 7] .face).2 = #[.warning (.missingSeed 7 4)] ∧
      (compute oneWayFan [0] .face).1 = (compute oneWayFan [0, 7] .face).1 := by
  obtain ⟨⟨-, hall⟩, hnotices, hsame⟩ := face_distances oneWayFan [0, 7]
  have hleast : IsLeast {n | oneWayFan.Reached .face [0, 7] n 2} 2 :=
    ⟨Mesh.Reached.step (.step (.seed (by decide) (by decide))
      (show 1 ∈ oneWayFan.adjacent 0 by decide)) (show 2 ∈ oneWayFan.adjacent 1 by decide),
      fun n hn => le_of_reached_fan hn⟩
  refine ⟨(hall 2 (by decide)).1 2 hleast, (hall 3 (by decide)).2 fun n hn =>
    absurd (le_two_of_reached_fan hn) (by decide), hnotices, hsame [0] fun f hf => ?_⟩
  have hlt : f < 4 := hf
  simp only [List.mem_cons, List.not_mem_nil, or_false]
  omega

end DistanceField

end DoubleCurve
