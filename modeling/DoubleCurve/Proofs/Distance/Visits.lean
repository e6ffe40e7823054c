import DoubleCurve.Proofs.Distance.Field
import Mathlib.Data.List.Nodup
import Mathlib.Data.List.Perm.Subperm

/-!
# Every face is visited once

A propagation is a list of visits (`Propagation.Visits`), each with the changes of
distances that it makes (`Propagation.Changes`). They are told one by one: a change
is what `Propagation.lower` does where it does anything, so that every change puts
a face at the end of the order.

`Propagation.Ordered` is the invariant of a visit that lowers faces to `d`: the faces
that were reached are in the order of their distances, none of them is farther than
`d`, and those that wait are not closer than the face visited. What can still be
lowered to `d` was therefore not reached before, and is lowered for the first time
(`Propagation.Ordered.of_lt`). Each face visited is at least as far as the one before
it, so this remains so when the next visit begins (`Propagation.Ordered.take`).
-/

namespace DoubleCurve

/-- A change of the distance of a face. -/
structure Change where
  face : Nat
  /-- Its distance before. -/
  before : UInt8
  /-- Its distance from then on. -/
  after : UInt8

/-- A visit of a face. -/
structure Visit where
  face : Nat
  /-- Its distance when its turn came. -/
  distance : UInt8
  /-- The changes that the visit made, one after another. -/
  changes : List Change

namespace Propagation

open DistanceField (clamp)

variable {α : Type} {m : Mesh α} {mode : Mode} {seeds : List Nat} {n : Nat} {d : UInt8}
  {p p' p'' : Propagation} {f : Nat} {changes changes' : List Change} {visits : List Visit}

/-- Whether these changes lead from a state to another, where walks stamp faces in between. -/
inductive Changes (d : UInt8) : Propagation → List Change → Propagation → Prop
  | done (p : Propagation) : Changes d p [] p
  | stamp {p p' : Propagation} {changes : List Change} (stamps : Array Nat) (walk : Nat) :
    Changes d { p with stamps, walk } changes p' → Changes d p changes p'
  | lower {p p' : Propagation} {f : Nat} {changes : List Change} : d < p.distance f →
    Changes d (p.lower d f) changes p' → Changes d p (⟨f, p.distance f, d⟩ :: changes) p'

/-- Whether these visits lead from a state to one in which no face waits. -/
inductive Visits (m : Mesh α) (mode : Mode) : Propagation → List Visit → Propagation → Prop
  | done {p : Propagation} : p.order.size ≤ p.visited → Visits m mode p [] p
  | visit {p p' : Propagation} {changes : List Change} {visits : List Visit}
    (h : p.visited < p.order.size) :
    Changes (clamp ((p.distance p.order[p.visited]).toNat + 1)) { p with visited := p.visited + 1 }
      changes ({ p with visited := p.visited + 1 }.visit m mode p.order[p.visited]) →
    Visits m mode ({ p with visited := p.visited + 1 }.visit m mode p.order[p.visited]) visits p' →
    Visits m mode p (⟨p.order[p.visited], p.distance p.order[p.visited], changes⟩ :: visits) p'

/-! ## What a propagation does -/

theorem Changes.append (h : Changes d p changes p') (h' : Changes d p' changes' p'') :
    Changes d p (changes ++ changes') p'' := by
  induction h with
  | done => exact h'
  | stamp stamps walk _ ih => exact .stamp stamps walk (ih h')
  | lower hd _ ih => exact .lower hd (ih h')

theorem exists_changes_lower (d : UInt8) (p : Propagation) (f : Nat) :
    ∃ changes, Changes d p changes (p.lower d f) := by
  by_cases hd : d < p.distance f
  · exact ⟨_, .lower hd (.done _)⟩
  · rw [lower, if_neg hd]
    exact ⟨_, .done p⟩

theorem exists_changes_foldl {β : Type} {step : Propagation → β → Propagation}
    (h : ∀ p b, ∃ changes, Changes d p changes (step p b)) (l : List β) (p : Propagation) :
    ∃ changes, Changes d p changes (l.foldl step p) := by
  induction l generalizing p with
  | nil => exact ⟨_, .done p⟩
  | cons b l ih =>
    obtain ⟨changes, hb⟩ := h p b
    obtain ⟨changes', hl⟩ := ih (step p b)
    exact ⟨changes ++ changes', hb.append hl⟩

/-- A walk around a vertex stamps and lowers one face after another, by induction on its ways. -/
theorem exists_changes_walkFan (m : Mesh α) (fan : Fan) (p : Propagation)
    (ways : List Crossing) : ∃ changes, Changes fan.distance p changes (walkFan m fan p ways) := by
  fun_induction walkFan m fan p ways with
  | case1 p => exact ⟨_, .done p⟩
  | case2 p c rest _ ih =>
    obtain ⟨changes, hlower⟩ := exists_changes_lower fan.distance
      { p with stamps := p.stamps.setIfInBounds c.target p.walk } c.target
    obtain ⟨changes', hrest⟩ := ih
    exact ⟨changes ++ changes', .stamp _ p.walk (hlower.append hrest)⟩
  | case3 p c rest _ ih => exact ih

theorem exists_changes_visit (m : Mesh α) (mode : Mode) (p : Propagation) (f : Nat) :
    ∃ changes, Changes (clamp ((p.distance f).toNat + 1)) p changes (p.visit m mode f) := by
  cases mode with
  | face => exact exists_changes_foldl (exists_changes_lower _) _ p
  | ribbon =>
    refine exists_changes_foldl (fun p v => ?_) _ p
    obtain ⟨changes, hwalk⟩ := exists_changes_walkFan m ⟨f, v, _⟩ { p with walk := p.walk + 1 }
      (waysOut m f f)
    exact ⟨changes, .stamp p.stamps _ hwalk⟩

/-- A propagation visits faces until none waits, by induction on its visits. -/
theorem exists_visits (m : Mesh α) (mode : Mode) (p : Propagation) :
    ∃ visits, Visits m mode p visits (p.run m mode) := by
  fun_induction run m mode p with
  | case1 p h ih =>
    obtain ⟨changes, hchanges⟩ := exists_changes_visit m mode
      { p with visited := p.visited + 1 } p.order[p.visited]
    obtain ⟨visits, hvisits⟩ := ih
    exact ⟨_, .visit h hchanges hvisits⟩
  | case2 p h => exact ⟨_, .done (Nat.not_lt.1 h)⟩

/-! ## What was reached is in order -/

/-- What holds while faces are lowered to `d`. -/
structure Ordered (n : Nat) (d : UInt8) (p : Propagation) : Prop where
  size : p.distances.size = n
  nodup : p.order.toList.Nodup
  lt {f : Nat} : f ∈ p.order.toList → f < n
  unknown {f : Nat} : f < n → f ∉ p.order.toList → p.distance f = DistanceField.unknown
  sorted : p.order.toList.Pairwise fun f g => p.distance f ≤ p.distance g
  le {f : Nat} : f ∈ p.order.toList → p.distance f ≤ d
  /-- No face that waits is closer than the one that is visited. -/
  next {f : Nat} : f ∈ p.waiting → d ≤ clamp ((p.distance f).toNat + 1)

/-- What changes make of a state. -/
structure Extends (p : Propagation) (changes : List Change) (p' : Propagation) : Prop where
  order : p'.order.toList = p.order.toList ++ changes.map Change.face
  /-- They had no distance before, and keep the one they get. -/
  change {c : Change} : c ∈ changes →
    c.before = DistanceField.unknown ∧ c.after = p'.distance c.face
  kept {f : Nat} : f ∈ p.order.toList → p'.distance f = p.distance f

namespace Extends

theorem refl (p : Propagation) : Extends p [] p :=
  ⟨(List.append_nil _).symm, fun hc => absurd hc List.not_mem_nil, fun _ => rfl⟩

theorem trans (h : Extends p changes p') (h' : Extends p' changes' p'') :
    Extends p (changes ++ changes') p'' where
  order := by rw [h'.order, h.order, List.map_append, List.append_assoc]
  change {c} hc := by
    rcases List.mem_append.1 hc with hc | hc
    · obtain ⟨hbefore, hafter⟩ := h.change hc
      refine ⟨hbefore, hafter.trans (h'.kept ?_).symm⟩
      rw [h.order]
      exact List.mem_append_right _ (List.mem_map_of_mem hc)
    · exact h'.change hc
  kept {f} hf := by
    rw [h'.kept, h.kept hf]
    rw [h.order]
    exact List.mem_append_left _ hf

end Extends

namespace Ordered

theorem of_lt (h : Ordered n d p) (hd : d < p.distance f) :
    f < n ∧ f ∉ p.order.toList ∧ p.distance f = DistanceField.unknown := by
  have hlt : f < n := h.size ▸ lt_size_of_lt_distance hd
  have hnot : f ∉ p.order.toList := fun hf => UInt8.not_le.2 hd (h.le hf)
  exact ⟨hlt, hnot, h.unknown hlt hnot⟩

theorem lower (h : Ordered n d p) (hd : d < p.distance f) :
    Ordered n d (p.lower d f) ∧ Extends p [⟨f, p.distance f, d⟩] (p.lower d f) := by
  obtain ⟨hlt, hnot, hunknown⟩ := h.of_lt hd
  have hlower : p.lower d f =
      { p with distances := p.distances.setIfInBounds f d, order := p.order.push f } := if_pos hd
  have horder : (p.lower d f).order.toList = p.order.toList ++ [f] := by
    rw [hlower, Array.toList_push]
  have hself : (p.lower d f).distance f = d := by rw [distance_lower, if_pos ⟨rfl, hd⟩]
  have hkept {g : Nat} (hg : g ∈ p.order.toList) :
      (p.lower d f).distance g = p.distance g := by
    rw [distance_lower, if_neg]
    rintro ⟨rfl, -⟩
    exact hnot hg
  refine ⟨⟨?_, ?_, fun {g} hg => ?_, fun {g} hg hout => ?_, ?_, fun {g} hg => ?_, fun {g} hg => ?_⟩,
    horder, fun {c} hc => ?_, hkept⟩
  · rw [hlower, Array.size_setIfInBounds, h.size]
  · rw [horder]
    exact List.Nodup.append h.nodup (List.nodup_singleton f) (List.disjoint_singleton.2 hnot)
  · rw [horder, List.mem_append, List.mem_singleton] at hg
    rcases hg with hg | rfl
    · exact h.lt hg
    · exact hlt
  · rw [horder, List.mem_append, List.mem_singleton, not_or] at hout
    rw [distance_lower, if_neg fun heq => hout.2 heq.1, h.unknown hg hout.1]
  · rw [horder, List.pairwise_append]
    refine ⟨h.sorted.imp_of_mem fun hg hg' hle => ?_, List.pairwise_singleton _ _,
      fun g hg f' hf' => ?_⟩
    · rwa [hkept hg, hkept hg']
    · rw [List.mem_singleton.1 hf', hself, hkept hg]
      exact h.le hg
  · rw [horder, List.mem_append, List.mem_singleton] at hg
    rcases hg with hg | rfl
    · rw [hkept hg]
      exact h.le hg
    · exact UInt8.le_of_eq hself
  · rw [waiting, horder, hlower, List.drop_append, List.mem_append] at hg
    rcases hg with hg | hg
    · rw [hkept (List.mem_of_mem_drop hg)]
      exact h.next hg
    · rw [List.mem_singleton.1 (List.mem_of_mem_drop hg), hself]
      exact DistanceField.le_clamp_succ d
  · rw [List.mem_singleton.1 hc]
    exact ⟨hunknown, hself.symm⟩

/-- The faces stay in order while they are lowered, by induction on the changes. -/
theorem of_changes (h : Ordered n d p) (hc : Changes d p changes p') :
    Ordered n d p' ∧ Extends p changes p' ∧ p'.visited = p.visited := by
  induction hc with
  | done p => exact ⟨h, .refl p, rfl⟩
  | stamp stamps walk _ ih =>
    obtain ⟨h', hext, hvisited⟩ := ih ⟨h.size, h.nodup, h.lt, h.unknown, h.sorted, h.le, h.next⟩
    exact ⟨h', ⟨hext.order, hext.change, hext.kept⟩, hvisited⟩
  | @lower p p' f changes hd _ ih =>
    obtain ⟨hlower, hext⟩ := h.lower hd
    obtain ⟨h', hext', hvisited⟩ := ih hlower
    refine ⟨h', hext.trans hext', hvisited.trans ?_⟩
    rw [Propagation.lower, if_pos hd]

/-- The next face is not closer than those visited before, and not farther than those that wait. -/
theorem take (h : Ordered n d p) (hp : p.visited < p.order.size) :
    Ordered n (clamp ((p.distance p.order[p.visited]).toNat + 1))
      { p with visited := p.visited + 1 } := by
  have hwaiting : p.waiting =
      p.order[p.visited] :: { p with visited := p.visited + 1 }.waiting :=
    List.drop_eq_getElem_cons (by simpa using hp)
  have hsorted := h.sorted.sublist (List.drop_sublist p.visited _)
  change p.waiting.Pairwise _ at hsorted
  rw [hwaiting, List.pairwise_cons] at hsorted
  have hfirst := h.next (hwaiting ▸ List.mem_cons_self)
  refine ⟨h.size, h.nodup, h.lt, h.unknown, h.sorted, fun hf => ?_, fun {g} hg => ?_⟩
  · exact UInt8.le_trans (h.le hf) hfirst
  · have hle := UInt8.le_iff_toNat_le.1 (hsorted.1 g hg)
    rw [UInt8.le_iff_toNat_le, DistanceField.toNat_clamp, DistanceField.toNat_clamp]
    change _ ≤ min ((p.distance g).toNat + 1) 255
    omega

/-- The visits go through the order of the faces, each of which has then got its last distance, by
induction on the visits. -/
theorem of_visits (h : Ordered n d p) (hv : Visits m mode p visits p') :
    (∃ d', Ordered n d' p') ∧ Extends p (visits.flatMap Visit.changes) p' ∧
      visits.map Visit.face = p'.order.toList.drop p.visited ∧
      visits.map Visit.distance = (visits.map Visit.face).map p'.distance := by
  induction hv generalizing d with
  | @done p hdone =>
    refine ⟨⟨d, h⟩, .refl p, ?_, rfl⟩
    exact (List.drop_eq_nil_of_le (by simpa using hdone)).symm
  | @visit p p' changes visits hp hc hv ih =>
    obtain ⟨hq, hext, hvisited⟩ := (h.take hp).of_changes hc
    obtain ⟨hlast, hext', hfaces, hdistances⟩ := ih hq
    have hall := hext.trans hext'
    refine ⟨hlast, ⟨hall.order, hall.change, hall.kept⟩, ?_, ?_⟩
    · have hlt : p.visited < p'.order.toList.length := by
        rw [hall.order, List.length_append]
        exact Nat.lt_add_right _ hp
      rw [List.map_cons, hfaces, hvisited, List.drop_eq_getElem_cons hlt]
      congr 1
      rw [List.getElem_of_eq hall.order, List.getElem_append_left hp, Array.getElem_toList]
    · rw [List.map_cons, List.map_cons, List.map_cons, hdistances]
      exact congrArg (· :: _) (hall.kept (Array.getElem_mem_toList hp)).symm

end Ordered

/-! ## All visits -/

/-- The state in which the seeds have been taken and no face has been visited. -/
def ofSeeds (m : Mesh α) (seeds : List Nat) : Propagation :=
  start (Seeding.ofSeeds (α := α) m.faceCount seeds).distances

theorem distance_ofSeeds (m : Mesh α) (seeds : List Nat) (hf : f < m.faceCount) :
    (ofSeeds m seeds).distance f =
      if f ∈ seeds then DistanceField.seed else DistanceField.unknown := by
  rw [distance, ofSeeds, start, Array.getD_eq_getD_getElem?, Seeding.getElem?_ofSeeds seeds hf,
    Option.getD_some]

/-- The first faces in the order are the seeds, in the order of the faces. -/
theorem order_ofSeeds (m : Mesh α) (seeds : List Nat) :
    (ofSeeds m seeds).order.toList = (List.range m.faceCount).filter (· ∈ seeds) := by
  rw [ofSeeds, start, Array.toList_filter, Array.toList_range, Seeding.size_ofSeeds]
  refine List.filter_congr fun f hf => ?_
  rw [Array.getD_eq_getD_getElem?, Seeding.getElem?_ofSeeds seeds (List.mem_range.1 hf),
    Option.getD_some]
  split <;> simp_all [DistanceField.seed, DistanceField.unknown]

theorem ordered_ofSeeds (m : Mesh α) (seeds : List Nat) :
    Ordered m.faceCount 0 (ofSeeds m seeds) := by
  have hmem {f : Nat} : f ∈ (ofSeeds m seeds).order.toList ↔ f < m.faceCount ∧ f ∈ seeds := by
    rw [order_ofSeeds, List.mem_filter, List.mem_range, decide_eq_true_iff]
  have hseed {f : Nat} (hf : f ∈ (ofSeeds m seeds).order.toList) :
      (ofSeeds m seeds).distance f = DistanceField.seed := by
    rw [distance_ofSeeds m seeds (hmem.1 hf).1, if_pos (hmem.1 hf).2]
  refine ⟨Seeding.size_ofSeeds seeds, ?_, fun hf => (hmem.1 hf).1, fun {f} hf hnot => ?_, ?_,
    fun hf => UInt8.le_of_eq (hseed hf), fun _ => UInt8.zero_le⟩
  · rw [order_ofSeeds]
    exact List.nodup_range.filter _
  · rw [distance_ofSeeds m seeds hf, if_neg fun hs => hnot (hmem.2 ⟨hf, hs⟩)]
  · refine List.pairwise_of_forall_mem_list fun f hf g hg => ?_
    rw [hseed hf, hseed hg]
    exact UInt8.le_refl _

end Propagation

namespace DistanceField

open Propagation

variable {α : Type}

/-- The faces that are reached are visited one after another until none waits: first the seeds in the
order of the faces, then the faces whose distances change in the order of these changes. None of them
is put into the order twice, so there are at most as many visits as faces. When its turn comes, each
face is at least as far as those before it. Every change is from the greatest distance to the last
distance of the face. -/
theorem visits_of_compute (m : Mesh α) (seeds : List Nat) (mode : Mode) :
    ∃ (visits : List Visit) (p : Propagation), p = (ofSeeds m seeds).run m mode ∧
      (compute m seeds mode).1.bytes = p.distances ∧ Visits m mode (ofSeeds m seeds) visits p ∧
      p.order.toList = (List.range m.faceCount).filter (· ∈ seeds) ++
        (visits.flatMap Visit.changes).map Change.face ∧
      p.order.toList.Nodup ∧ visits.map Visit.face = p.order.toList ∧
      visits.length ≤ m.faceCount ∧ (visits.map Visit.distance).Pairwise (· ≤ ·) ∧
      ∀ c ∈ visits.flatMap Visit.changes, c.before = unknown ∧ c.after = p.distance c.face := by
  obtain ⟨visits, hvisits⟩ := exists_visits m mode (ofSeeds m seeds)
  obtain ⟨⟨d, hordered⟩, hext, hfaces, hdistances⟩ := (ordered_ofSeeds m seeds).of_visits hvisits
  refine ⟨visits, _, rfl, rfl, hvisits, order_ofSeeds m seeds ▸ hext.order, hordered.nodup, hfaces, ?_,
    ?_, fun c hc => hext.change hc⟩
  · have hsub : ((ofSeeds m seeds).run m mode).order.toList ⊆ List.range m.faceCount :=
      fun f hf => List.mem_range.2 (hordered.lt hf)
    have hle := (List.Nodup.subperm hordered.nodup hsub).length_le
    rwa [← List.drop_zero (l := Array.toList _), ← show (ofSeeds m seeds).visited = 0 from rfl,
      ← hfaces, List.length_map, List.length_range] at hle
  · rw [hdistances, hfaces, List.pairwise_map]
    exact hordered.sorted.sublist (List.drop_sublist _ _)

/-- A face with two others beside it, of which the first leads to the second and the second to a last
face. -/
def passage : Mesh Float where
  positions := Array.replicate 8 .zero
  faces := #[#[0, 1, 2], #[1, 3, 4], #[0, 3, 5], #[3, 6, 7]]
  neighbours := #[#[some 2, some 1, none], #[some 2, none, none], #[some 3, none, none],
    #[none, none, none]]
  three_le := by decide
  vertex_lt := by decide
  row_sizes := Mesh.row_sizes_of_neighboursFault? rfl
  neighbour_lt := Mesh.neighbour_lt_of_neighboursFault? rfl

/-- The first of the two leads to no face that is not as close already. The last face is lowered when
the second is visited, and only then. -/
theorem visits_of_compute_passage :
    ∃ (visits : List Visit) (p : Propagation), Visits passage .face (ofSeeds passage [0]) visits p ∧
      visits.map Visit.face = [0, 1, 2, 3] ∧ visits.length ≤ 4 ∧
      ∃ c ∈ visits.flatMap Visit.changes, c.face = 3 ∧ c.before = unknown ∧ c.after = 2 := by
  obtain ⟨visits, p, hp, -, hvisits, horder, -, hfaces, hlength, -, hchanges⟩ :=
    visits_of_compute passage [0] .face
  have hrun : p.order.toList = [0, 1, 2, 3] ∧ p.distance 3 = 2 := by
    subst hp
    rw [run, dif_pos (by decide), run, dif_pos (by decide), run, dif_pos (by decide), run,
      dif_pos (by decide), run, dif_neg (by decide)]
    decide
  rw [hrun.1] at horder hfaces
  obtain ⟨c, hc, hface⟩ : ∃ c ∈ visits.flatMap Visit.changes, c.face = 3 := by
    have hmem : 3 ∈ [0, 1, 2, 3] := by decide
    rw [horder, List.mem_append, List.mem_map] at hmem
    exact hmem.resolve_left (by decide)
  obtain ⟨hbefore, hafter⟩ := hchanges c hc
  refine ⟨visits, p, hvisits, hfaces, hlength, c, hc, hface, hbefore, ?_⟩
  rw [hafter, hface, hrun.2]

end DistanceField

end DoubleCurve
