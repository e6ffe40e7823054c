import DoubleCurve.Distance
import Mathlib.Data.Set.Defs
import Mathlib.Logic.Relation
import Mathlib.Tactic.ByContra

/-!
# Lowering the faces around a face

Visiting a face lowers faces that are a step away from it (`Mesh.IsStep`), all to
one distance, and nothing else: `Propagation.Lowers` says what that makes of a
state. When a face has been visited it is settled (`Propagation.Settled`). After
a walk around a vertex this does not mean that every face around it has been
lowered, because a walk does not go on behind a face that is closer already, but
that the walk has been everywhere before such faces (`Propagation.Swept`). What
the stamps and the refusals to step back have to do with it ends here:
`Propagation.Sweeping` is the invariant of a walk, and `Propagation.visit_spec`
all that is known of a visit afterwards.
-/

namespace DoubleCurve

namespace Mesh

variable {α : Type} {m : Mesh α} {mode : Mode} {f g v : Nat}

/-- Whether an edge of a face leads to another face that has this vertex. -/
def Turns (m : Mesh α) (v f g : Nat) : Prop := g ∈ m.adjacent f ∧ v ∈ m.face g

/-- Whether a face can be reached by walking around a vertex of another. -/
def Around (m : Mesh α) (v f g : Nat) : Prop :=
  v ∈ m.face f ∧ Relation.ReflTransGen (m.Turns v) f g

/-- Whether a face is a step away from another. -/
def IsStep (m : Mesh α) : Mode → Nat → Nat → Prop
  | .face, f, g => g ∈ m.adjacent f
  | .ribbon, f, g => ∃ v, m.Around v f g

theorem hasVertex_iff : m.hasVertex f v = true ↔ v ∈ m.face f := by
  rw [hasVertex, List.contains_iff_mem]

theorem lt_of_mem_face (h : v ∈ m.face f) : f < m.faceCount := by
  rcases Nat.lt_or_ge f m.faces.size with hlt | hge
  · exact hlt
  · simp [face, Array.getD_eq_getD_getElem?, Array.getElem?_eq_none hge] at h

theorem lt_of_adjacent (h : g ∈ m.adjacent f) : f < m.faceCount := by
  have hsize : m.neighbours.size = m.faces.size := by
    simpa using congrArg Array.size m.row_sizes
  rcases Nat.lt_or_ge f m.neighbours.size with hlt | hge
  · exact Nat.lt_of_lt_of_eq hlt hsize
  · simp [adjacent, row, Array.getD_eq_getD_getElem?, Array.getElem?_eq_none hge] at h

theorem IsStep.lt_left (h : m.IsStep mode f g) : f < m.faceCount := by
  cases mode with
  | face => exact lt_of_adjacent h
  | ribbon => exact lt_of_mem_face h.choose_spec.1

end Mesh

namespace DistanceField

theorem toNat_clamp (n : Nat) : (clamp n).toNat = min n 255 := by
  have hunknown : unknown.toNat = 255 := rfl
  rw [clamp, hunknown, UInt8.toNat_ofNat', Nat.mod_eq_of_lt (by omega)]

theorem le_clamp_succ (d : UInt8) : d ≤ clamp (d.toNat + 1) := by
  have := d.toNat_lt
  rw [UInt8.le_iff_toNat_le, toNat_clamp]
  omega

end DistanceField

namespace Propagation

open DistanceField (clamp)

variable {α : Type} {m : Mesh α} {mode : Mode} {n : Nat} {d : UInt8} {target : Nat → Prop}
  {p p' p'' : Propagation} {f g v : Nat}

/-- The faces that have been reached and not been visited, in order. -/
def waiting (p : Propagation) : List Nat := p.order.toList.drop p.visited

/-- A state over `n` faces in which a walk can begin. -/
structure Ready (n : Nat) (p : Propagation) : Prop where
  size_distances : p.distances.size = n
  size_stamps : p.stamps.size = n
  stamp_le : ∀ stamp ∈ p.stamps, stamp ≤ p.walk
  visited_le : p.visited ≤ p.order.size

/-- What lowering some of the faces in `target` to `d` makes of a state. -/
structure Lowers (n : Nat) (d : UInt8) (target : Nat → Prop) (p p' : Propagation) : Prop where
  ready : Ready n p'
  visited : p'.visited = p.visited
  waiting : p.waiting ⊆ p'.waiting
  cases (f : Nat) : p'.distance f = p.distance f ∨
    target f ∧ d < p.distance f ∧ p'.distance f = d ∧ f ∈ p'.waiting

namespace Lowers

theorem refl (h : Ready n p) : Lowers n d target p p :=
  ⟨h, rfl, List.Subset.refl _, fun _ => .inl rfl⟩

theorem trans (h : Lowers n d target p p') (h' : Lowers n d target p' p'') :
    Lowers n d target p p'' where
  ready := h'.ready
  visited := h'.visited.trans h.visited
  waiting := List.Subset.trans h.waiting h'.waiting
  cases f := by
    rcases h'.cases f with hkept | ⟨ht, hlt, hd, hw⟩
    · rw [hkept]
      exact (h.cases f).imp_right fun ⟨ht, hlt, hd, hw⟩ => ⟨ht, hlt, hd, h'.waiting hw⟩
    · rcases h.cases f with hkept | ⟨-, -, hd', -⟩
      · exact .inr ⟨ht, hkept ▸ hlt, hd, hw⟩
      · exact absurd (hd' ▸ hlt) (UInt8.lt_irrefl d)

theorem mono {target' : Nat → Prop} (h : Lowers n d target p p')
    (ht : ∀ f, target f → target' f) : Lowers n d target' p p' :=
  { h with cases := fun f => (h.cases f).imp_right fun hf => ⟨ht f hf.1, hf.2⟩ }

theorem le (h : Lowers n d target p p') (f : Nat) : p'.distance f ≤ p.distance f := by
  rcases h.cases f with hkept | ⟨-, hlt, hd, -⟩
  · exact UInt8.le_of_eq hkept
  · exact hd ▸ UInt8.le_of_lt hlt

/-- A face that is not farther than `d` keeps its distance. -/
theorem eq_of_le (h : Lowers n d target p p') (hf : p.distance f ≤ d) :
    p'.distance f = p.distance f := by
  rcases h.cases f with hkept | ⟨-, hlt, -, -⟩
  · exact hkept
  · exact absurd hf (UInt8.not_le.2 hlt)

/-- What every one of a list of steps achieves, and no later step undoes, is achieved by all of
them, by induction on the list. -/
theorem foldl {β : Type} {step : Propagation → β → Propagation} {l : List β}
    (achieved : β → Propagation → Prop) (hp : Ready n p)
    (hstep : ∀ p', Lowers n d target p p' → ∀ b ∈ l,
      Lowers n d target p' (step p' b) ∧ achieved b (step p' b))
    (hkept : ∀ p' p'' b, Lowers n d target p' p'' → achieved b p' → achieved b p'') :
    Lowers n d target p (l.foldl step p) ∧ ∀ b ∈ l, achieved b (l.foldl step p) := by
  induction l generalizing p with
  | nil => exact ⟨refl hp, fun b hb => absurd hb List.not_mem_nil⟩
  | cons a l ih =>
    obtain ⟨ha, hachieved⟩ := hstep p (refl hp) a List.mem_cons_self
    obtain ⟨hl, hall⟩ := ih ha.ready fun p' hp' b hb =>
      hstep p' (ha.trans hp') b (List.mem_cons_of_mem a hb)
    refine ⟨ha.trans hl, fun b hb => ?_⟩
    rcases List.mem_cons.1 hb with rfl | hb
    · exact hkept _ _ b hl hachieved
    · exact hall b hb

end Lowers

/-! ## One face -/

theorem distance_lower (d : UInt8) (p : Propagation) (f g : Nat) :
    (p.lower d f).distance g = if g = f ∧ d < p.distance f then d else p.distance g := by
  by_cases hd : d < p.distance f
  · rw [lower, if_pos hd]
    by_cases hgf : g = f
    · subst hgf
      have hlt := lt_size_of_lt_distance hd
      rw [if_pos ⟨rfl, hd⟩]
      simp [distance, Array.getD_eq_getD_getElem?, hlt]
    · rw [if_neg fun h => hgf h.1]
      simp [distance, Array.getD_eq_getD_getElem?, Ne.symm hgf]
  · rw [lower, if_neg hd, if_neg fun h => hd h.2]

theorem distance_lower_self_le (d : UInt8) (p : Propagation) (f : Nat) :
    (p.lower d f).distance f ≤ d := by
  rw [distance_lower]
  split
  · exact UInt8.le_refl d
  · rename_i h
    exact UInt8.not_lt.1 fun hd => h ⟨rfl, hd⟩

theorem lowers_lower (hp : Ready n p) (ht : target f) : Lowers n d target p (p.lower d f) := by
  by_cases hd : d < p.distance f
  · have hlower : p.lower d f =
        { p with distances := p.distances.setIfInBounds f d, order := p.order.push f } := if_pos hd
    have hwaiting : (p.lower d f).waiting = p.waiting ++ [f] := by
      rw [hlower, waiting, waiting, Array.toList_push, List.drop_append_of_le_length]
      exact hp.visited_le
    refine ⟨?_, by rw [hlower], by rw [hwaiting]; exact List.subset_append_left _ _, fun g => ?_⟩
    · rw [hlower]
      refine ⟨?_, hp.size_stamps, hp.stamp_le, ?_⟩
      · rw [Array.size_setIfInBounds, hp.size_distances]
      · rw [Array.size_push]
        exact Nat.le_succ_of_le hp.visited_le
    · rw [distance_lower]
      by_cases hgf : g = f
      · subst hgf
        rw [if_pos ⟨rfl, hd⟩, hwaiting]
        exact .inr ⟨ht, hd, rfl, List.mem_append_right _ (List.mem_singleton_self g)⟩
      · rw [if_neg fun h => hgf h.1]
        exact .inl rfl
  · rw [lower, if_neg hd]
    exact Lowers.refl hp

/-! ## Walks around a vertex -/

theorem lowers_enter (hp : Ready n p) (ht : target f) : Lowers n d target p (p.enter d f) := by
  have hstamped : Ready n { p with stamps := p.stamps.setIfInBounds f p.walk } := by
    refine { hp with size_stamps := ?_, stamp_le := fun stamp hstamp => ?_ }
    · rw [Array.size_setIfInBounds, hp.size_stamps]
    · rcases Array.mem_or_eq_of_mem_setIfInBounds hstamp with hmem | rfl
      · exact hp.stamp_le stamp hmem
      · exact Nat.le_refl _
  have hlowers := lowers_lower (d := d) hstamped ht
  exact ⟨hlowers.ready, hlowers.visited, hlowers.waiting, hlowers.cases⟩

theorem hasEntered_enter (d : UInt8) (p : Propagation) (f g : Nat) :
    (p.enter d f).hasEntered g = (decide (g = f) || p.hasEntered g) := by
  simp only [hasEntered, enter, stamps_lower, walk_lower, Array.getD_eq_getD_getElem?,
    Array.getElem?_setIfInBounds]
  by_cases hgf : g = f
  · subst hgf
    by_cases hlt : g < p.stamps.size <;> simp [hlt]
  · simp [Ne.symm hgf, hgf]

/-- What holds on a walk with these ways left. -/
structure Sweeping (m : Mesh α) (fan : Fan) (ways : List Crossing) (p : Propagation) : Prop where
  /-- The ways that are left start in faces that the walk has been in. -/
  way {c : Crossing} : c ∈ ways → c.target ∈ m.adjacent c.source ∧
    (c.source = fan.origin ∨ p.hasEntered c.source = true) ∧
    (c.previous = fan.origin ∨ p.hasEntered c.previous = true)
  /-- A face that the walk has entered is not farther than the walk makes it. -/
  low {f : Nat} : p.hasEntered f = true → p.distance f ≤ fan.distance
  /-- Behind every edge of a face that the walk has been in lies another one, or a face that is
  closer already, unless a way that is left leads across that edge. -/
  closed {f g : Nat} : f = fan.origin ∨ p.hasEntered f = true → m.Turns fan.vertex f g →
    (g = fan.origin ∨ p.hasEntered g = true) ∨ p.distance g < fan.distance ∨
      ∃ c ∈ ways, c.source = f ∧ c.target = g

namespace Sweeping

variable {fan : Fan} {c : Crossing} {rest : List Crossing}

theorem enter (h : Sweeping m fan (c :: rest) p) (hp : Ready m.faceCount p)
    (hdistance : fan.distance ≤ p.distance c.target) :
    Sweeping m fan (waysOut m c.source c.target ++ rest) (p.enter fan.distance c.target) := by
  have hlowers : Lowers m.faceCount fan.distance (fun _ => True) p
      (p.enter fan.distance c.target) :=
    lowers_enter hp trivial
  have hself : (p.enter fan.distance c.target).hasEntered c.target = true := by
    rw [hasEntered_enter, decide_eq_true rfl, Bool.true_or]
  have hmono {f : Nat} (hf : f = fan.origin ∨ p.hasEntered f = true) :
      f = fan.origin ∨ (p.enter fan.distance c.target).hasEntered f = true := by
    refine hf.imp_right fun hf => ?_
    rw [hasEntered_enter, hf, Bool.or_true]
  have hcases {f : Nat} (hf : (p.enter fan.distance c.target).hasEntered f = true) :
      f = c.target ∨ p.hasEntered f = true := by
    rw [hasEntered_enter, Bool.or_eq_true, decide_eq_true_iff] at hf
    exact hf
  refine ⟨fun {c'} hc' => ?_, fun {f} hf => ?_, fun {f g} hf hg => ?_⟩
  · rcases List.mem_append.1 hc' with hc' | hc'
    · obtain ⟨g, hg, rfl⟩ := List.mem_map.1 hc'
      exact ⟨List.mem_reverse.1 hg, .inr hself, hmono (h.way List.mem_cons_self).2.1⟩
    · obtain ⟨htarget, hsource, hprevious⟩ := h.way (List.mem_cons_of_mem c hc')
      exact ⟨htarget, hmono hsource, hmono hprevious⟩
  · rcases hcases hf with rfl | hf
    · exact distance_lower_self_le ..
    · exact UInt8.le_trans (hlowers.le f) (h.low hf)
  · have hold : (f = fan.origin ∨ p.hasEntered f = true) ∨ f = c.target := by
      rcases hf with rfl | hf
      · exact .inl (.inl rfl)
      · exact (hcases hf).symm.imp_left .inr
    rcases hold with hold | rfl
    · rcases h.closed hold hg with hin | hlt | ⟨c', hc', rfl, rfl⟩
      · exact .inl (hmono hin)
      · exact .inr (.inl (UInt8.lt_of_le_of_lt (hlowers.le g) hlt))
      · rcases List.mem_cons.1 hc' with rfl | hc'
        · exact .inl (.inr hself)
        · exact .inr (.inr ⟨c', List.mem_append_right _ hc', rfl, rfl⟩)
    · -- the ways out of the face that is entered are the first ones now
      refine .inr (.inr ⟨⟨c.source, c.target, g⟩, List.mem_append_left _ ?_, rfl, rfl⟩)
      exact List.mem_map.2 ⟨g, List.mem_reverse.2 hg.1, rfl⟩

/-- Whatever keeps the walk from going a way, nothing that is not closer already is missed. -/
theorem skip (h : Sweeping m fan (c :: rest) p) (hc : enters m fan p c = false) :
    Sweeping m fan rest p := by
  refine ⟨fun hc' => h.way (List.mem_cons_of_mem c hc'), h.low, fun {f g} hf hg => ?_⟩
  rcases h.closed hf hg with hin | hlt | ⟨c', hc', rfl, rfl⟩
  · exact .inl hin
  · exact .inr (.inl hlt)
  · rcases List.mem_cons.1 hc' with rfl | hc'
    · have hprevious := (h.way List.mem_cons_self).2.2
      by_cases hdistance : fan.distance ≤ p.distance c'.target
      · left
        simp only [enters, Mesh.hasVertex_iff.2 hg.2, hdistance, decide_true, Bool.and_true,
          Bool.and_eq_false_iff, bne_eq_false_iff_eq, Bool.not_eq_false'] at hc
        rcases hc with (horigin | hback) | hentered
        · exact .inl horigin
        · rw [hback]
          exact hprevious
        · exact .inr hentered
      · exact .inr (.inl (UInt8.not_le.1 hdistance))
    · exact .inr (.inr ⟨c', hc', rfl, rfl⟩)

end Sweeping

/-- A walk lowers faces around its vertex, by induction on the ways. -/
theorem lowers_walkFan (m : Mesh α) (fan : Fan) (ways : List Crossing)
    (hp : Ready m.faceCount p)
    (hways : ∀ c ∈ ways, c.target ∈ m.adjacent c.source ∧ m.Around fan.vertex fan.origin c.source) :
    Lowers m.faceCount fan.distance (m.Around fan.vertex fan.origin) p (walkFan m fan p ways) := by
  fun_induction walkFan m fan p ways with
  | case1 p => exact Lowers.refl hp
  | case2 p c rest h ih =>
    obtain ⟨htarget, hv, hchain⟩ := hways c List.mem_cons_self
    simp only [enters, Bool.and_eq_true] at h
    have haround : m.Around fan.vertex fan.origin c.target :=
      ⟨hv, hchain.tail ⟨htarget, Mesh.hasVertex_iff.1 h.1.2⟩⟩
    have henter := lowers_enter (d := fan.distance) hp haround
    refine henter.trans (ih henter.ready fun c' hc' => ?_)
    rcases List.mem_append.1 hc' with hc' | hc'
    · obtain ⟨g, hg, rfl⟩ := List.mem_map.1 hc'
      exact ⟨List.mem_reverse.1 hg, haround⟩
    · exact hways c' (List.mem_cons_of_mem c hc')
  | case3 p c rest h ih => exact ih hp fun c' hc' => hways c' (List.mem_cons_of_mem c hc')

/-- At the end of a walk no way is left, by induction on the ways. -/
theorem sweeping_walkFan {fan : Fan} {ways : List Crossing} (h : Sweeping m fan ways p)
    (hp : Ready m.faceCount p) : Sweeping m fan [] (walkFan m fan p ways) := by
  fun_induction walkFan m fan p ways with
  | case1 p => exact h
  | case2 p c rest hc ih =>
    have henter : Lowers m.faceCount fan.distance (fun _ => True) p
        (p.enter fan.distance c.target) :=
      lowers_enter hp trivial
    refine ih (h.enter hp ?_) henter.ready
    simp only [enters, Bool.and_eq_true, decide_eq_true_iff] at hc
    exact hc.2
  | case3 p c rest hc ih => exact ih (h.skip (Bool.eq_false_iff.2 hc)) hp

/-- Whether the faces around a vertex of a face have been walked over: some of them, the face itself
among them, are not farther than `d`, and from these it goes no further around the vertex except to
faces that are closer. -/
def Swept (m : Mesh α) (f v : Nat) (d : UInt8) (p : Propagation) : Prop :=
  ∃ seen : Set Nat, f ∈ seen ∧ (∀ g ∈ seen, p.distance g ≤ d) ∧
    ∀ g ∈ seen, ∀ h, m.Turns v g h → h ∈ seen ∨ p.distance h < d

theorem Swept.mono {d : UInt8} (h : Swept m f v d p) (hle : ∀ g, p'.distance g ≤ p.distance g) :
    Swept m f v d p' := by
  obtain ⟨seen, hf, hlow, hclosed⟩ := h
  refine ⟨seen, hf, fun g hg => UInt8.le_trans (hle g) (hlow g hg), fun g hg h hgh => ?_⟩
  exact (hclosed g hg h hgh).imp_right (UInt8.lt_of_le_of_lt (hle h))

/-- When a walk begins, no face is stamped with its number. -/
theorem lt_of_hasEntered (hp : Ready n p) (h : { p with walk := p.walk + 1 }.hasEntered f = true) :
    n ≤ f := by
  by_contra hlt
  rw [← hp.size_stamps, Nat.not_le] at hlt
  have hstamp := hp.stamp_le _ (Array.getElem_mem hlt)
  simp [hasEntered, Array.getD_eq_getD_getElem?, hlt] at h
  omega

theorem sweeping_start (hp : Ready m.faceCount p) (f v : Nat) (d : UInt8) :
    Sweeping m ⟨f, v, d⟩ (waysOut m f f) { p with walk := p.walk + 1 } := by
  refine ⟨fun {c} hc => ?_, fun {g} hg => ?_, fun {g h} hg hgh => ?_⟩
  · obtain ⟨g, hg, rfl⟩ := List.mem_map.1 hc
    exact ⟨List.mem_reverse.1 hg, .inl rfl, .inl rfl⟩
  · have hge := lt_of_hasEntered hp hg
    rw [← hp.size_distances] at hge
    rw [distance, Array.getD_eq_getD_getElem?, Array.getElem?_eq_none hge]
    exact UInt8.zero_le
  · rcases hg with rfl | hg
    · exact .inr (.inr ⟨⟨g, g, h⟩, List.mem_map.2 ⟨h, List.mem_reverse.2 hgh.1, rfl⟩, rfl, rfl⟩)
    · have := lt_of_hasEntered hp hg
      have := Mesh.lt_of_adjacent hgh.1
      omega

/-- What a walk around a vertex of a face does. -/
theorem lowers_lowerAround (hp : Ready m.faceCount p) (hv : v ∈ m.face f) (hf : p.distance f ≤ d) :
    Lowers m.faceCount d (m.IsStep .ribbon f) p (lowerAround m f d p v) ∧
      Swept m f v d (lowerAround m f d p v) := by
  have hready : Ready m.faceCount { p with walk := p.walk + 1 } :=
    { hp with stamp_le := fun stamp hstamp => Nat.le_succ_of_le (hp.stamp_le stamp hstamp) }
  have hlowers := lowers_walkFan m ⟨f, v, d⟩ (waysOut m f f) hready fun c hc => by
    obtain ⟨g, hg, rfl⟩ := List.mem_map.1 hc
    exact ⟨List.mem_reverse.1 hg, hv, .refl⟩
  have hsweeping := sweeping_walkFan (sweeping_start hp f v d) hready
  refine ⟨?_, ?_⟩
  · have hstep : Lowers m.faceCount d (m.IsStep .ribbon f) { p with walk := p.walk + 1 }
        (lowerAround m f d p v) := hlowers.mono fun g hg => ⟨v, hg⟩
    exact ⟨hstep.ready, hstep.visited, hstep.waiting, hstep.cases⟩
  · refine ⟨{g | g = f ∨ (lowerAround m f d p v).hasEntered g = true}, .inl rfl, ?_, ?_⟩
    · rintro g (rfl | hg)
      · exact UInt8.le_trans (hlowers.le g) hf
      · exact hsweeping.low hg
    · intro g hg h hgh
      rcases hsweeping.closed hg hgh with hin | hlt | ⟨c, hc, -⟩
      · exact .inl hin
      · exact .inr hlt
      · cases hc

/-! ## A visit -/

theorem lowers_visit_face (hp : Ready m.faceCount p) (f : Nat) :
    Lowers m.faceCount (clamp ((p.distance f).toNat + 1)) (m.IsStep .face f) p
        (p.visit m .face f) ∧
      ∀ g ∈ m.adjacent f, (p.visit m .face f).distance g ≤ clamp ((p.distance f).toNat + 1) := by
  obtain ⟨hlowers, hall⟩ : Lowers m.faceCount (clamp ((p.distance f).toNat + 1))
      (m.IsStep .face f) p (p.visit m .face f) ∧ ∀ g ∈ (m.adjacent f).reverse,
        (p.visit m .face f).distance g ≤ clamp ((p.distance f).toNat + 1) := by
    refine Lowers.foldl (fun g p' => p'.distance g ≤ clamp ((p.distance f).toNat + 1)) hp ?_ ?_
    · intro p' hp' g hg
      exact ⟨lowers_lower hp'.ready (List.mem_reverse.1 hg), distance_lower_self_le ..⟩
    · exact fun p' p'' g hl hg => UInt8.le_trans (hl.le g) hg
  exact ⟨hlowers, fun g hg => hall g (List.mem_reverse.2 hg)⟩

theorem lowers_visit_ribbon (hp : Ready m.faceCount p) (f : Nat) :
    Lowers m.faceCount (clamp ((p.distance f).toNat + 1)) (m.IsStep .ribbon f) p
        (p.visit m .ribbon f) ∧
      ∀ v ∈ m.face f, Swept m f v (clamp ((p.distance f).toNat + 1)) (p.visit m .ribbon f) := by
  have hle := DistanceField.le_clamp_succ (p.distance f)
  obtain ⟨hlowers, hall⟩ : Lowers m.faceCount (clamp ((p.distance f).toNat + 1))
      (m.IsStep .ribbon f) p (p.visit m .ribbon f) ∧ ∀ v ∈ (m.face f).reverse,
        Swept m f v (clamp ((p.distance f).toNat + 1)) (p.visit m .ribbon f) := by
    refine Lowers.foldl (fun v => Swept m f v (clamp ((p.distance f).toNat + 1))) hp ?_ ?_
    · intro p' hp' v hv
      exact lowers_lowerAround hp'.ready (List.mem_reverse.1 hv) (UInt8.le_trans (hp'.le f) hle)
    · exact fun p' p'' v hl hv => hv.mono hl.le
  exact ⟨hlowers, fun v hv => hall v (List.mem_reverse.2 hv)⟩

/-- Whether nothing around a face is left to be lowered on its account, except by visits of faces
that are closer. -/
def Settled (m : Mesh α) (mode : Mode) (p : Propagation) (f : Nat) : Prop :=
  match mode with
  | .face => ∀ g ∈ m.adjacent f, p.distance g ≤ clamp ((p.distance f).toNat + 1)
  | .ribbon => ∀ v ∈ m.face f, Swept m f v (clamp ((p.distance f).toNat + 1)) p

theorem Settled.mono (h : Settled m mode p f) (hle : ∀ g, p'.distance g ≤ p.distance g)
    (hf : p'.distance f = p.distance f) : Settled m mode p' f := by
  cases mode with
  | face => exact fun g hg => hf ▸ UInt8.le_trans (hle g) (h g hg)
  | ribbon => exact fun v hv => hf ▸ (h v hv).mono hle

/-- A visit lowers faces that are a step away, and settles the face that is visited. -/
theorem visit_spec (m : Mesh α) (mode : Mode) (hp : Ready m.faceCount p) (f : Nat) :
    Lowers m.faceCount (clamp ((p.distance f).toNat + 1)) (m.IsStep mode f) p (p.visit m mode f) ∧
      Settled m mode (p.visit m mode f) f := by
  have hle := DistanceField.le_clamp_succ (p.distance f)
  cases mode with
  | face =>
    obtain ⟨hlowers, hall⟩ := lowers_visit_face hp f
    exact ⟨hlowers, fun g hg => (hlowers.eq_of_le hle) ▸ hall g hg⟩
  | ribbon =>
    obtain ⟨hlowers, hall⟩ := lowers_visit_ribbon hp f
    exact ⟨hlowers, fun v hv => (hlowers.eq_of_le hle) ▸ hall v hv⟩

end Propagation

end DoubleCurve
