import DoubleCurve.Mesh

/-!
# Distances over a mesh

`DistanceField.compute` gives every face of a mesh its distance from the seed
faces, as a byte: the number of steps to the nearest of them, and 255 for faces
that are that far away or cannot be reached. A step leads across an edge
(`Mode.face`) or to any face around a common vertex that can be reached by
walking around it (`Mode.ribbon`).

Faces are visited in the order in which they were reached. A `Propagation` keeps
that order and how much of it has been visited. Whenever a face is lowered its
distance decreases, so the sum of all distances and of the faces waiting bounds
the work that is left. A walk around a vertex stamps the faces it enters with its
own number, and enters none twice.
-/

namespace DoubleCurve

/-- What counts as a step. -/
inductive Mode where
  /-- Crossing an edge. -/
  | face
  /-- Walking around a vertex. -/
  | ribbon
deriving DecidableEq, Repr

/-- The distance of every face from the seeds. -/
structure DistanceField where
  /-- The distances, by the index of the face. -/
  bytes : Array UInt8
deriving DecidableEq, Repr

namespace DistanceField

/-- The distance of a seed. -/
def seed : UInt8 := 0

/-- The distance of a face that was not reached. No distance is greater. -/
def unknown : UInt8 := 255

/-- A number of steps as a distance. -/
def clamp (n : Nat) : UInt8 := .ofNat (min n unknown.toNat)

/-- The number of faces. -/
def size (d : DistanceField) : Nat := d.bytes.size

/-- Whether there are no faces. -/
def isEmpty (d : DistanceField) : Bool := d.bytes.isEmpty

/-- Whether a face was reached. -/
def isKnown (d : DistanceField) (f : Nat) : Bool := d.bytes.getD f unknown != unknown

/-- The number of faces that were reached. -/
def reached (d : DistanceField) : Nat := d.bytes.countP (· ≠ unknown)

end DistanceField

/-- The state of a propagation. -/
structure Propagation where
  /-- The distances so far. -/
  distances : Array UInt8
  /-- The faces that were reached, in order. -/
  order : Array Nat
  /-- How many of them have been visited. -/
  visited : Nat
  /-- The number of the last walk around a vertex that entered each face. -/
  stamps : Array Nat
  /-- The number of the current walk around a vertex. The first has the number one. -/
  walk : Nat

namespace Propagation

/-- The distance of a face so far. A face that does not exist cannot be lowered. -/
def distance (p : Propagation) (f : Nat) : UInt8 := p.distances.getD f DistanceField.seed

/-- Lowers the distance of a face and puts the face at the end of the order, if that is lower. -/
def lower (d : UInt8) (p : Propagation) (f : Nat) : Propagation :=
  if d < p.distance f then
    { p with distances := p.distances.setIfInBounds f d, order := p.order.push f }
  else p

/-- The sum of all distances. -/
def total (distances : List UInt8) : Nat := distances.foldr (fun d sum => d.toNat + sum) 0

/-- A bound for the visits that are left. -/
def work (p : Propagation) : Nat := total p.distances.toList + (p.order.size - p.visited)

theorem total_set_lt (l : List UInt8) {f : Nat} {d : UInt8} (hf : f < l.length) (hd : d < l[f]) :
    total (l.set f d) < total l := by
  induction l generalizing f with
  | nil => simp at hf
  | cons a l ih =>
    cases f with
    | zero =>
      simp only [List.getElem_cons_zero, UInt8.lt_iff_toNat_lt] at hd
      simp only [List.set_cons_zero, total, List.foldr_cons]
      omega
    | succ f =>
      simp only [List.length_cons, Nat.add_lt_add_iff_right] at hf
      simp only [List.getElem_cons_succ] at hd
      simp only [List.set_cons_succ, total, List.foldr_cons]
      exact Nat.add_lt_add_left (ih hf hd) _

/-- A face that can be lowered exists. -/
theorem lt_size_of_lt_distance {d : UInt8} {p : Propagation} {f : Nat} (h : d < p.distance f) :
    f < p.distances.size := by
  rcases Nat.lt_or_ge f p.distances.size with hf | hf
  · exact hf
  · simp [distance, DistanceField.seed, Array.getD_eq_getD_getElem?,
      Array.getElem?_eq_none hf] at h

/-- Lowering a face adds no work. -/
theorem work_lower_le (d : UInt8) (p : Propagation) (f : Nat) : (p.lower d f).work ≤ p.work := by
  simp only [lower]
  split
  · rename_i hd
    have hf := lt_size_of_lt_distance hd
    have hlt : total (p.distances.setIfInBounds f d).toList < total p.distances.toList := by
      rw [Array.toList_setIfInBounds]
      refine total_set_lt _ (by simpa using hf) ?_
      simpa [distance, Array.getD_eq_getD_getElem?, hf] using hd
    simp only [work, Array.size_push]
    omega
  · exact Nat.le_refl _

theorem work_foldl_le {β : Type} (step : Propagation → β → Propagation)
    (h : ∀ p b, (step p b).work ≤ p.work) (l : List β) (p : Propagation) :
    (l.foldl step p).work ≤ p.work := by
  induction l generalizing p with
  | nil => exact Nat.le_refl _
  | cons b l ih => exact Nat.le_trans (ih _) (h p b)

/-- A way across an edge on a walk around a vertex. -/
structure Crossing where
  /-- The face from which the walk came to the source. -/
  previous : Nat
  /-- The face before the edge. -/
  source : Nat
  /-- The face behind the edge. -/
  target : Nat
deriving DecidableEq, Repr

/-- The ways out of `source`, the last edge first, for a walk that came from `previous`. -/
def waysOut {α : Type} (m : Mesh α) (previous source : Nat) : List Crossing :=
  (m.adjacent source).reverse.map fun target => ⟨previous, source, target⟩

/-- A walk around a vertex. -/
structure Fan where
  /-- The face in which it starts. -/
  origin : Nat
  /-- The vertex. -/
  vertex : Nat
  /-- The distance that the faces around the vertex get. -/
  distance : UInt8

/-- Whether the current walk has entered a face. One that does not exist counts as entered. -/
def hasEntered (p : Propagation) (f : Nat) : Bool := p.stamps.getD f p.walk == p.walk

/-- The number of faces that the current walk has not entered. -/
def unentered (p : Propagation) : Nat := p.stamps.countP (· ≠ p.walk)

/-- Whether a walk around a vertex enters the face behind an edge: not the one where it started nor
the one it came from, none it has entered before, none without the vertex, and none that is closer
already. -/
def enters {α : Type} (m : Mesh α) (fan : Fan) (p : Propagation) (c : Crossing) : Bool :=
  c.target != fan.origin && c.target != c.previous && !p.hasEntered c.target &&
    m.hasVertex c.target fan.vertex && decide (fan.distance ≤ p.distance c.target)

/-- Enters a face on the current walk, and lowers it. -/
def enter (d : UInt8) (p : Propagation) (f : Nat) : Propagation :=
  { p with stamps := p.stamps.setIfInBounds f p.walk }.lower d f

@[simp] theorem stamps_lower (d : UInt8) (p : Propagation) (f : Nat) :
    (p.lower d f).stamps = p.stamps := by
  simp only [lower]
  split <;> rfl

@[simp] theorem walk_lower (d : UInt8) (p : Propagation) (f : Nat) :
    (p.lower d f).walk = p.walk := by
  simp only [lower]
  split <;> rfl

/-- Entering a face that was not entered leaves fewer of them. -/
theorem unentered_enter_lt (d : UInt8) {p : Propagation} {f : Nat} (h : p.hasEntered f = false) :
    (p.enter d f).unentered < p.unentered := by
  have hlt : f < p.stamps.size := by
    rcases Nat.lt_or_ge f p.stamps.size with hlt | hge
    · exact hlt
    · simp [hasEntered, Array.getD_eq_getD_getElem?, Array.getElem?_eq_none hge] at h
  have hne : p.stamps[f] ≠ p.walk := by
    simpa [hasEntered, Array.getD_eq_getD_getElem?, hlt] using h
  have hpos : 0 < p.stamps.countP (· ≠ p.walk) :=
    Array.countP_pos_iff.mpr ⟨_, Array.getElem_mem hlt, decide_eq_true hne⟩
  simp only [unentered, enter, stamps_lower, walk_lower, Array.setIfInBounds, hlt, ↓reduceDIte]
  rw [Array.countP_set hlt]
  simp only [ne_eq, hne, not_false_eq_true, decide_true, not_true_eq_false, decide_false,
    ↓reduceIte, Bool.false_eq_true, Nat.add_zero]
  exact Nat.sub_lt hpos Nat.one_pos

/-- Walks around a vertex, first along the ways listed first, and enters every face that it can.
Those that can still be entered become fewer with every one that is. -/
def walkFan {α : Type} (m : Mesh α) (fan : Fan) (p : Propagation) : List Crossing → Propagation
  | [] => p
  | c :: rest =>
    if _h : enters m fan p c = true then
      walkFan m fan (p.enter fan.distance c.target) (waysOut m c.source c.target ++ rest)
    else walkFan m fan p rest
termination_by ways => (p.unentered, ways.length)
decreasing_by
  · apply Prod.Lex.left
    simp only [enters, Bool.and_eq_true] at _h
    exact unentered_enter_lt fan.distance (by simpa using _h.1.1.2)
  · exact Prod.Lex.right _ (Nat.lt_succ_self _)

theorem work_walkFan_le {α : Type} (m : Mesh α) (fan : Fan) (p : Propagation)
    (ways : List Crossing) : (walkFan m fan p ways).work ≤ p.work := by
  fun_induction walkFan m fan p ways with
  | case1 => exact Nat.le_refl _
  | case2 p c rest h ih => exact Nat.le_trans ih (work_lower_le ..)
  | case3 p c rest h ih => exact ih

/-- Walks around a vertex of a face, starting in the face. -/
def lowerAround {α : Type} (m : Mesh α) (f : Nat) (d : UInt8) (p : Propagation) (v : Nat) :
    Propagation :=
  walkFan m ⟨f, v, d⟩ { p with walk := p.walk + 1 } (waysOut m f f)

/-- Lowers the faces that are a step away from a face, to one more than its distance. -/
def visit {α : Type} (m : Mesh α) (mode : Mode) (p : Propagation) (f : Nat) : Propagation :=
  let d := DistanceField.clamp ((p.distance f).toNat + 1)
  match mode with
  | .face => (m.adjacent f).reverse.foldl (lower d) p
  | .ribbon => (m.face f).reverse.foldl (lowerAround m f d) p

theorem work_visit_le {α : Type} (m : Mesh α) (mode : Mode) (p : Propagation) (f : Nat) :
    (p.visit m mode f).work ≤ p.work := by
  cases mode with
  | face => exact work_foldl_le _ (work_lower_le _) _ _
  | ribbon => exact work_foldl_le _ (fun p _ => work_walkFan_le m _ { p with walk := p.walk + 1 } _) _ _

/-- Visits all faces that have been reached, and those reached from them. -/
def run {α : Type} (m : Mesh α) (mode : Mode) (p : Propagation) : Propagation :=
  if _h : p.visited < p.order.size then
    run m mode ({ p with visited := p.visited + 1 }.visit m mode p.order[p.visited])
  else p
termination_by p.work
decreasing_by
  refine Nat.lt_of_le_of_lt (work_visit_le ..) ?_
  simp only [work]
  omega

/-- The state before anything is visited. The faces that are seeds have been reached, each once and
in the order of the faces, and no walk has entered any face. -/
def start (distances : Array UInt8) : Propagation where
  distances
  order := (Array.range distances.size).filter fun f =>
    distances.getD f DistanceField.unknown == DistanceField.seed
  visited := 0
  stamps := Array.replicate distances.size 0
  walk := 0

end Propagation

/-- What the seeds have made of the distances, and what was found on the way. -/
structure Seeding (α : Type) where
  /-- The distances. -/
  distances : Array UInt8
  /-- The notices so far. -/
  notices : Array (Notice α)

namespace Seeding

variable {α : Type}

/-- Takes a seed. One that is not the number of a face is left out and reported. -/
def plant (s : Seeding α) (f : Nat) : Seeding α :=
  if f < s.distances.size then
    { s with distances := s.distances.setIfInBounds f DistanceField.seed }
  else { s with notices := s.notices.push (.warning (.missingSeed f s.distances.size)) }

/-- Takes seeds, one after another, where no face has a distance yet. -/
def ofSeeds (faceCount : Nat) (seeds : List Nat) : Seeding α :=
  seeds.foldl plant ⟨Array.replicate faceCount DistanceField.unknown, #[]⟩

end Seeding

namespace DistanceField

/-- The distance of every face from the seeds. Seeds that are not the number of a face are left out
and reported. -/
def compute {α : Type} (m : Mesh α) (seeds : List Nat) (mode : Mode) :
    DistanceField × Array (Notice α) :=
  let seeding := Seeding.ofSeeds m.faceCount seeds
  (⟨((Propagation.start seeding.distances).run m mode).distances⟩, seeding.notices)

end DistanceField

end DoubleCurve
