import DoubleCurve.Trace.State

/-!
# Walks along the links

A walk crosses segments one after another. From an endpoint it leaves along the
link to the next one, claims the segment it came over, and goes on from the twin
of the next endpoint, until there is no link, no way out of a junction, or no
free endpoint at the other side.

At a junction it leaves by the member whose segment is most nearly in line with
the one it came over (`Tracer.straightest?`). A short segment counts as being in
line, and of members equally good the last one is taken. The way taken replaces
the links of both endpoints to the junction.
-/

namespace DoubleCurve.Trace

/-- What tracing reads and does not change. -/
structure Tracer (α : Type) where
  /-- The endpoints. -/
  segments : Segments α
  /-- The members of every junction. -/
  junctions : Junctions
  /-- Segments shorter than this count as being in line with any other, and points no farther
  apart are collapsed. -/
  shortLength : α
  /-- The last endpoint of an open curve is added if it is farther than this from the point before
  it. -/
  openEndGap : α

/-- Where a walk ended and how many segments it counted. -/
structure Walk where
  /-- The endpoint from which there was no way on. -/
  last : Endpoint
  /-- The number of segments. -/
  count : Nat
deriving DecidableEq, Repr

namespace Tracer

variable {α : Type} [Scalar α]

/-- How well the segment of `e` continues one with this direction: from zero across it to one in
line with it. -/
def score (t : Tracer α) (direction : Vec3 α) (e : Endpoint) : α :=
  let (unit, length) := (t.segments.vectorTo e).unitAndLength
  if length < t.shortLength then 1 else Scalar.abs (direction.dot unit)

/-- Whether a walk that arrives at `e` can leave by `member`. -/
def isWayOut (u : Usages) (e member : Endpoint) : Bool :=
  member != e && member != e.twin && u.isFree member

/-- The better of the best so far and `e`, which wins if both are equally good. A score that is not
a number is not at most itself, and never wins. -/
def keepBetter (score : Endpoint → α) (best : Option (Endpoint × α)) (e : Endpoint) :
    Option (Endpoint × α) :=
  let new := score e
  match best with
  | none => if new ≤ new then some (e, new) else none
  | some (_, old) => if old ≤ new then some (e, new) else best

/-- The member of a junction by which a walk that arrives at `e` goes on, if there is a way out. -/
def straightest? (t : Tracer α) (u : Usages) (e : Endpoint) (j : Junction) : Option Endpoint :=
  let direction := (t.segments.vectorTo e).unit
  let waysOut := (t.junctions.members j).filter (isWayOut u e)
  (waysOut.foldl (keepBetter (t.score direction)) none).map (·.1)

/-- Makes `next` return the link of `e`, and reports it if it did not. -/
def mend (s : State α) (e next : Endpoint) : State α :=
  let found := s.links.get next
  if found = .endpoint e then s
  else
    let s := s.report (.warning (.brokenLink e next (toString found)))
    { s with links := s.links.set next (.endpoint e) }

/-- The endpoint at which a walk arrives when it leaves by `e`, if it can leave. -/
def depart (t : Tracer α) (s : State α) (e : Endpoint) : Option Endpoint × State α :=
  match s.links.get e with
  | .unpaired => (none, s)
  | .endpoint next => (some next, mend s e next)
  | .junction j =>
    match t.straightest? s.usages e j with
    | some next => (some next, { s with links := s.links.pair e next })
    | none =>
      let finding := .exhaustedJunction j.token (t.junctions.fold j) e (t.segments.point e)
      (none, s.report (.info finding))

omit [Scalar α] in
theorem usages_mend (s : State α) (e next : Endpoint) : (mend s e next).usages = s.usages := by
  simp only [mend]
  split <;> rfl

/-- Leaving an endpoint claims nothing yet. -/
theorem usages_depart (t : Tracer α) (s : State α) (e : Endpoint) :
    (t.depart s e).2.usages = s.usages := by
  simp only [depart]
  split
  · rfl
  · exact usages_mend ..
  · split <;> rfl

/-- A bound for the steps of a walk that leaves by `e`: the free endpoints, and one more if the walk
does not stand on a segment that is still free. -/
def stepsLeft (u : Usages) (e : Endpoint) : Nat :=
  if u.isFree e.twin then u.freeCount else u.freeCount + 1

/-- Claiming a segment and going on from a free endpoint beyond it leaves fewer steps. -/
theorem stepsLeft_lt {u : Usages} {e next : Endpoint} (h : (u.claimSegment e).isFree next = true) :
    stepsLeft (u.claimSegment e) next.twin < stepsLeft u e := by
  have hle := Usages.freeCount_claimSegment_le u e
  simp only [stepsLeft, Endpoint.twin_twin, h, ↓reduceIte]
  split
  · rename_i hfree
    exact Usages.freeCount_claimSegment_lt hfree
  · omega

/-- The walk that leaves by `e`. Every step after the first arrives at a free endpoint and claims
it, so there are no more of them than free endpoints. -/
def walk (t : Tracer α) (s : State α) (e : Endpoint) : Walk × State α :=
  match _h : t.depart s e with
  | (none, s') => (⟨e, 0⟩, s')
  | (some next, s') =>
    let claimed := s'.claim e
    if _hfree : claimed.isFree next then
      let (w, s'') := t.walk claimed next.twin
      (⟨w.last, w.count + 1⟩, s'')
    else (⟨e, 1⟩, claimed)
termination_by stepsLeft s.usages e
decreasing_by
  have husages : s'.usages = s.usages := by
    have := usages_depart t s e
    rwa [_h] at this
  rw [← husages]
  exact stepsLeft_lt _hfree

/-- Adds the segment across the link at the end of a walk, if it is still free. -/
def takePartner (w : Walk) (s : State α) : Walk × State α :=
  match s.links.get w.last with
  | .endpoint partner =>
    if s.isFree partner then (⟨partner.twin, w.count + 1⟩, s.claim partner) else (w, s)
  | _ => (w, s)

/-- Adds the segment at the end of a walk, if it is still free. -/
def takeLast (w : Walk) (s : State α) : Walk × State α :=
  if s.isFree w.last then (⟨w.last, w.count + 1⟩, s.claim w.last) else (w, s)

/-- The walk that leaves by `e`, with what is still free at its end. -/
def follow (t : Tracer α) (s : State α) (e : Endpoint) : Walk × State α :=
  let (w, s) := t.walk s e
  let (w, s) := takePartner w s
  takeLast w s

end Tracer

end DoubleCurve.Trace
