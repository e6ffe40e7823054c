import DoubleCurve.Bonds
import DoubleCurve.CellTable
import DoubleCurve.Notice
import DoubleCurve.Segments
import DoubleCurve.Settings

/-!
# Matching endpoints

A `Matching` tells for every endpoint of a soup of segments which endpoints lie
where it does. It is built in two passes over the endpoints that are not
excluded:

* `Matcher.register` looks an endpoint up from the cell of its position and ties
  it to what it matches there, or enters it into the cell table;
* `Matcher.sweep` looks an endpoint that is still free up from the cells around
  its own, since a point close to the side of its cell may match one beyond, and
  enters nothing.

`Matching.IsConsistent` says that links and junctions agree with one another.
-/

namespace DoubleCurve

/-- What a matching reads and does not change. -/
structure Matcher (α : Type) where
  /-- The endpoints. -/
  segments : Segments α
  /-- Endpoints match if they differ by less than this in every coordinate. -/
  tolerance : α
  /-- The number of cells to a unit of length. -/
  cellScale : α

namespace Matcher

variable {α : Type} [Scalar α]

/-- The cell of an endpoint. -/
def cell (m : Matcher α) (e : Endpoint) : Cell := .ofPoint m.cellScale (m.segments.point e)

/-- Whether two endpoints match. -/
def matching (m : Matcher α) (e e' : Endpoint) : Bool :=
  (m.segments.point e).near m.tolerance (m.segments.point e')

/-- The endpoint that stands for what a slot holds. -/
def exemplar? (b : Bonds) : Slot → Option Endpoint
  | .empty => none
  | .endpoint e => some e
  | .junction j => b.junctions.exemplar? j

/-- Whether `e` matches what a slot holds. It does not match its own slot. -/
def accepts (m : Matcher α) (b : Bonds) (e : Endpoint) (slot : Slot) : Bool :=
  slot != .endpoint e &&
    match exemplar? b slot with
    | some e' => m.matching e e'
    | none => false

/-- Searches the cell table for a match of `e`, from a cell next to its own by this offset. -/
def probe (m : Matcher α) (b : Bonds) (e : Endpoint) (offset : Cell) : Probe :=
  b.table.probe ((m.cell e + offset).bucket b.table.size) (m.accepts b e)

/-- Ties `e` to the first match found from its cell, or enters it into the cell table. -/
def register (m : Matcher α) (b : Bonds) (e : Endpoint) : Bonds :=
  match m.probe b e ⟨0, 0, 0⟩ with
  | .found position => b.join e position
  | .vacant position => b.occupy position (.endpoint e)

/-- Ties `e` to the first match found from a cell next to its own, if there is one. -/
def sweepCell? (m : Matcher α) (b : Bonds) (e : Endpoint) (offset : Cell) : Option Bonds :=
  match m.probe b e offset with
  | .found position => some (b.join e position)
  | .vacant _ => none

/-- Ties `e` to the first match found from the cells around its own, if there is one. -/
def sweep? (m : Matcher α) (b : Bonds) (e : Endpoint) : Option Bonds :=
  Cell.neighbourhood.findSome? (m.sweepCell? b e)

/-- What the second pass has made of the bonds, and what it found on the way. -/
structure Swept (α : Type) where
  /-- The bonds. -/
  bonds : Bonds
  /-- The notices so far. -/
  notices : Array (Notice α)

/-- One step of the second pass: an endpoint that is still free is swept for, and reported if that
finds nothing either. -/
def finish (m : Matcher α) (s : Swept α) (e : Endpoint) : Swept α :=
  if s.bonds.links.get e ≠ .unpaired then s
  else
    match m.sweep? s.bonds e with
    | some bonds => { s with bonds }
    | none =>
      let notice := .info (.unmatchedEndpoint e (m.segments.point e))
      { s with notices := s.notices.push notice }

/-- The bonds after the first pass over these endpoints. -/
def registerAll (m : Matcher α) (b : Bonds) (es : List Endpoint) : Bonds := es.foldl m.register b

/-- The bonds and notices after the second pass over these endpoints. -/
def finishAll (m : Matcher α) (s : Swept α) (es : List Endpoint) : Swept α := es.foldl m.finish s

end Matcher

/-- Which endpoints of a soup of segments lie in the same place. -/
structure Matching (α : Type) where
  /-- The segments, with their rotated copies. -/
  segments : Segments α
  /-- Which endpoints are kept out of matching. -/
  excluded : Array Bool
  /-- The link of every endpoint. -/
  links : Links
  /-- The members of every junction. -/
  junctions : Junctions

namespace Matching

variable {α : Type} [Scalar α]

/-- Whether an endpoint is kept out of matching. -/
def isExcluded (m : Matching α) (e : Endpoint) : Bool := m.excluded.getD e.index false

/-- The endpoints that take part in matching and found no partner. -/
def unmatched (m : Matching α) : List Endpoint :=
  m.segments.endpoints.filter fun e => !m.isExcluded e && m.links.get e == .unpaired

/-- Which endpoints are kept out of matching, all endpoints in order. -/
def exclusions (s : Segments α) (tolerance : α) : Array Bool :=
  (s.endpoints.map (s.isExcluded tolerance)).toArray

/-- The endpoints that take part in matching. -/
def participants (s : Segments α) (tolerance : α) : List Endpoint :=
  s.endpoints.filter fun e => !s.isExcluded tolerance e

/-- The matching of the given segments with their rotated copies, and what was found on the way. It
does not depend on whether the settings are valid. -/
def ofSegments (s : Segments α) (settings : Settings α) : Matching α × Array (Notice α) :=
  let m : Matcher α := ⟨s, settings.matching, settings.cellScale⟩
  let participants := participants s settings.matching
  let first := m.registerAll (.empty s.size settings.slotsPerEndpoint) participants
  let last := m.finishAll ⟨first, #[]⟩ participants
  ({ segments := s
     excluded := exclusions s settings.matching
     links := last.bonds.links
     junctions := last.bonds.junctions },
   last.notices)

/-- The notice that the last of an odd number of points is left out. -/
def oddNotice (count : Nat) : Array (Notice α) :=
  if count % 2 = 1 then #[.warning (.oddEndpointCount count)] else #[]

/-- Matches the endpoints of the segments between consecutive points, two by two, and of their
rotated copies. Refuses bad settings and too many endpoints, in this order. If there are too many and
the number of points is odd, that has been noticed before; the notice is not returned with the
fault. -/
def build (points : Array (Vec3 α)) (settings : Settings α) :
    Except (Fault α) (Matching α × Array (Notice α)) := do
  settings.validate
  let total := Segments.evenPart points.size * settings.symmetry
  if Segments.greatestSize < total then throw (.tooManyEndpoints total Segments.greatestSize)
  let (matching, notices) := ofSegments (.replicate points settings.symmetry) settings
  return (matching, oddNotice points.size ++ notices)

/-- Every member of a junction is linked to it. -/
def MembersLinked (m : Matching α) : Prop :=
  ∀ j ∈ m.junctions.all, ∀ e ∈ m.junctions.members j, m.links.get e = .junction j

/-- In how many places an endpoint is a member of a junction. -/
def memberships (m : Matching α) (e : Endpoint) : Nat :=
  m.junctions.buckets.toList.flatten.count e

/-- The link of an endpoint is returned: by the endpoint it is paired with, or by the one junction
it is a member of. -/
def LinkReturned (m : Matching α) (e : Endpoint) : Prop :=
  match m.links.get e with
  | .unpaired => m.memberships e = 0
  | .endpoint e' => m.memberships e = 0 ∧ m.links.get e' = .endpoint e
  | .junction _ => m.memberships e = 1

/-- Links and junctions agree, and no excluded endpoint is linked. -/
def IsConsistent (m : Matching α) : Prop :=
  m.MembersLinked ∧ ∀ e ∈ m.segments.endpoints,
    m.LinkReturned e ∧ (m.isExcluded e = true → m.links.get e = .unpaired)

instance (m : Matching α) : Decidable m.MembersLinked :=
  inferInstanceAs (Decidable (∀ j ∈ m.junctions.all, ∀ e ∈ m.junctions.members j, _))

instance (m : Matching α) (e : Endpoint) : Decidable (m.LinkReturned e) := by
  unfold LinkReturned
  split <;> infer_instance

instance (m : Matching α) : Decidable m.IsConsistent :=
  inferInstanceAs (Decidable (m.MembersLinked ∧ ∀ e ∈ m.segments.endpoints, _))

end Matching

end DoubleCurve
