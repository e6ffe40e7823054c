import DoubleCurve.CellTable
import DoubleCurve.Junctions

/-!
# Bonds between endpoints

`Bonds` is what matching changes, all of it together: the cell table, the link
of every endpoint and the members of every junction.

* `Bonds.gather` brings an endpoint and what a slot holds into one junction. All
  junctions reached on the way become one, and everybody concerned is linked to
  it.
* `Bonds.join` ties an endpoint to an occupied slot: as a pair if the endpoint
  that the slot holds is still free, and through a junction otherwise.
-/

namespace DoubleCurve

/-- The state of a matching under construction. -/
structure Bonds where
  /-- Where endpoints and junctions are looked up by position. -/
  table : CellTable
  /-- The link of every endpoint. -/
  links : Links
  /-- The members of every junction. -/
  junctions : Junctions

namespace Bonds

/-- Nothing tied yet, among `count` endpoints. -/
def empty (count slotsPerEndpoint : Nat) : Bonds where
  table := .empty count slotsPerEndpoint
  links := .unpaired count
  junctions := .empty

/-- Puts something into a slot. -/
def occupy (b : Bonds) (position : Nat) (slot : Slot) : Bonds :=
  { b with table := b.table.set position slot }

/-- Lets endpoints join a junction. -/
def addMembers (b : Bonds) (j : Junction) (es : List Endpoint) : Bonds :=
  { b with junctions := b.junctions.add j es }

/-- Links an endpoint to a junction. -/
def bind (b : Bonds) (e : Endpoint) (j : Junction) : Bonds :=
  { b with links := b.links.set e (.junction j) }

/-- Moves the members of `other` to `target` and links them to it. -/
def absorb (target : Junction) (b : Bonds) (other : Junction) : Bonds :=
  let moved := b.junctions.members other
  { b with
    links := moved.foldl (fun links e => links.set e (.junction target)) b.links
    junctions := (b.junctions.clear other).add target moved }

/-- The junction that is reached from a slot: the one it holds, or that of the endpoint it holds. -/
def slotJunction? (b : Bonds) : Slot → Option Junction
  | .empty => none
  | .endpoint e => (b.links.get e).junction?
  | .junction j => some j

/-- The junction for gathering `e` and a slot: the first of those reached from the slot and from
`e`, with the others absorbed, or a new one. -/
def meeting (b : Bonds) (slot : Slot) (e : Endpoint) : Junction × Bonds :=
  match (b.slotJunction? slot).toList ++ (b.links.get e).junction?.toList with
  | [] =>
    let (j, junctions) := b.junctions.allocate
    (j, { b with junctions })
  | j :: others => (j, (others.filter (· ≠ j)).foldl (absorb j) b)

/-- Lets `e` and the endpoint it is paired with join a junction, and links the latter to it. -/
def enlist (b : Bonds) (j : Junction) (e : Endpoint) : Bonds :=
  match b.links.get e with
  | .endpoint partner =>
    (b.addMembers j ([e, partner] ++ (b.links.get partner).endpoint?.toList)).bind partner j
  | _ => b.addMembers j [e]

/-- Lets the endpoint that a slot holds and the endpoint it is paired with join a junction, and
links both to it. -/
def enlistSlot (b : Bonds) (j : Junction) : Slot → Bonds
  | .endpoint e =>
    match b.links.get e with
    | .endpoint partner => ((b.addMembers j [e, partner]).bind partner j).bind e j
    | _ => (b.addMembers j [e]).bind e j
  | _ => b

/-- Brings `e`, what a slot holds and those paired with them into one junction, which the slot
holds from then on. -/
def gather (b : Bonds) (e : Endpoint) (position : Nat) : Junction × Bonds :=
  let slot := b.table.get position
  let (j, b) := b.meeting slot e
  let b := (b.enlist j e).enlistSlot j slot
  (j, (b.bind e j).occupy position (.junction j))

/-- Ties `e` to an occupied slot. -/
def join (b : Bonds) (e : Endpoint) (position : Nat) : Bonds :=
  match b.table.get position with
  | .empty => b
  | .junction _ => (b.gather e position).2
  | .endpoint exemplar =>
    if b.links.get exemplar = .unpaired then { b with links := b.links.pair e exemplar }
    else (b.gather e position).2

end Bonds

end DoubleCurve
