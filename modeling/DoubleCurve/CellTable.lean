import DoubleCurve.Endpoint
import DoubleCurve.Vec3

/-!
# Cells and the cell table

Space is cut into cells, and endpoints are found by the cell they lie in. The
`Cell` of a point has a home position in a `CellTable` (`Cell.bucket`), and the
table is searched from there.
-/

namespace DoubleCurve

/-! ## Cells

Space is cut into cells whose digits are the coordinates, scaled and cut off
toward zero. A cell is `Cell.hash`ed by a weighted sum of its digits in 32 bit
arithmetic, and `Cell.bucket` takes the hash to a position in a table of a given
size. `Cell.neighbourhood` lists the offsets from a cell to those around it.
-/

/-- The digits of a cell, or the difference of two cells. -/
@[ext] structure Cell where
  /-- The digit of the first coordinate. -/
  x : Int32
  /-- The digit of the second coordinate. -/
  y : Int32
  /-- The digit of the vertical coordinate. -/
  z : Int32
deriving DecidableEq, Repr

namespace Cell

/-- The cell of a point, with `cellScale` cells to a unit of length. -/
def ofPoint {α : Type} [Scalar α] (cellScale : α) (p : Vec3 α) : Cell where
  x := Scalar.toInt32 (p.x * cellScale)
  y := Scalar.toInt32 (p.y * cellScale)
  z := Scalar.toInt32 (p.z * cellScale)

/-- Digits are added one by one and wrap around. -/
instance : Add Cell where
  add a b := ⟨a.x + b.x, a.y + b.y, a.z + b.z⟩

/-- The factors of the digits in the hash. -/
def weights : Cell := ⟨1, 11, 37⟩

/-- The weighted sum of the digits. -/
def hash (c : Cell) : Int32 := c.x * weights.x + c.y * weights.y + c.z * weights.z

/-- The position of the cell in a table of `size` slots. -/
def bucket (c : Cell) (size : Nat) : Nat := c.hash.toUInt32.toNat % size

/-- A digit, the one before it and the one after it. -/
def steps : List Int32 := [-1, 0, 1]

/-- The offsets to all cells that touch a cell, itself among them. -/
def neighbourhood : List Cell :=
  steps.flatMap fun dx => steps.flatMap fun dy => steps.map fun dz => ⟨dx, dy, dz⟩

theorem bucket_lt (c : Cell) {size : Nat} (h : 0 < size) : c.bucket size < size := Nat.mod_lt _ h

end Cell

/-! ## The cell table

A table of slots, searched from a home position onward and around the end. A
slot is empty, or holds an endpoint or a junction that was put there. The search
`CellTable.probeM` may be run in any monad, so that a caller's test of a slot can
have effects; it stops at the first slot that the test accepts or that is empty,
and asks about no empty slot.
-/

/-- What a slot holds. -/
inductive Slot where
  /-- Nothing. -/
  | empty
  /-- An endpoint. -/
  | endpoint (e : Endpoint)
  /-- A junction. -/
  | junction (j : Junction)
deriving DecidableEq, Repr

/-- The integer form of a slot, as that of a link. -/
def Slot.raw : Slot → Int
  | empty => (Link.unpaired).raw
  | endpoint e => (Link.endpoint e).raw
  | junction j => (Link.junction j).raw

/-- The slot with this integer form; every other negative integer stands for an empty slot. -/
def Slot.ofRaw (n : Int) : Slot :=
  match Link.ofRaw n with
  | .unpaired => empty
  | .endpoint e => endpoint e
  | .junction j => junction j

/-- Where a search ended. -/
inductive Probe where
  /-- At an occupied slot that was accepted. -/
  | found (position : Nat)
  /-- At an empty slot, or, in a full table, back where it started. -/
  | vacant (position : Nat)
deriving DecidableEq, Repr

/-- A table with at least one slot. -/
structure CellTable where
  /-- The slots. -/
  slots : Array Slot
  /-- There is a slot. -/
  size_pos : 0 < slots.size

namespace CellTable

/-- A table of empty slots with room for `count` endpoints and one slot to spare. -/
def empty (count slotsPerEndpoint : Nat) : CellTable where
  slots := Array.replicate (count * max 1 slotsPerEndpoint + 1) .empty
  size_pos := by simp

/-- The number of slots. -/
def size (t : CellTable) : Nat := t.slots.size

/-- The number of slots that hold something. -/
def occupied (t : CellTable) : Nat := t.slots.countP (· ≠ .empty)

/-- What the slot at a position holds; nothing outside the table. -/
def get (t : CellTable) (position : Nat) : Slot := t.slots.getD position .empty

/-- The table with one slot replaced. -/
def set (t : CellTable) (position : Nat) (slot : Slot) : CellTable where
  slots := t.slots.setIfInBounds position slot
  size_pos := by simpa using t.size_pos

/-- The position after this one, around the end. -/
def next (t : CellTable) (position : Nat) : Nat :=
  if position + 1 < t.size then position + 1 else 0

/-- Searches from `start`, taken around the end of the table, for a slot that `accepts` accepts. -/
def probeM {m : Type → Type} [Monad m] (t : CellTable) (start : Nat) (accepts : Slot → m Bool) :
    m Probe :=
  go t.size (start % t.size)
where
  /-- Searches the `left` slots from `position` on that have not been visited. -/
  go : Nat → Nat → m Probe
    | 0, _ => pure (.vacant (start % t.size))
    | left + 1, position =>
      match t.get position with
      | .empty => pure (.vacant position)
      | occupant => do
        if ← accepts occupant then return .found position else go left (t.next position)

/-- Searches with a test that has no effects. -/
def probe (t : CellTable) (start : Nat) (accepts : Slot → Bool) : Probe :=
  Id.run (t.probeM start fun slot => pure (accepts slot))

/-- Searches and returns, beside the outcome, the slots that the test was asked about. -/
def probeLog (t : CellTable) (start : Nat) (accepts : Slot → Bool) : Probe × List Slot :=
  let (outcome, asked) := StateT.run (m := Id)
    (t.probeM start fun slot => do modify (· ++ [slot]); return accepts slot) []
  (outcome, asked)

variable {t : CellTable} {i j : Nat} {slot : Slot}

@[simp] theorem size_set : (t.set i slot).size = t.size := by simp [set, size]

theorem get_set_self (h : i < t.size) : (t.set i slot).get i = slot := by
  simp only [size] at h
  simp [set, get, Array.getD_eq_getD_getElem?, h]

theorem get_set_of_ne (h : i ≠ j) : (t.set i slot).get j = t.get j := by
  simp [set, get, Array.getD_eq_getD_getElem?, h]

theorem get_set (h : i < t.size) (k : Nat) :
    (t.set i slot).get k = if k = i then slot else t.get k := by
  split
  · rename_i hk
    rw [hk, get_set_self h]
  · rename_i hk
    exact get_set_of_ne (Ne.symm hk)

/-- An occupied slot is in the table. -/
theorem lt_size_of_get_ne (h : t.get i ≠ .empty) : i < t.size := by
  rcases Nat.lt_or_ge i t.size with hlt | hge
  · exact hlt
  · have hge' : t.slots.size ≤ i := hge
    simp [get, Array.getD_eq_getD_getElem?, Array.getElem?_eq_none hge'] at h

@[simp] theorem size_empty (count slotsPerEndpoint : Nat) :
    (empty count slotsPerEndpoint).size = count * max 1 slotsPerEndpoint + 1 := by
  simp [empty, size]

@[simp] theorem get_empty (count slotsPerEndpoint i : Nat) :
    (empty count slotsPerEndpoint).get i = .empty := by
  simp only [empty, get, Array.getD_eq_getD_getElem?, Array.getElem?_replicate]
  split <;> rfl

end CellTable

end DoubleCurve
