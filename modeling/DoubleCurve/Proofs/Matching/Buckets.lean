import DoubleCurve.CellTable
import Mathlib.Data.Int.ModEq

/-!
# The home of a cell

Digits are 32 bits wide, and the sums and products in a hash wrap around one by one. Modulo
`2 ^ 32` nothing is lost on the way: the hash is congruent to the weighted sum of the digits as
integers (`Cell.toInt_hash_modEq`), and without its sign it is the remainder of that sum
(`Cell.toNat_hash`).

`Cell.bucket_add` says the same of a cell that is moved by an offset, whose digits wrap around
as well. So a search from the offset of a cell starts where the cell that lies there has its home.
-/

namespace DoubleCurve.Cell

/-! ## Arithmetic that wraps around -/

theorem toInt_add_modEq (a b : Int32) : (a + b).toInt ≡ a.toInt + b.toInt [ZMOD 0x100000000] := by
  rw [Int32.toInt_add]
  exact Int.bmod_emod

theorem toInt_mul_modEq (a b : Int32) : (a * b).toInt ≡ a.toInt * b.toInt [ZMOD 0x100000000] := by
  rw [Int32.toInt_mul]
  exact Int.bmod_emod

/-- Without its sign, a digit is the remainder of its value. -/
theorem toNat_toUInt32 (a : Int32) : (a.toUInt32.toNat : ℤ) = a.toInt % 0x100000000 := by
  have hvalue : a.toInt ≡ a.toUInt32.toNat [ZMOD 0x100000000] := by
    rw [← Int32.toInt_toBitVec, BitVec.toInt_eq_toNat_bmod]
    exact Int.bmod_emod
  have hlt : a.toUInt32.toNat < 0x100000000 := UInt32.toNat_lt _
  rw [hvalue.eq, Int.emod_eq_of_lt (by omega) (by omega)]

theorem eq_of_toInt_modEq {a b : Int32} (h : a.toInt ≡ b.toInt [ZMOD 0x100000000]) : a = b := by
  rw [← Int32.toInt_inj]
  have := a.le_toInt
  have := a.toInt_lt
  have := b.le_toInt
  have := b.toInt_lt
  unfold Int.ModEq at h
  omega

/-! ## The hash -/

/-- The hash is the weighted sum of the digits, but for multiples of `2 ^ 32`. -/
theorem toInt_hash_modEq (c : Cell) :
    c.hash.toInt ≡ c.x.toInt + 11 * c.y.toInt + 37 * c.z.toInt [ZMOD 0x100000000] := by
  have hweighted (digit weight : Int32) :
      (digit * weight).toInt ≡ weight.toInt * digit.toInt [ZMOD 0x100000000] := by
    rw [Int.mul_comm]
    exact toInt_mul_modEq digit weight
  have hx : (c.x * weights.x).toInt ≡ c.x.toInt [ZMOD 0x100000000] := by
    rw [← Int.one_mul c.x.toInt]
    exact hweighted c.x weights.x
  calc c.hash.toInt
    _ ≡ (c.x * weights.x + c.y * weights.y).toInt + (c.z * weights.z).toInt [ZMOD 0x100000000] :=
      toInt_add_modEq ..
    _ ≡ (c.x * weights.x).toInt + (c.y * weights.y).toInt + (c.z * weights.z).toInt
        [ZMOD 0x100000000] := (toInt_add_modEq ..).add_right _
    _ ≡ c.x.toInt + 11 * c.y.toInt + 37 * c.z.toInt [ZMOD 0x100000000] :=
      (hx.add (hweighted c.y weights.y)).add (hweighted c.z weights.z)

/-- Without its sign, the hash is the remainder of the weighted sum of the digits. -/
theorem toNat_hash (c : Cell) :
    (c.hash.toUInt32.toNat : ℤ) = (c.x.toInt + 11 * c.y.toInt + 37 * c.z.toInt) % 0x100000000 := by
  rw [toNat_toUInt32]
  exact toInt_hash_modEq c

/-! ## Moving a cell by an offset -/

variable {c d offset : Cell}

/-- Whether the digits of `d` are those of `c` with the offset added, but for multiples of
`2 ^ 32`. -/
structure IsMoved (c offset d : Cell) : Prop where
  x : d.x.toInt ≡ c.x.toInt + offset.x.toInt [ZMOD 0x100000000]
  y : d.y.toInt ≡ c.y.toInt + offset.y.toInt [ZMOD 0x100000000]
  z : d.z.toInt ≡ c.z.toInt + offset.z.toInt [ZMOD 0x100000000]

theorem isMoved_add (c offset : Cell) : IsMoved c offset (c + offset) where
  x := toInt_add_modEq ..
  y := toInt_add_modEq ..
  z := toInt_add_modEq ..

/-- There is one cell at an offset. -/
theorem IsMoved.eq_add (h : IsMoved c offset d) : d = c + offset := by
  have hadd := isMoved_add c offset
  ext
  · exact eq_of_toInt_modEq (h.x.trans hadd.x.symm)
  · exact eq_of_toInt_modEq (h.y.trans hadd.y.symm)
  · exact eq_of_toInt_modEq (h.z.trans hadd.z.symm)

/-- The weighted sum of the digits of a moved cell, from the sums of digits and offsets as integers,
which do not wrap around. -/
theorem IsMoved.toNat_hash (h : IsMoved c offset d) :
    (d.hash.toUInt32.toNat : ℤ) = ((c.x.toInt + offset.x.toInt) + 11 * (c.y.toInt + offset.y.toInt) +
      37 * (c.z.toInt + offset.z.toInt)) % 0x100000000 := by
  rw [Cell.toNat_hash]
  exact (h.x.add (h.y.mul_left 11)).add (h.z.mul_left 37)

/-- The home of a cell moved by an offset is told by the weighted sum of digits and offset as
integers. It is a position of the table, and the home of the cell that lies at the offset. -/
theorem bucket_add (t : CellTable) (c offset : Cell) :
    ((c + offset).bucket t.size : ℤ) =
        ((c.x.toInt + offset.x.toInt) + 11 * (c.y.toInt + offset.y.toInt) +
          37 * (c.z.toInt + offset.z.toInt)) % 0x100000000 % t.size ∧
      (c + offset).bucket t.size < t.size ∧
      ∀ d, IsMoved c offset d → (c + offset).bucket t.size = d.bucket t.size := by
  refine ⟨?_, bucket_lt _ t.size_pos, fun d hd => by rw [hd.eq_add]⟩
  rw [bucket, Int.natCast_emod, (isMoved_add c offset).toNat_hash]

/-- A cell at the last digit, moved by one and by a negative offset: the digits wrap around, and the
home is that of the cell at the first digit. -/
theorem bucket_add_last :
    IsMoved ⟨0x7fffffff, -0x80000000, -7⟩ ⟨1, -1, -0x80000000⟩ ⟨-0x80000000, 0x7fffffff, 0x7ffffff9⟩ ∧
      ((⟨0x7fffffff, -0x80000000, -7⟩ : Cell) + ⟨1, -1, -0x80000000⟩).bucket
          (CellTable.empty 100 3).size =
        (⟨-0x80000000, 0x7fffffff, 0x7ffffff9⟩ : Cell).bucket (CellTable.empty 100 3).size := by
  have hmoved : IsMoved ⟨0x7fffffff, -0x80000000, -7⟩ ⟨1, -1, -0x80000000⟩
      ⟨-0x80000000, 0x7fffffff, 0x7ffffff9⟩ := ⟨by decide, by decide, by decide⟩
  exact ⟨hmoved, (bucket_add (.empty 100 3) _ _).2.2 _ hmoved⟩

end DoubleCurve.Cell
