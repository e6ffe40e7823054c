import Mathlib.Algebra.Order.Archimedean.Real.Basic
import Mathlib.Tactic.TFAE
import DoubleCurve.Proofs.RealScalar
import DoubleCurve.Proofs.Matching.Partners

/-!
# How far apart the cells of matching points are

The second pass looks for a partner in the cells that touch the cell of an endpoint. In real
numbers this is enough if and only if the tolerance is not greater than the side of a
cell (`Settings.touches_tfae`): cutting off toward zero and keeping a digit within 32
bits never moves digits of coordinates less than one apart by more than one
(`Cell.natAbs_sub_toInt32_le`), and as soon as points more than one side apart match there
are some with a whole cell between theirs (`Cell.exists_near_apart`).

`Settings.validate` looks at each setting for itself (`Settings.validate_eq_ok_iff`) and
does not compare the two, so it accepts settings with which points that match are not
found (`Settings.exists_near_apart_coarse`).
-/

namespace DoubleCurve

/-! ## Digits -/

namespace Cell

/-- The integer part toward zero. -/
noncomputable def integerPart (x : ℝ) : ℤ := if x < 0 then ⌈x⌉ else ⌊x⌋

theorem toInt_toInt32 (x : ℝ) :
    (Scalar.toInt32 x).toInt = max (-0x80000000) (min 0x7fffffff (integerPart x)) :=
  Int32.toInt_ofInt_of_le (le_max_left _ _)
    (max_lt (by decide) ((min_le_left _ _).trans_lt (by decide)))

theorem integerPart_mono : Monotone integerPart := by
  intro x y h
  rw [integerPart, integerPart]
  split
  case isTrue hx =>
    split
    case isTrue hy => exact Int.ceil_mono h
    case isFalse hy => exact (Int.ceil_nonpos.2 hx.le).trans (Int.floor_nonneg.2 (not_lt.1 hy))
  case isFalse hx =>
    rw [if_neg fun hy => hx (h.trans_lt hy)]
    exact Int.floor_mono h

theorem integerPart_add_one_le (x : ℝ) : integerPart (x + 1) ≤ integerPart x + 1 := by
  rw [integerPart, integerPart]
  split
  case isTrue h =>
    rw [if_pos (by linarith), Int.ceil_add_one]
  case isFalse h =>
    rw [Int.floor_add_one]
    split
    case isTrue hx => exact Int.add_le_add_right (Int.floor_le_ceil x) 1
    case isFalse hx => exact le_rfl

theorem integerPart_eq {x : ℝ} {n : ℤ} (hn : 0 ≤ n) (h : n ≤ x) (h' : x < n + 1) :
    integerPart x = n := by
  rw [integerPart, if_neg (not_lt.2 ((Int.cast_nonneg hn).trans h)), Int.floor_eq_iff]
  exact ⟨h, h'⟩

theorem toInt32_eq {x : ℝ} {n : ℤ} (hn : 0 ≤ n) (hmax : n ≤ 0x7fffffff) (h : n ≤ x)
    (h' : x < n + 1) : Scalar.toInt32 x = .ofInt n := by
  rw [← Int32.toInt_inj, toInt_toInt32, integerPart_eq hn h h',
    Int32.toInt_ofInt_of_le (by omega) (by omega), min_eq_right hmax, max_eq_right (by omega)]

theorem natAbs_sub_toInt32_le {x y : ℝ} (h : |x - y| < 1) :
    ((Scalar.toInt32 y).toInt - (Scalar.toInt32 x).toInt).natAbs ≤ 1 := by
  have hxy : integerPart x ≤ integerPart y + 1 :=
    (integerPart_mono (by linarith [(abs_lt.1 h).2])).trans (integerPart_add_one_le y)
  have hyx : integerPart y ≤ integerPart x + 1 :=
    (integerPart_mono (by linarith [(abs_lt.1 h).1])).trans (integerPart_add_one_le x)
  rw [toInt_toInt32, toInt_toInt32]
  omega

end Cell

/-! ## Cells -/

namespace Vec3

/-- Whether the scaled coordinates are within 32 bits. -/
def Fits (p : Vec3 ℝ) (cellScale : ℝ) : Prop :=
  p.x * cellScale ∈ Set.Icc (-0x80000000) 0x7fffffff ∧
    p.y * cellScale ∈ Set.Icc (-0x80000000) 0x7fffffff ∧
    p.z * cellScale ∈ Set.Icc (-0x80000000) 0x7fffffff

theorem fits_axis {x cellScale : ℝ} (h : 0 ≤ x * cellScale) (h' : x * cellScale ≤ 0x7fffffff) :
    (⟨x, 0, 0⟩ : Vec3 ℝ).Fits cellScale := by
  have hzero : 0 * cellScale ∈ Set.Icc (-0x80000000 : ℝ) 0x7fffffff := by norm_num
  exact ⟨⟨by linarith, h'⟩, hzero, hzero⟩

end Vec3

namespace Cell

variable {a c : Cell} {cellScale tolerance : ℝ} {p q : Vec3 ℝ}

/-- Whether the cells around one have the bucket of the other among theirs, in a table of any
size. -/
def Reaches (a c : Cell) : Prop :=
  ∀ size, ∃ offset ∈ neighbourhood, (a + offset).bucket size = c.bucket size

theorem Touches.reaches (h : a.Touches c) : a.Reaches c := by
  obtain ⟨offset, hoffset, hcell⟩ := h.exists_offset
  exact fun size => ⟨offset, hoffset, by rw [hcell]⟩

/-- Points that match within the side of a cell are in cells that touch. -/
theorem touches_of_near (hscale : 0 < cellScale) (htolerance : tolerance * cellScale ≤ 1)
    (h : p.near tolerance q = true) : (ofPoint cellScale p).Touches (ofPoint cellScale q) := by
  have hscaled {x y : ℝ} (hxy : |x - y| < tolerance) : |x * cellScale - y * cellScale| < 1 :=
    calc |x * cellScale - y * cellScale|
      _ = |x - y| * cellScale := by rw [← sub_mul, abs_mul, abs_of_pos hscale]
      _ < tolerance * cellScale := mul_lt_mul_of_pos_right hxy hscale
      _ ≤ 1 := htolerance
  obtain ⟨hx, hy, hz⟩ := Vec3.near_iff.1 h
  exact ⟨natAbs_sub_toInt32_le (hscaled hx), natAbs_sub_toInt32_le (hscaled hy),
    natAbs_sub_toInt32_le (hscaled hz)⟩

theorem ofPoint_axis {x : ℝ} {n : ℤ} (hn : 0 ≤ n) (hmax : n ≤ 0x7fffffff) (h : n ≤ x * cellScale)
    (h' : x * cellScale < n + 1) : ofPoint cellScale ⟨x, 0, 0⟩ = ⟨.ofInt n, 0, 0⟩ := by
  have hzero : Scalar.toInt32 (0 * cellScale) = 0 :=
    toInt32_eq le_rfl (by decide) (by simp) (by simp)
  rw [ofPoint, toInt32_eq hn hmax h h', hzero]

/-- Where points match that are more than a side apart, there are some with a whole cell between
theirs. -/
theorem exists_near_apart (hscale : 0 < cellScale) (h : 1 < tolerance * cellScale) :
    ∃ p q : Vec3 ℝ, p.Fits cellScale ∧ q.Fits cellScale ∧ p.near tolerance q = true ∧
      ofPoint cellScale p = ⟨1, 0, 0⟩ ∧ ofPoint cellScale q = ⟨3, 0, 0⟩ := by
  -- The one is where digit 3 begins, and the other just before digit 1 ends.
  obtain ⟨d, hd, hd'⟩ := exists_between (lt_min h one_lt_two)
  obtain ⟨hmatch, htwo⟩ := lt_min_iff.1 hd'
  have hx : (3 - d) / cellScale * cellScale = 3 - d := div_mul_cancel₀ _ hscale.ne'
  have hx' : 3 / cellScale * cellScale = 3 := div_mul_cancel₀ _ hscale.ne'
  refine ⟨⟨(3 - d) / cellScale, 0, 0⟩, ⟨3 / cellScale, 0, 0⟩, ?_, ?_, ?_, ?_, ?_⟩
  · exact Vec3.fits_axis (by rw [hx]; linarith) (by rw [hx]; linarith)
  · exact Vec3.fits_axis (by rw [hx']; norm_num) (by rw [hx']; norm_num)
  · have hgap : |(3 - d) / cellScale - 3 / cellScale| < tolerance := by
      rw [← sub_div, sub_sub_cancel_left, abs_div, abs_neg, abs_of_pos (one_pos.trans hd),
        abs_of_pos hscale, div_lt_iff₀ hscale]
      exact hmatch
    have hpos : 0 < tolerance := (abs_nonneg _).trans_lt hgap
    exact Vec3.near_iff.2 ⟨hgap, by simpa using hpos, by simpa using hpos⟩
  · exact ofPoint_axis zero_le_one (by decide) (by rw [hx]; push_cast; linarith)
      (by rw [hx]; push_cast; linarith)
  · exact ofPoint_axis (n := 3) (by decide) (by decide) (by rw [hx']; norm_num)
      (by rw [hx']; norm_num)

theorem not_reaches_apart : ¬ (⟨1, 0, 0⟩ : Cell).Reaches ⟨3, 0, 0⟩ := by
  intro h
  have := h 0x100000000
  revert this
  decide

end Cell

/-! ## Settings -/

namespace Settings

/-- Each setting is looked at for itself. -/
theorem validate_eq_ok_iff {α : Type} [Scalar α] {s : Settings α} : s.validate = .ok () ↔
    (0 < s.matching ∧ Scalar.isFinite s.matching = true) ∧
      (0 ≤ s.shortLength ∧ Scalar.isFinite s.shortLength = true) ∧
      (0 < s.cellScale ∧ Scalar.isFinite s.cellScale = true) ∧
      s.symmetry ≠ 0 ∧ s.symmetry ≤ greatestSymmetry := by
  rw [validate, Tolerances.ofValues]
  by_cases hmatching : 0 < s.matching ∧ Scalar.isFinite s.matching = true
  case neg => simp [hmatching]
  by_cases hshort : 0 ≤ s.shortLength ∧ Scalar.isFinite s.shortLength = true
  case neg => simp [hmatching, hshort]
  by_cases hscale : 0 < s.cellScale ∧ Scalar.isFinite s.cellScale = true
  case neg => simp [hmatching, hshort, hscale]
  simp [hmatching, hshort, hscale]

/-- With accepted settings matching points are always in cells that touch, and always found from
the cells around theirs, if and only if the tolerance is not greater than the side of a cell. -/
theorem touches_tfae {s : Settings ℝ} (h : s.validate = .ok ()) :
    [s.matching * s.cellScale ≤ 1,
      ∀ p q : Vec3 ℝ, p.Fits s.cellScale → q.Fits s.cellScale → p.near s.matching q = true →
        (Cell.ofPoint s.cellScale p).Touches (Cell.ofPoint s.cellScale q),
      ∀ p q : Vec3 ℝ, p.Fits s.cellScale → q.Fits s.cellScale → p.near s.matching q = true →
        (Cell.ofPoint s.cellScale p).Reaches (Cell.ofPoint s.cellScale q)].TFAE := by
  obtain ⟨-, -, ⟨hscale, -⟩, -⟩ := validate_eq_ok_iff.1 h
  tfae_have 1 → 2
  | htolerance, _, _, _, _, hnear => Cell.touches_of_near hscale htolerance hnear
  tfae_have 2 → 3
  | htouches, p, q, hp, hq, hnear => (htouches p q hp hq hnear).reaches
  tfae_have 3 → 1 := by
    intro hreaches
    by_contra hgreater
    obtain ⟨p, q, hp, hq, hnear, hcell, hcell'⟩ :=
      Cell.exists_near_apart hscale (not_le.1 hgreater)
    have := hreaches p q hp hq hnear
    rw [hcell, hcell'] at this
    exact Cell.not_reaches_apart this
  tfae_finish

/-- Settings that differ from those used otherwise in the tolerance are accepted, however great it
is. -/
theorem validate_of_matching_pos {tolerance : ℝ} (h : 0 < tolerance) :
    ({ standard with matching := tolerance } : Settings ℝ).validate = .ok () := by
  refine validate_eq_ok_iff.2 ⟨⟨h, rfl⟩, ⟨?_, rfl⟩, ⟨?_, rfl⟩, Nat.one_ne_zero,
    (by decide : 1 ≤ greatestSymmetry)⟩
  · show (0 : ℝ) ≤ 0.02
    norm_num
  · show (0 : ℝ) < 10000.0
    norm_num

/-- The tolerance used unless another is given is a fifth of the side of a cell. -/
theorem touches_tfae_standard :
    (standard : Settings ℝ).matching * (standard : Settings ℝ).cellScale ≤ 1 ∧
      ∀ p q : Vec3 ℝ, p.Fits (standard : Settings ℝ).cellScale →
        q.Fits (standard : Settings ℝ).cellScale → p.near (standard : Settings ℝ).matching q = true →
        (Cell.ofPoint (standard : Settings ℝ).cellScale p).Touches
          (Cell.ofPoint (standard : Settings ℝ).cellScale q) := by
  have hvalid : (standard : Settings ℝ).validate = .ok () :=
    validate_of_matching_pos (by norm_num : (0 : ℝ) < 2e-5)
  have hside : (standard : Settings ℝ).matching * (standard : Settings ℝ).cellScale ≤ 1 := by
    show (2e-5 : ℝ) * 10000.0 ≤ 1
    norm_num
  exact ⟨hside, ((touches_tfae hvalid).out 0 1).1 hside⟩

/-- With a tolerance of ten sides of a cell, which is accepted, there are points that match and are
six cells apart, and in a table for four endpoints no cell around the one leads to the other. -/
theorem exists_near_apart_coarse :
    ∃ s : Settings ℝ, s = { standard with matching := 0.001 } ∧ s.validate = .ok () ∧
      ∃ p q : Vec3 ℝ, p = ⟨0.5, 0, 0⟩ ∧ q = ⟨0.5006, 0, 0⟩ ∧
        p.Fits s.cellScale ∧ q.Fits s.cellScale ∧ p.near s.matching q = true ∧
        ¬ (Cell.ofPoint s.cellScale p).Touches (Cell.ofPoint s.cellScale q) ∧
        ∀ offset ∈ Cell.neighbourhood, (Cell.ofPoint s.cellScale p + offset).bucket 13 ≠
          (Cell.ofPoint s.cellScale q).bucket 13 := by
  have hscale : (standard : Settings ℝ).cellScale = 10000.0 := rfl
  have hp : Cell.ofPoint (10000.0 : ℝ) ⟨0.5, 0, 0⟩ = ⟨5000, 0, 0⟩ :=
    Cell.ofPoint_axis (n := 5000) (by decide) (by decide) (by norm_num) (by norm_num)
  have hq : Cell.ofPoint (10000.0 : ℝ) ⟨0.5006, 0, 0⟩ = ⟨5006, 0, 0⟩ :=
    Cell.ofPoint_axis (n := 5006) (by decide) (by decide) (by norm_num) (by norm_num)
  refine ⟨_, rfl, validate_of_matching_pos (by norm_num), _, _, rfl, rfl, ?_⟩
  rw [hscale, hp, hq]
  refine ⟨Vec3.fits_axis (by norm_num) (by norm_num), Vec3.fits_axis (by norm_num) (by norm_num),
    ?_, by decide, by decide⟩
  rw [Vec3.near_iff]
  norm_num [abs_lt]

-- In double precision such ends are left without a partner.
example : ∃ m found,
    Matching.build #[⟨1, 0, 0⟩, ⟨0.5, 0, 0⟩, ⟨0.5006, 0, 0⟩, ⟨0, 1, 0⟩]
      ({ standard with matching := 0.001 } : Settings Float) = .ok (m, found) ∧
    m.unmatched = [0, 1, 2, 3].map Endpoint.ofIndex ∧
    (m.segments.point (.ofIndex 1)).near 0.001 (m.segments.point (.ofIndex 2)) = true := by
  refine ⟨_, _, Matching.build_eq_ok rfl (by decide), ?_⟩
  decide +kernel

end Settings

end DoubleCurve
