import DoubleCurve.Proofs.RealScalar
import DoubleCurve.Proofs.Soup.Copies

/-!
# Copies that are kept out

A copy of a segment that starts where the segment ends is kept out of matching, since
it runs over the segment backwards (`Segments.isSelfImage`). With nothing rounded,
this is right in the following cases:

* `Segments.reverses_source_iff`: a copy that is kept out runs over its source
  backwards, whatever the segment, exactly if it is the half turn. Any other copy may
  start where the segment ends and go on from there.
* `Segments.not_reverses_iff`: no two copies that are left run over one another
  backwards, whatever the segment, exactly if there are not more than two copies.
  Copies are compared with the given segment only.
-/

namespace DoubleCurve

theorem Tolerances.standard_matching :
    0 < (standard : Tolerances ℝ).matching ∧ (standard : Tolerances ℝ).matching < 1 := by
  change (0 : ℝ) < 2e-5 ∧ (2e-5 : ℝ) < 1
  norm_num

namespace Segments

/-! ## Exact rotations -/

variable {points : Array (Vec3 ℝ)} {s : Segments ℝ} {e f : Endpoint} {order r k : Nat} {tolerance : ℝ}

@[simp] theorem angle_zero (order : Nat) : angle order 0 = 0 := by
  rw [angle, Nat.cast_zero, mul_zero, zero_div]

theorem copyPoint_eq_turned (order r : Nat) (p : Vec3 ℝ) :
    copyPoint order r p = p.turned (angle order r) := by
  rw [copyPoint]
  split
  · rename_i hr
    rw [hr, angle_zero, Vec3.turned_zero]
  · rfl

theorem point_eq_turned (he : e.index < (replicate points order).size) (ho : 0 < order) :
    (replicate points order).point e =
      ((replicate points order).point ((replicate points order).source e)).turned
        (angle order ((replicate points order).copyOf e)) := by
  have horder : (replicate points order).order = order := Nat.max_eq_left ho
  rw [point_replicate he, copyPoint_eq_turned, horder]

/-! ### The half turn -/

theorem angle_half (hr : 0 < r) (h : 2 * r = order) : angle order r = Real.pi := by
  have hr : (r : ℝ) ≠ 0 := by positivity
  rw [angle, ← h]
  push_cast
  field_simp

/-- The copy that a half turn makes of a segment ends where the segment starts if it starts where the
segment ends. -/
theorem reverses_source_of_half (he : e.index < (replicate points order).size)
    (hr : 0 < (replicate points order).copyOf e)
    (hhalf : 2 * (replicate points order).copyOf e = order)
    (h : ((replicate points order).point (start e)).near tolerance
      ((replicate points order).point ((replicate points order).source (start e)).twin) = true) :
    (replicate points order).Reverses tolerance e ((replicate points order).source e) := by
  have hpoint {a : Endpoint} (ha : a.index < (replicate points order).size)
      (hcopy : (replicate points order).copyOf a = (replicate points order).copyOf e) :
      (replicate points order).point a =
        ((replicate points order).point ((replicate points order).source a)).turned Real.pi := by
    rw [point_eq_turned ha (by omega), hcopy, angle_half hr hhalf]
  generalize replicate points order = s at he h hpoint
  have hstart := start_index_lt he
  refine ⟨by rwa [start_source], ?_⟩
  rw [hpoint hstart (s.copyOf_start e)] at h
  rw [start_source, hpoint (twin_index_lt hstart) (by rw [copyOf_twin, copyOf_start]), source_twin,
    Vec3.near_turned_pi]
  exact h

/-- For a copy that is not the half turn, twice its angle is not a whole number of turns. -/
theorem cos_two_mul_angle_ne_one (hr : 0 < r) (hlt : r < order) (hne : 2 * r ≠ order) :
    Real.cos (angle order r + angle order r) ≠ 1 := by
  intro hcos
  obtain ⟨n, hn⟩ := (Real.cos_eq_one_iff _).1 hcos
  have horder : (order : ℝ) ≠ 0 := by
    have : 0 < order := by omega
    positivity
  have hturns : (n : ℝ) * order = 2 * r := by
    have hpi := Real.pi_ne_zero
    rw [angle] at hn
    field_simp at hn
    linarith
  have hint : n * order = 2 * r := by exact_mod_cast hturns
  have hpos : 0 < n := by
    by_contra hle
    have : n * order ≤ 0 := Int.mul_nonpos_of_nonpos_of_nonneg (by omega) (by omega)
    omega
  have hle : n < 2 := by
    by_contra hge
    have : 2 * (order : ℤ) ≤ n * order := Int.mul_le_mul_of_nonneg_right (by omega) (by omega)
    omega
  obtain rfl : n = 1 := by omega
  omega

/-- A point that is not brought back by two turns, not even nearly. -/
theorem exists_apart {θ : ℝ} (htol : 0 < tolerance) (hcos : Real.cos (θ + θ) ≠ 1) :
    ∃ p : Vec3 ℝ, p.near tolerance ((p.turned θ).turned θ) = false := by
  have hpos : 0 < 1 - Real.cos (θ + θ) := by
    have := lt_of_le_of_ne (Real.cos_le_one _) hcos
    linarith
  refine ⟨⟨tolerance / (1 - Real.cos (θ + θ)), 0, 0⟩, ?_⟩
  rw [Bool.eq_false_iff, ne_eq, Vec3.near_iff, Vec3.turned_turned, Vec3.turned_eq]
  rintro ⟨hx, -, -⟩
  dsimp only at hx
  rw [zero_mul, sub_zero, ← mul_one_sub, div_mul_cancel₀ _ hpos.ne', abs_of_pos htol] at hx
  exact lt_irrefl _ hx

/-! ### A soup of one segment -/

/-- The first endpoint of copy `r` of a soup of one segment. -/
def copyStart (r : Nat) : Endpoint := .ofIndex (2 * r)

section OneSegment

variable {p q : Vec3 ℝ}

theorem evenPart_pair (p q : Vec3 ℝ) : evenPart #[p, q].size = 2 := by
  simp [evenPart]

theorem baseSize_pair (p q : Vec3 ℝ) (order : Nat) : (replicate #[p, q] order).baseSize = 2 :=
  evenPart_pair p q

theorem points_pair (p q : Vec3 ℝ) : #[p, q].take (evenPart #[p, q].size) = #[p, q] := by
  rw [evenPart_pair]
  rfl

variable (hr : r < order) (ho : order ≤ Settings.greatestSymmetry)

include hr ho

theorem index_copyStart : (copyStart r).index = 2 * r := by
  unfold Settings.greatestSymmetry at ho
  exact Endpoint.index_ofIndex (by omega)

theorem copyStart_index_lt (p q : Vec3 ℝ) : (copyStart r).index < (replicate #[p, q] order).size := by
  rw [index_copyStart hr ho, size_replicate _ (by omega), evenPart_pair]
  omega

theorem start_copyStart : start (copyStart r) = copyStart r := by
  rw [start, Endpoint.isStart, index_copyStart hr ho]
  simp

theorem copyOf_copyStart (p q : Vec3 ℝ) : (replicate #[p, q] order).copyOf (copyStart r) = r := by
  rw [copyOf, baseSize_pair, index_copyStart hr ho]
  simp

theorem source_copyStart (p q : Vec3 ℝ) : (replicate #[p, q] order).source (copyStart r) = copyStart 0 := by
  rw [source, baseSize_pair, index_copyStart hr ho]
  simp [copyStart]

omit hr ho in
theorem point_copyStart_zero (ho : 0 < order) (p q : Vec3 ℝ) :
    (replicate #[p, q] order).point (copyStart 0) = p ∧
      (replicate #[p, q] order).point (copyStart 0).twin = q := by
  have hpoints : (replicate #[p, q] order).points =
      copies (#[p, q].take (evenPart #[p, q].size)) (max order 1) (max order 1) := rfl
  rw [points_pair, Nat.max_eq_left ho] at hpoints
  have hget (i : Nat) (hi : i < 2) : (copies #[p, q] order order).getD (2 * 0 + i) .zero =
      copyPoint order 0 (#[p, q].getD i .zero) := getD_copies order ho hi
  rw [point, point, hpoints]
  exact ⟨hget 0 (by omega), hget 1 (by omega)⟩

theorem point_copyStart : (replicate #[p, q] order).point (copyStart r) = p.turned (angle order r) ∧
    (replicate #[p, q] order).point (copyStart r).twin = q.turned (angle order r) := by
  have hlt := copyStart_index_lt hr ho p q
  obtain ⟨hp, hq⟩ := point_copyStart_zero (Nat.zero_lt_of_lt hr) p q
  rw [point_eq_turned hlt (by omega), point_eq_turned (twin_index_lt hlt) (by omega), source_twin,
    copyOf_twin, source_copyStart hr ho, copyOf_copyStart hr ho, hp, hq]
  exact ⟨rfl, rfl⟩

theorem isDegenerate_copyStart : (replicate #[p, q] order).isDegenerate (copyStart r) = true ↔ p = q := by
  obtain ⟨hp, hq⟩ := point_copyStart_zero (Nat.zero_lt_of_lt hr) p q
  rw [isDegenerate, start_copyStart hr ho, source_copyStart hr ho, hp, hq, beq_iff_eq]

/-- Which copies of a segment are kept out. -/
theorem isExcluded_copyStart : (replicate #[p, q] order).isExcluded tolerance (copyStart r) = true ↔
    p = q ∨ r ≠ 0 ∧ (p.turned (angle order r)).near tolerance q = true := by
  rw [isExcluded_iff, isDegenerate_copyStart hr ho, start_copyStart hr ho, source_copyStart hr ho,
    (point_copyStart hr ho).1, (point_copyStart_zero (Nat.zero_lt_of_lt hr) p q).2, baseSize_pair,
    index_copyStart hr ho]
  have hbase : 2 ≤ 2 * r ↔ r ≠ 0 := by omega
  rw [hbase]

/-- Which copies of a segment run over one another. -/
theorem reverses_copyStart (hk : k < order) :
    (replicate #[p, q] order).Reverses tolerance (copyStart r) (copyStart k) ↔
      (p.turned (angle order r)).near tolerance (q.turned (angle order k)) = true ∧
        (p.turned (angle order k)).near tolerance (q.turned (angle order r)) = true := by
  rw [Reverses, start_copyStart hr ho, start_copyStart hk ho, (point_copyStart hr ho).1,
    (point_copyStart hr ho).2, (point_copyStart hk ho).1, (point_copyStart hk ho).2]

end OneSegment

/-! ## When the test is right -/

/-- A copy that is kept out runs over its source backwards, whatever the segment, exactly if it is the
given segment or the half turn, or if nothing matches. -/
theorem reverses_source_iff (order r : Nat) (tolerance : ℝ) (ho : order ≤ Settings.greatestSymmetry) :
    (∀ (points : Array (Vec3 ℝ)) (e : Endpoint), e.index < (replicate points order).size →
      (replicate points order).copyOf e = r →
      (replicate points order).isExcluded tolerance e = true →
      (replicate points order).isDegenerate e = false →
      (replicate points order).Reverses tolerance e ((replicate points order).source e)) ↔
    r = 0 ∨ order ≤ r ∨ tolerance ≤ 0 ∨ 2 * r = order := by
  constructor
  · intro h
    by_contra hnot
    simp only [not_or, not_le] at hnot
    obtain ⟨hr, hlt, htol, hne⟩ := hnot
    have hr := Nat.pos_of_ne_zero hr
    obtain ⟨p, hp⟩ := exists_apart htol (cos_two_mul_angle_ne_one hr hlt hne)
    -- the segment from `p` to where the copy of `p` is: the copy goes on from its end
    have hpq : p ≠ p.turned (angle order r) := fun hpq => by
      rw [← hpq, ← hpq, Vec3.near_self htol] at hp
      cases hp
    have hreverses := h #[p, p.turned (angle order r)] (copyStart r) (copyStart_index_lt hlt ho _ _)
      (copyOf_copyStart hlt ho _ _)
      ((isExcluded_copyStart hlt ho).2 (.inr ⟨Nat.ne_of_gt hr, Vec3.near_self htol _⟩))
      (by rw [← Bool.not_eq_true, isDegenerate_copyStart hlt ho]; exact hpq)
    have hzero : 0 < order := Nat.zero_lt_of_lt hlt
    rw [source_copyStart hlt ho, reverses_copyStart hlt ho hzero] at hreverses
    have hback := hreverses.2
    rw [angle_zero, Vec3.turned_zero, hp] at hback
    cases hback
  · rintro h points e he rfl hex hdeg
    obtain ⟨hbase, hnear⟩ := (isExcluded_iff.1 hex).resolve_left (by rw [hdeg]; simp)
    have hr : (replicate points order).copyOf e ≠ 0 := by
      rw [← copyOf_start, Ne, copyOf_eq_zero_iff (start_index_lt he)]
      omega
    have hlt : (replicate points order).copyOf e < max order 1 := copyOf_lt he
    rcases h with h | h | h | h
    · exact absurd h hr
    · omega
    · rw [Vec3.near_eq_false h] at hnear
      cases hnear
    · exact reverses_source_of_half he (Nat.pos_of_ne_zero hr) h hnear

/-- A diameter of a circle. -/
def diameter : Array (Vec3 ℝ) := #[⟨1, 0, 0⟩, ⟨-1, 0, 0⟩]

/-- The half turn of a diameter is kept out, and it runs over the diameter. -/
theorem reverses_diameter : (replicate diameter 2).isExcluded 1 (copyStart 1) = true ∧
    (replicate diameter 2).Reverses 1 (copyStart 1) ((replicate diameter 2).source (copyStart 1)) := by
  have hlt : 1 < 2 := by decide
  have ho : 2 ≤ Settings.greatestSymmetry := by decide
  have hex : (replicate diameter 2).isExcluded 1 (copyStart 1) = true := by
    rw [diameter, isExcluded_copyStart hlt ho, angle_half Nat.one_pos rfl, Vec3.turned_pi, neg_zero]
    exact .inr ⟨Nat.one_ne_zero, Vec3.near_self one_pos _⟩
  refine ⟨hex, (reverses_source_iff 2 1 1 ho).2 (.inr (.inr (.inr rfl))) diameter (copyStart 1)
    (copyStart_index_lt hlt ho _ _) (copyOf_copyStart hlt ho _ _) hex ?_⟩
  rw [← Bool.not_eq_true, diameter, isDegenerate_copyStart hlt ho]
  intro h
  have hx := congrArg Vec3.x h
  norm_num at hx

/-- A quarter of a circle, cut short by a chord. -/
def quarter : Array (Vec3 ℝ) := #[⟨1, 0, 0⟩, ⟨0, 1, 0⟩]

theorem turned_angle_four_one (p : Vec3 ℝ) : p.turned (angle 4 1) = ⟨-p.y, p.x, p.z⟩ := by
  have hangle : angle 4 1 = Real.pi / 2 := by
    rw [angle]
    push_cast
    ring
  simp [Vec3.turned_eq, hangle]

/-- The next quarter of the circle is kept out, although it does not run over the first one. -/
theorem excluded_quarter :
    (replicate quarter 4).isExcluded Tolerances.standard.matching (copyStart 1) = true ∧
      (replicate quarter 4).isDegenerate (copyStart 1) = false ∧
      ¬ (replicate quarter 4).Reverses Tolerances.standard.matching (copyStart 1)
        ((replicate quarter 4).source (copyStart 1)) := by
  have hlt : 1 < 4 := by decide
  have ho : 4 ≤ Settings.greatestSymmetry := by decide
  obtain ⟨hpos, hone⟩ := Tolerances.standard_matching
  rw [quarter]
  refine ⟨?_, ?_, ?_⟩
  · rw [isExcluded_copyStart hlt ho, turned_angle_four_one, neg_zero]
    exact .inr ⟨Nat.one_ne_zero, Vec3.near_self hpos _⟩
  · rw [← Bool.not_eq_true, isDegenerate_copyStart hlt ho]
    intro h
    have hx := congrArg Vec3.x h
    norm_num at hx
  · rw [source_copyStart hlt ho, reverses_copyStart hlt ho (by decide), turned_angle_four_one,
      turned_angle_four_one, angle_zero, Vec3.turned_zero]
    rintro ⟨-, hback⟩
    have hx := (Vec3.near_iff.1 hback).1
    norm_num at hx
    linarith

/-! ## Copies that are left -/

/-- Whether copies `r` and `k` of the segment from `p` to `q` run over one another backwards although
neither of them starts where the segment ends. -/
structure Survive (order : Nat) (tolerance : ℝ) (p q : Vec3 ℝ) (r k : Nat) : Prop where
  ne : p ≠ q
  apart : (p.turned (angle order r)).near tolerance q = false
  apart' : (p.turned (angle order k)).near tolerance q = false
  near : (p.turned (angle order r)).near tolerance (q.turned (angle order k)) = true
  near' : (p.turned (angle order k)).near tolerance (q.turned (angle order r)) = true

theorem Survive.spec {p q : Vec3 ℝ} (h : Survive order tolerance p q r k) (hr : r < order)
    (hk : k < order) (ho : order ≤ Settings.greatestSymmetry) :
    (replicate #[p, q] order).isExcluded tolerance (copyStart r) = false ∧
      (replicate #[p, q] order).isExcluded tolerance (copyStart k) = false ∧
      (replicate #[p, q] order).Reverses tolerance (copyStart r) (copyStart k) := by
  have hleft {n : Nat} (hn : n < order) (hnear : (p.turned (angle order n)).near tolerance q = false) :
      (replicate #[p, q] order).isExcluded tolerance (copyStart n) = false := by
    rw [← Bool.not_eq_true, isExcluded_copyStart hn ho, hnear]
    simpa using h.ne
  exact ⟨hleft hr h.apart, hleft hk h.apart', (reverses_copyStart hr ho hk).2 ⟨h.near, h.near'⟩⟩

theorem sin_angle_one_pos {k : Nat} (hk : 2 ≤ k) : 0 < Real.sin (angle (2 * k) 1) := by
  have hpi := Real.pi_pos
  have htwo : (2 : ℝ) ≤ k := by exact_mod_cast hk
  apply Real.sin_pos_of_pos_of_lt_pi
  · rw [angle]
    positivity
  · rw [angle, div_lt_iff₀ (by positivity)]
    push_cast
    nlinarith

/-- With an even number of copies, the copy of a diameter next to it and the opposite copy run over
one another. -/
theorem survive_diameter {k : Nat} {a : ℝ} (hk : 2 ≤ k) (htol : 0 < tolerance)
    (ha : tolerance ≤ a * Real.sin (angle (2 * k) 1)) :
    Survive (2 * k) tolerance ⟨a, 0, 0⟩ ⟨-a, 0, 0⟩ 1 (k + 1) := by
  have hopposite : angle (2 * k) (k + 1) = angle (2 * k) 1 + Real.pi := by
    have hkpos : 0 < k := by omega
    rw [angle, angle]
    push_cast
    field_simp
    ring
  have hsame (b : ℝ) : (⟨b, 0, 0⟩ : Vec3 ℝ).turned (angle (2 * k) (k + 1)) =
      (⟨-b, 0, 0⟩ : Vec3 ℝ).turned (angle (2 * k) 1) := by
    rw [hopposite, Vec3.turned_add_pi, neg_zero]
  have hne : a ≠ 0 := by
    rintro rfl
    rw [zero_mul] at ha
    exact ha.not_gt htol
  have habs : ¬ |a * Real.sin (angle (2 * k) 1)| < tolerance :=
    not_lt.2 (ha.trans (le_abs_self _))
  refine ⟨fun h => ?_, ?_, ?_, ?_, ?_⟩
  · have hx := congrArg Vec3.x h
    dsimp only at hx
    exact hne (by linarith)
  · rw [Bool.eq_false_iff, ne_eq, Vec3.near_iff]
    rintro ⟨-, hy, -⟩
    simp only [Vec3.turned_eq, zero_mul, add_zero, sub_zero] at hy
    exact habs hy
  · rw [hsame, Bool.eq_false_iff, ne_eq, Vec3.near_iff]
    rintro ⟨-, hy, -⟩
    simp only [Vec3.turned_eq, neg_mul, abs_neg, zero_mul, add_zero, sub_zero] at hy
    exact habs hy
  · rw [hsame, neg_neg]
    exact Vec3.near_self htol _
  · rw [hsame]
    exact Vec3.near_self htol _

/-- Two copies on either side of the half turn run over one another if the segment is short and
upright. -/
theorem exists_survive_upright {ψ : ℝ} (hψpos : 0 < ψ) (hψ : ψ + ψ < Real.pi) (htol : 0 < tolerance)
    (hbefore : angle order r = Real.pi - ψ) (hafter : angle order k = ψ + Real.pi) :
    ∃ p q : Vec3 ℝ, Survive order tolerance p q r k := by
  have hpi := Real.pi_pos
  have hcos : 0 < Real.cos ψ := Real.cos_pos_of_mem_Ioo ⟨by linarith, by linarith⟩
  have hsin : 0 < Real.sin ψ := Real.sin_pos_of_pos_of_lt_pi hψpos (by linarith)
  have hsin1 := Real.sin_le_one ψ
  -- as wide and as high as keeps the two copies from the end of the segment
  have hsum : 0 < 1 + Real.cos ψ + Real.sin ψ := by linarith
  have ha : 0 < tolerance / (1 + Real.cos ψ + Real.sin ψ) := by positivity
  have htola : tolerance / (1 + Real.cos ψ + Real.sin ψ) * (1 + Real.cos ψ + Real.sin ψ) = tolerance :=
    div_mul_cancel₀ _ hsum.ne'
  generalize tolerance / (1 + Real.cos ψ + Real.sin ψ) = a at ha htola
  have hturned (z : ℝ) : (⟨a, a, z⟩ : Vec3 ℝ).turned (Real.pi - ψ) =
      ⟨-(a * Real.cos ψ + a * Real.sin ψ), a * Real.sin ψ - a * Real.cos ψ, z⟩ := by
    simp only [Vec3.turned_eq, Real.cos_pi_sub, Real.sin_pi_sub]
    ext <;> ring
  have hturned' (z : ℝ) : (⟨a, a, z⟩ : Vec3 ℝ).turned (ψ + Real.pi) =
      ⟨a * Real.sin ψ - a * Real.cos ψ, -(a * Real.cos ψ + a * Real.sin ψ), z⟩ := by
    rw [Vec3.turned_add_pi, Vec3.turned_eq]
    ext <;> ring
  have hu : 0 < a * Real.cos ψ := by positivity
  have hv : 0 < a * Real.sin ψ := by positivity
  have hva : a * Real.sin ψ ≤ a := mul_le_of_le_one_right ha.le hsin1
  rw [mul_add, mul_add, mul_one] at htola
  refine ⟨⟨a, a, 0⟩, ⟨a, a, a⟩, fun h => ?_, ?_, ?_, ?_, ?_⟩
  · exact ha.ne (congrArg Vec3.z h)
  · rw [Bool.eq_false_iff, ne_eq, Vec3.near_iff, hbefore, hturned]
    rintro ⟨hx, -, -⟩
    rw [abs_lt] at hx
    linarith
  · rw [Bool.eq_false_iff, ne_eq, Vec3.near_iff, hafter, hturned']
    rintro ⟨-, hy, -⟩
    rw [abs_lt] at hy
    linarith
  · rw [hbefore, hafter, Vec3.near_iff, hturned, hturned', abs_lt, abs_lt, abs_lt]
    constructorm* _ ∧ _ <;> linarith
  · rw [hbefore, hafter, Vec3.near_iff, hturned, hturned', abs_lt, abs_lt, abs_lt]
    constructorm* _ ∧ _ <;> linarith

/-- With an odd number of copies, the two that are next to the half turn run over one another if the
segment is short and upright. -/
theorem exists_survive_odd {k : Nat} (hk : 1 ≤ k) (htol : 0 < tolerance) :
    ∃ p q : Vec3 ℝ, Survive (2 * k + 1) tolerance p q k (k + 1) := by
  have hkpos : (1 : ℝ) ≤ k := by exact_mod_cast hk
  have hpi := Real.pi_pos
  have hbefore : angle (2 * k + 1) k = Real.pi - Real.pi / (2 * k + 1) := by
    rw [angle]
    push_cast
    field_simp
    ring
  have hafter : angle (2 * k + 1) (k + 1) = Real.pi / (2 * k + 1) + Real.pi := by
    rw [angle]
    push_cast
    field_simp
    ring
  have hψ : Real.pi / (2 * k + 1) < Real.pi / 2 := by
    apply div_lt_div_of_pos_left hpi <;> linarith
  exact exists_survive_upright (by positivity) (by linarith) htol hbefore hafter

/-- No two copies that are left run over one another backwards, whatever the segment, exactly if there
are not more than two copies, or if nothing matches. -/
theorem not_reverses_iff (order : Nat) (tolerance : ℝ) (ho : order ≤ Settings.greatestSymmetry) :
    (∀ (points : Array (Vec3 ℝ)) (e f : Endpoint), e.index < (replicate points order).size →
      f.index < (replicate points order).size →
      ((replicate points order).source e).segment = ((replicate points order).source f).segment →
      (replicate points order).copyOf e ≠ (replicate points order).copyOf f →
      (replicate points order).isExcluded tolerance e = false →
      (replicate points order).isExcluded tolerance f = false →
      ¬ (replicate points order).Reverses tolerance e f) ↔
    order ≤ 2 ∨ tolerance ≤ 0 := by
  constructor
  · intro h
    by_contra hnot
    simp only [not_or, not_le] at hnot
    obtain ⟨hthree, htol⟩ := hnot
    obtain ⟨p, q, r, k, hr, hk, hrk, hsurvive⟩ :
        ∃ (p q : Vec3 ℝ) (r k : Nat), r < order ∧ k < order ∧ r ≠ k ∧ Survive order tolerance p q r k := by
      rcases Nat.even_or_odd' order with ⟨k, rfl | rfl⟩
      · have hsin := sin_angle_one_pos (k := k) (by omega)
        exact ⟨_, _, 1, k + 1, by omega, by omega, by omega,
          survive_diameter (by omega) htol (div_mul_cancel₀ _ hsin.ne').ge⟩
      · obtain ⟨p, q, hsurvive⟩ := exists_survive_odd (k := k) (by omega) htol
        exact ⟨p, q, k, k + 1, by omega, by omega, by omega, hsurvive⟩
    obtain ⟨hleft, hleft', hreverses⟩ := hsurvive.spec hr hk ho
    refine h #[p, q] (copyStart r) (copyStart k) (copyStart_index_lt hr ho _ _)
      (copyStart_index_lt hk ho _ _) ?_ ?_ hleft hleft' hreverses
    · rw [source_copyStart hr ho, source_copyStart hk ho]
    · rw [copyOf_copyStart hr ho, copyOf_copyStart hk ho]
      exact hrk
  · rintro (htwo | htol) points e f he hf hsource hcopy hex hfx hreverses
    · -- one of the two is the given segment, and the other one was compared with it
      have hlte : (replicate points order).copyOf e < max order 1 := copyOf_lt he
      have hltf : (replicate points order).copyOf f < max order 1 := copyOf_lt hf
      by_cases hzero : (replicate points order).copyOf e = 0
      · rw [isExcluded_of_reverses he hf hsource hzero (by omega) hreverses] at hfx
        cases hfx
      · rw [isExcluded_of_reverses hf he hsource.symm (by omega) hzero hreverses.symm] at hex
        cases hex
    · rw [Reverses, Vec3.near_eq_false htol] at hreverses
      cases hreverses.1

/-- The half turn of a quarter of a circle is left, and does not run over it. -/
theorem not_reverses_quarter : (replicate quarter 2).isExcluded 1 (copyStart 1) = false ∧
    ¬ (replicate quarter 2).Reverses 1 (copyStart 0) (copyStart 1) := by
  have ho : 2 ≤ Settings.greatestSymmetry := by decide
  have hzero : 0 < 2 := by decide
  have hone : 1 < 2 := by decide
  have hne : (⟨1, 0, 0⟩ : Vec3 ℝ) ≠ ⟨0, 1, 0⟩ := fun h => one_ne_zero (congrArg Vec3.x h)
  have hex : (replicate quarter 2).isExcluded 1 (copyStart 1) = false := by
    rw [← Bool.not_eq_true, quarter, isExcluded_copyStart hone ho, angle_half Nat.one_pos rfl,
      Vec3.turned_pi, Vec3.near_iff]
    norm_num [hne]
  refine ⟨hex, (not_reverses_iff 2 1 ho).2 (.inl (Nat.le_refl 2)) quarter (copyStart 0) (copyStart 1)
    (copyStart_index_lt hzero ho _ _) (copyStart_index_lt hone ho _ _) ?_ ?_ ?_ hex⟩
  · rw [quarter, source_copyStart hzero ho, source_copyStart hone ho]
  · rw [quarter, copyOf_copyStart hzero ho, copyOf_copyStart hone ho]
    exact Nat.zero_ne_one
  · rw [← Bool.not_eq_true, quarter, isExcluded_copyStart hzero ho]
    simp [hne]

/-- Two of the four copies of a diameter are left, and they run over one another. -/
theorem reverses_diameter_four :
    (replicate diameter 4).isExcluded Tolerances.standard.matching (copyStart 1) = false ∧
      (replicate diameter 4).isExcluded Tolerances.standard.matching (copyStart 3) = false ∧
      (replicate diameter 4).Reverses Tolerances.standard.matching (copyStart 1) (copyStart 3) := by
  obtain ⟨hpos, hone⟩ := Tolerances.standard_matching
  have hsin : Real.sin (angle (2 * 2) 1) = 1 := by
    have hy := congrArg Vec3.y (turned_angle_four_one ⟨1, 0, 0⟩)
    simpa [Vec3.turned_eq] using hy
  have ha : Tolerances.standard.matching ≤ 1 * Real.sin (angle (2 * 2) 1) := by
    rw [hsin, one_mul]
    exact hone.le
  exact (survive_diameter (Nat.le_refl 2) hpos ha).spec (by decide) (by decide) (by decide)

end Segments

end DoubleCurve
