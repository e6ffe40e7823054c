import DoubleCurve.Vec3

/-!
# Laws of scalars

`Scalar` asks for operations only. `LawfulScalar` adds what rounding does not
spoil: a scalar is as far from one that equals it as from itself, and differences
the other way around have the same absolute value and the same square.
`LawfulDigits` adds what cutting off to digits keeps of equality. Double precision
numbers are lawful in both ways, although zeros that differ in sign are equal and
what is not a number does not equal itself: rounding, packing and squaring treat
numbers alike that differ only in sign.

It follows that matching does not depend on the order of two points
(`Vec3.near_comm`), nor does their distance (`Vec3.distance_comm`), and that a
point which matches itself matches every point it equals (`Vec3.near_of_beq`).
-/

namespace DoubleCurve

/-- What is left of the laws of arithmetic when results are rounded. -/
class LawfulScalar (α : Type) [Scalar α] : Prop where
  abs_sub_of_beq {a b : α} : (a == b) = true → Scalar.abs (a - b) = Scalar.abs (a - a)
  abs_sub_comm (a b : α) : Scalar.abs (a - b) = Scalar.abs (b - a)
  sub_mul_sub_comm (a b : α) : (a - b) * (a - b) = (b - a) * (b - a)

/-- What grouping by position needs beyond that: equality is transitive, and equal scalars are cut
off to the same digit, whatever they are scaled by. -/
class LawfulDigits (α : Type) [Scalar α] : Prop extends LawfulScalar α where
  beq_trans {a b c : α} : (a == b) = true → (b == c) = true → (a == c) = true
  toInt32_mul_of_beq {a b : α} (scale : α) : (a == b) = true →
    Scalar.toInt32 (a * scale) = Scalar.toInt32 (b * scale)

/-! ## Double precision -/

namespace Unpacked

open Float.Model (Format UnpackedFloat)
open Float.Model.UnpackedFloat (Sign)

variable {spec : Format} {u v : UnpackedFloat}

theorem eq_of_compare_finite {m m' : Nat} {e e' : Int}
    (h : (compare e e').then (compare m m') = .eq) : e = e' ∧ m = m' := by
  rw [Ordering.then_eq_eq, Int.compare_eq_eq, Nat.compare_eq_eq] at h
  exact h

/-- Numbers that compare equal are the same or zeros. -/
theorem eq_or_zero_of_compare (h : u.compare v = some .eq) :
    u = v ∨ ∃ s s', u = .zero s ∧ v = .zero s' := by
  cases u with
  | notANumber => cases v <;> cases h
  | infinity s =>
    cases v with
    | infinity s' => cases s <;> cases s' <;> first | exact .inl rfl | cases h
    | notANumber => cases h
    | zero s' => cases s <;> cases h
    | finite s' m' e' hm' => cases s <;> cases h
  | zero s =>
    cases v with
    | zero s' => exact .inr ⟨s, s', rfl, rfl⟩
    | notANumber => cases h
    | infinity s' => cases s' <;> cases h
    | finite s' m' e' hm' => cases s' <;> cases h
  | finite s m e hm =>
    cases v with
    | notANumber => cases s <;> cases h
    | infinity s' => cases s <;> cases s' <;> cases h
    | zero s' => cases s <;> cases h
    | finite s' m' e' hm' =>
      cases s <;> cases s'
      case negative.positive => cases h
      case positive.negative => cases h
      case positive.positive =>
        obtain ⟨rfl, rfl⟩ := eq_of_compare_finite (Option.some.inj h)
        exact .inl rfl
      case negative.negative =>
        have hswap : ((compare e e').then (compare m m')).swap = .eq := Option.some.inj h
        obtain ⟨rfl, rfl⟩ := eq_of_compare_finite (Ordering.swap_eq_eq.1 hswap)
        exact .inl rfl

theorem compare_trans {w : UnpackedFloat} (huv : u.compare v = some .eq)
    (hvw : v.compare w = some .eq) : u.compare w = some .eq := by
  rcases eq_or_zero_of_compare huv with rfl | ⟨s, s', rfl, rfl⟩
  · exact hvw
  · rcases eq_or_zero_of_compare hvw with rfl | ⟨s', s'', -, rfl⟩
    · exact huv
    · rfl

/-- The sign of a number is left as it is when the number is rounded. -/
theorem exists_round (m : Nat) (e : Int) : ∃ (m' : Nat) (e' : Int), ∀ s,
    UnpackedFloat.round spec s m e =
      if h : m' = 0 then .zero s else .finite s m' e' (Nat.pos_of_ne_zero h) :=
  ⟨_, _, fun _ => rfl⟩

/-- Rounding treats numbers alike that differ only in sign. -/
theorem abs_round (s s' : Sign) (m : Nat) (e : Int) :
    (UnpackedFloat.round spec s m e).abs = (UnpackedFloat.round spec s' m e).abs := by
  obtain ⟨m', e', hround⟩ := @exists_round spec m e
  rw [hround, hround]
  by_cases hzero : m' = 0
  · rw [dif_pos hzero, dif_pos hzero]
    rfl
  · rw [dif_neg hzero, dif_neg hzero]
    rfl

theorem abs_normalize_neg (m : Int) (e : Int) (s : Sign) :
    (UnpackedFloat.normalize spec (-m) e s).abs = (UnpackedFloat.normalize spec m e s).abs := by
  unfold UnpackedFloat.normalize
  rcases Int.lt_trichotomy m 0 with hm | rfl | hm
  · rw [Int.compare_eq_lt.2 hm, Int.compare_eq_gt.2 (by omega)]
    exact abs_round ..
  · rfl
  · rw [Int.compare_eq_gt.2 hm, Int.compare_eq_lt.2 (by omega)]
    dsimp only
    rw [Int.neg_neg]
    exact abs_round ..

/-- A difference the other way around differs only in sign. -/
theorem abs_sub_comm (u v : UnpackedFloat) : (u.sub spec v).abs = (v.sub spec u).abs := by
  cases u with
  | notANumber => cases v <;> rfl
  | infinity s =>
    cases v with
    | infinity s' => cases s <;> cases s' <;> rfl
    | notANumber => rfl
    | zero s' => rfl
    | finite s' m' e' h' => rfl
  | zero s =>
    cases v with
    | zero s' => cases s <;> cases s' <;> rfl
    | notANumber => rfl
    | infinity s' => rfl
    | finite s' m' e' h' => rfl
  | finite s m e h =>
    cases v with
    | notANumber => rfl
    | infinity s' => rfl
    | zero s' => rfl
    | finite s' m' e' h' =>
      unfold UnpackedFloat.sub
      dsimp only
      rw [Int.min_comm e' e, ← Int.neg_sub]
      exact abs_normalize_neg ..

theorem finite_congr {s : Sign} {m m' : Nat} {e : Int} {h : 0 < m} {h' : 0 < m'} (hm : m = m') :
    UnpackedFloat.finite s m e h = .finite s m' e h' := by
  subst hm
  rfl

/-- Bit patterns that differ only in sign are unpacked to numbers that do. -/
theorem abs_unpack_congr {b b' : BitVec spec.numBits}
    (hm : UnpackedFloat.unpackMantissa b = UnpackedFloat.unpackMantissa b')
    (he : UnpackedFloat.unpackExponent b = UnpackedFloat.unpackExponent b') :
    (UnpackedFloat.unpack spec b).abs = (UnpackedFloat.unpack spec b').abs := by
  unfold UnpackedFloat.unpack
  dsimp only
  rw [← he]
  by_cases hinfinite : UnpackedFloat.unpackExponent b = -1#_
  · rw [if_pos hinfinite, if_pos hinfinite, ← hm]
    split <;> rfl
  · rw [if_neg hinfinite, if_neg hinfinite]
    by_cases hsmall : UnpackedFloat.unpackExponent b = 0#_
    · rw [if_pos hsmall, if_pos hsmall]
      by_cases hzero : UnpackedFloat.unpackMantissa b = 0#_
      · rw [dif_pos hzero, dif_pos (hm ▸ hzero)]
        rfl
      · rw [dif_neg hzero, dif_neg (hm ▸ hzero)]
        exact finite_congr (congrArg BitVec.toNat hm)
    · rw [if_neg hsmall, if_neg hsmall]
      exact finite_congr (congrArg (fun x => (1#1 ++ x).toNat) hm)

theorem abs_unpack_packComponents (s : Sign) (e : BitVec spec.exponentBits)
    (m : BitVec spec.mantissaBitsWithoutImplicit) :
    (UnpackedFloat.unpack spec (UnpackedFloat.packComponents spec s e m)).abs =
      (UnpackedFloat.unpack spec (UnpackedFloat.packComponents spec .positive e m)).abs := by
  refine abs_unpack_congr ?_ ?_
  · rw [UnpackedFloat.unpackMantissa_packComponents, UnpackedFloat.unpackMantissa_packComponents]
  · rw [UnpackedFloat.unpackExponent_packComponents, UnpackedFloat.unpackExponent_packComponents]

/-- The sign of a finite number goes into one bit, and nowhere else. -/
theorem exists_pack_finite (m : Nat) (e : Int) (h : 0 < m) :
    ∃ (e' : BitVec spec.exponentBits) (m' : BitVec spec.mantissaBitsWithoutImplicit),
      ∀ s, UnpackedFloat.pack spec (.finite s m e h) = UnpackedFloat.packComponents spec s e' m' := by
  unfold UnpackedFloat.pack
  dsimp only
  split
  · exact ⟨_, _, fun _ => rfl⟩
  · split
    · exact ⟨_, _, fun _ => rfl⟩
    · exact ⟨_, _, fun _ => rfl⟩

/-- Packing treats numbers alike that differ only in sign. -/
theorem abs_unpack_pack (u : UnpackedFloat) :
    (UnpackedFloat.unpack spec (u.pack spec)).abs =
      (UnpackedFloat.unpack spec (u.abs.pack spec)).abs := by
  cases u with
  | notANumber => rfl
  | infinity s => exact abs_unpack_packComponents ..
  | zero s => exact abs_unpack_packComponents ..
  | finite s m e h =>
    obtain ⟨e', m', hpack⟩ := @exists_pack_finite spec m e h
    show (UnpackedFloat.unpack spec (UnpackedFloat.pack spec (.finite s m e h))).abs =
      (UnpackedFloat.unpack spec (UnpackedFloat.pack spec (.finite .positive m e h))).abs
    rw [hpack, hpack]
    exact abs_unpack_packComponents ..

theorem mul_self_abs (u : UnpackedFloat) : u.mul spec u = u.abs.mul spec u.abs := by
  cases u with
  | notANumber => rfl
  | infinity s => cases s <;> rfl
  | zero s => cases s <;> rfl
  | finite s m e h => cases s <;> rfl

theorem abs_unpack_sub_comm (a b : Float) :
    (a - b).toModel.unpack.abs = (b - a).toModel.unpack.abs := by
  have hsub (a b : Float) : (a - b).toModel.unpack.abs = (UnpackedFloat.unpack .binary64
      ((a.toModel.unpack.sub .binary64 b.toModel.unpack).abs.pack .binary64)).abs :=
    abs_unpack_pack _
  rw [hsub, hsub, abs_sub_comm]

theorem abs_sub_zero (s s' : Sign) :
    Float.abs (.ofModel (.pack (UnpackedFloat.sub .binary64 (.zero s) (.zero s')))) = 0 := by
  cases s <;> cases s' <;> rfl

/-- The product of a zero is a zero or not a number. -/
theorem zero_mul_cases (s : Sign) (u : UnpackedFloat) :
    UnpackedFloat.mul spec (.zero s) u = .notANumber ∨
      ∃ s', UnpackedFloat.mul spec (.zero s) u = .zero s' := by
  cases u with
  | notANumber => exact .inl rfl
  | infinity s' => exact .inl rfl
  | zero s' => exact .inr ⟨_, rfl⟩
  | finite s' m e h => exact .inr ⟨_, rfl⟩

theorem toInt32_zero_mul (s : Sign) (u : UnpackedFloat) :
    (Float.Model.pack (UnpackedFloat.mul .binary64 (.zero s) u)).toInt32 = 0 := by
  rcases @zero_mul_cases .binary64 s u with hmul | ⟨s', hmul⟩
  · rw [hmul]
    decide +kernel
  · rw [hmul]
    cases s' <;> decide +kernel

end Unpacked

instance : LawfulScalar Float where
  abs_sub_of_beq {a b} h := by
    have hcompare : a.toModel.unpack.compare b.toModel.unpack = some .eq := beq_iff_eq.1 h
    show Float.abs (.ofModel (.pack (.sub .binary64 a.toModel.unpack b.toModel.unpack))) =
      Float.abs (.ofModel (.pack (.sub .binary64 a.toModel.unpack a.toModel.unpack)))
    rcases Unpacked.eq_or_zero_of_compare hcompare with hab | ⟨s, s', ha, hb⟩
    · rw [hab]
    · rw [ha, hb, Unpacked.abs_sub_zero, Unpacked.abs_sub_zero]
  abs_sub_comm a b := by
    show Float.ofModel (.pack (a - b).toModel.unpack.abs) = Float.ofModel (.pack (b - a).toModel.unpack.abs)
    rw [Unpacked.abs_unpack_sub_comm]
  sub_mul_sub_comm a b := by
    show Float.ofModel (.pack (.mul .binary64 (a - b).toModel.unpack (a - b).toModel.unpack)) =
      Float.ofModel (.pack (.mul .binary64 (b - a).toModel.unpack (b - a).toModel.unpack))
    rw [Unpacked.mul_self_abs, Unpacked.abs_unpack_sub_comm, ← Unpacked.mul_self_abs]

instance : LawfulDigits Float where
  beq_trans {a b c} hab hbc := by
    show (a.toModel.unpack.compare c.toModel.unpack == some .eq) = true
    exact beq_iff_eq.2 (Unpacked.compare_trans (beq_iff_eq.1 hab) (beq_iff_eq.1 hbc))
  toInt32_mul_of_beq {a b} scale h := by
    have hcompare : a.toModel.unpack.compare b.toModel.unpack = some .eq := beq_iff_eq.1 h
    show (Float.Model.pack (.mul .binary64 a.toModel.unpack scale.toModel.unpack)).toInt32 =
      (Float.Model.pack (.mul .binary64 b.toModel.unpack scale.toModel.unpack)).toInt32
    rcases Unpacked.eq_or_zero_of_compare hcompare with hab | ⟨s, s', ha, hb⟩
    · rw [hab]
    · rw [ha, hb, Unpacked.toInt32_zero_mul, Unpacked.toInt32_zero_mul]

namespace Vec3

variable {α : Type} [Scalar α] {p q : Vec3 α} {tolerance : α}

theorem beq_iff : (p == q) = true ↔ (p.x == q.x) = true ∧ (p.y == q.y) = true ∧ (p.z == q.z) = true := by
  show (p.x == q.x && (p.y == q.y && p.z == q.z)) = true ↔ _
  rw [Bool.and_eq_true, Bool.and_eq_true]

theorem beq_trans [LawfulDigits α] {r : Vec3 α} (hpq : (p == q) = true) (hqr : (q == r) = true) :
    (p == r) = true := by
  obtain ⟨hx, hy, hz⟩ := beq_iff.1 hpq
  obtain ⟨hx', hy', hz'⟩ := beq_iff.1 hqr
  exact beq_iff.2 ⟨LawfulDigits.beq_trans hx hx', LawfulDigits.beq_trans hy hy',
    LawfulDigits.beq_trans hz hz'⟩

variable [LawfulScalar α]

/-- A point that matches itself matches every point it equals. -/
theorem near_of_beq (h : (p == q) = true) (hp : p.near tolerance p = true) :
    p.near tolerance q = true := by
  obtain ⟨hx, hy, hz⟩ := beq_iff.1 h
  rw [near, LawfulScalar.abs_sub_of_beq hx, LawfulScalar.abs_sub_of_beq hy,
    LawfulScalar.abs_sub_of_beq hz]
  exact hp

theorem near_comm (tolerance : α) (p q : Vec3 α) : p.near tolerance q = q.near tolerance p := by
  rw [near, LawfulScalar.abs_sub_comm p.x, LawfulScalar.abs_sub_comm p.y, LawfulScalar.abs_sub_comm p.z,
    near]

theorem distance_comm (p q : Vec3 α) : p.distance q = q.distance p := by
  show Scalar.sqrt ((p.x - q.x) * (p.x - q.x) + (p.y - q.y) * (p.y - q.y) +
    (p.z - q.z) * (p.z - q.z)) = _
  rw [LawfulScalar.sub_mul_sub_comm p.x, LawfulScalar.sub_mul_sub_comm p.y,
    LawfulScalar.sub_mul_sub_comm p.z]
  rfl

end Vec3

end DoubleCurve
