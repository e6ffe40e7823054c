import DoubleCurve.Proofs.Matching.Build

/-!
# Rotated copies

The endpoints of a copy are those of its source, turned (`Segments.point_replicate`),
and the ends of a segment have their sources and their copy in common. Two segments
run over one another backwards if each starts where the other one ends
(`Segments.Reverses`). Of the given segment and a copy that runs over it backwards the
copy is kept out of matching, whatever the scalars: `Segments.isExcluded_of_reverses`.
-/

namespace DoubleCurve

namespace Segments

/-! ## Copies and sources -/

variable {α : Type} {s : Segments α} {e f : Endpoint}

theorem index_source (hb : s.baseSize ≠ 0) (e : Endpoint) :
    (s.source e).index = e.index % s.baseSize := by
  have hle := Nat.mod_le e.index s.baseSize
  have hlt := e.index_lt
  rw [source, if_neg hb, Endpoint.index_ofIndex (by omega)]

theorem source_twin (s : Segments α) (e : Endpoint) : s.source e.twin = (s.source e).twin := by
  by_cases hb : s.baseSize = 0
  · simp [source, hb]
  · have heven := s.baseSize_even
    have hpos := Nat.mod_lt e.index (Nat.pos_of_ne_zero hb)
    have hparity : e.index % s.baseSize % 2 = e.index % 2 :=
      Nat.mod_mod_of_dvd _ (Nat.dvd_of_mod_eq_zero heven)
    apply Endpoint.ext
    rw [index_source hb, Endpoint.index_twin, Endpoint.index_twin, index_source hb, hparity]
    split
    · rw [Nat.add_mod, Nat.mod_eq_of_lt (a := 1) (by omega), Nat.mod_eq_of_lt (by omega)]
    · have hdiv := Nat.div_add_mod e.index s.baseSize
      rw [show e.index - 1 = s.baseSize * (e.index / s.baseSize) + (e.index % s.baseSize - 1) by omega,
        Nat.mul_add_mod, Nat.mod_eq_of_lt (by omega)]

theorem copyOf_twin (s : Segments α) (e : Endpoint) : s.copyOf e.twin = s.copyOf e := by
  by_cases hb : s.baseSize = 0
  · simp [copyOf, hb]
  · obtain ⟨k, hk⟩ := Nat.dvd_of_mod_eq_zero s.baseSize_even
    have hhalf : e.twin.index / 2 = e.index / 2 := by
      rw [Endpoint.index_twin]
      split <;> omega
    rw [copyOf, copyOf, if_neg hb, if_neg hb, hk, ← Nat.div_div_eq_div_mul, hhalf,
      Nat.div_div_eq_div_mul]

theorem start_eq_or (e : Endpoint) : start e = e ∨ start e = e.twin := by
  rw [start]
  split
  · exact .inl rfl
  · exact .inr rfl

theorem copyOf_start (s : Segments α) (e : Endpoint) : s.copyOf (start e) = s.copyOf e := by
  rcases start_eq_or e with h | h <;> rw [h]
  exact s.copyOf_twin e

theorem start_source (s : Segments α) (e : Endpoint) : start (s.source e) = s.source (start e) := by
  have hstart : (s.source e).isStart = e.isStart := by
    by_cases hb : s.baseSize = 0
    · simp [source, hb]
    · rw [Endpoint.isStart, Endpoint.isStart, index_source hb,
        Nat.mod_mod_of_dvd _ (Nat.dvd_of_mod_eq_zero s.baseSize_even)]
  rw [start, start, hstart]
  split
  · rfl
  · rw [source_twin]

theorem baseSize_pos (he : e.index < s.size) : 0 < s.baseSize := by
  by_contra hzero
  rw [size, s.size_points, Nat.eq_zero_of_not_pos hzero, Nat.zero_mul] at he
  omega

theorem copyOf_lt (he : e.index < s.size) : s.copyOf e < s.order := by
  have hpos := baseSize_pos he
  rw [copyOf, if_neg (Nat.ne_of_gt hpos), Nat.div_lt_iff_lt_mul hpos, Nat.mul_comm, ← s.size_points]
  exact he

theorem copyOf_eq_zero_iff (he : e.index < s.size) : s.copyOf e = 0 ↔ e.index < s.baseSize := by
  have hpos := baseSize_pos he
  rw [copyOf, if_neg (Nat.ne_of_gt hpos), Nat.div_eq_zero_iff]
  omega

theorem source_of_copyOf_eq_zero (he : e.index < s.size) (h : s.copyOf e = 0) : s.source e = e := by
  apply Endpoint.ext
  rw [index_source (Nat.ne_of_gt (baseSize_pos he)),
    Nat.mod_eq_of_lt ((copyOf_eq_zero_iff he).1 h)]

theorem even_size (s : Segments α) : s.size % 2 = 0 := by
  rw [size, s.size_points, Nat.mul_mod, s.baseSize_even, Nat.zero_mul, Nat.zero_mod]

theorem twin_index_lt (he : e.index < s.size) : e.twin.index < s.size := by
  have heven := s.even_size
  rw [Endpoint.index_twin]
  split <;> omega

theorem start_index_lt (he : e.index < s.size) : (start e).index < s.size := by
  rcases start_eq_or e with h | h <;> rw [h]
  · exact he
  · exact twin_index_lt he

variable [Scalar α]

/-- The point `p` of copy `r`. -/
def copyPoint (order r : Nat) (p : Vec3 α) : Vec3 α :=
  if r = 0 then p
  else p.rotateZ (Scalar.cos (copyAngle (α := α) order r)) (Scalar.sin (copyAngle (α := α) order r))

theorem copy_eq_map (base : Array (Vec3 α)) (order r : Nat) :
    copy base order r = base.map (copyPoint order r) := by
  unfold copy copyPoint
  split
  · exact (Array.map_id' base).symm
  · rfl

/-- Where the points of a copy are among those of all copies. -/
theorem getD_copies {base : Array (Vec3 α)} (order : Nat) {n r i : Nat} (hr : r < n) (hi : i < base.size) :
    (copies base order n).getD (base.size * r + i) .zero = copyPoint order r (base.getD i .zero) := by
  induction n with
  | zero => omega
  | succ n ih =>
    have hsize := size_copies base order n
    rw [Array.getD_eq_getD_getElem?] at ih ⊢
    rcases Nat.lt_succ_iff_lt_or_eq.1 hr with hlt | rfl
    · have hle := Nat.mul_le_mul_left base.size (Nat.succ_le_of_lt hlt)
      rw [Nat.mul_succ] at hle
      rw [copies, Array.getElem?_append_left (by omega)]
      exact ih hlt
    · rw [copies, Array.getElem?_append_right (by omega), hsize, Nat.add_sub_cancel_left, copy_eq_map,
        Array.getElem?_map, Array.getD_eq_getD_getElem?, Array.getElem?_eq_getElem hi]
      rfl

variable {points : Array (Vec3 α)} {order : Nat} {tolerance : α}

/-- The endpoints of a copy are those of its source, turned. -/
theorem point_replicate (he : e.index < (replicate points order).size) :
    (replicate points order).point e =
      copyPoint (replicate points order).order ((replicate points order).copyOf e)
        ((replicate points order).point ((replicate points order).source e)) := by
  have hpoints : (replicate points order).points =
      copies (points.take (evenPart points.size)) (replicate points order).order
        (replicate points order).order := rfl
  have hbase : (points.take (evenPart points.size)).size = (replicate points order).baseSize := by
    show _ = evenPart points.size
    simp only [Array.take_eq_extract, Array.size_extract, evenPart]
    omega
  generalize points.take (evenPart points.size) = base at hpoints hbase
  generalize replicate points order = s at he hpoints hbase
  have hpos := baseSize_pos he
  have hlt := copyOf_lt he
  have hcopy : s.copyOf e = e.index / s.baseSize := by
    rw [copyOf, if_neg (Nat.ne_of_gt hpos)]
  have hrest : e.index % s.baseSize < base.size := by
    rw [hbase]
    exact Nat.mod_lt _ hpos
  rw [hcopy] at hlt
  have hself := getD_copies s.order hlt hrest
  have hsource := getD_copies s.order (Nat.zero_lt_of_lt hlt) hrest
  rw [hbase, Nat.div_add_mod] at hself
  rw [Nat.mul_zero, Nat.zero_add, copyPoint, if_pos rfl] at hsource
  rw [point, point, index_source (Nat.ne_of_gt hpos), hpoints, hcopy, hself, hsource]

/-! ## Segments that run over one another -/

/-- Whether the segments of `e` and `f` run over one another backwards: each of them starts where
the other one ends. -/
def Reverses (s : Segments α) (tolerance : α) (e f : Endpoint) : Prop :=
  (s.point (start e)).near tolerance (s.point (start f).twin) = true ∧
    (s.point (start f)).near tolerance (s.point (start e).twin) = true

theorem Reverses.symm (h : s.Reverses tolerance e f) : s.Reverses tolerance f e := ⟨h.2, h.1⟩

theorem isExcluded_iff : s.isExcluded tolerance e = true ↔
    s.isDegenerate e = true ∨ s.baseSize ≤ (start e).index ∧
      (s.point (start e)).near tolerance (s.point (s.source (start e)).twin) = true := by
  rw [isExcluded, Bool.or_eq_true, isSelfImage, Bool.and_eq_true, decide_eq_true_iff]

/-- The given segment and a copy that runs over it backwards: the copy is kept out. -/
theorem isExcluded_of_reverses (he : e.index < s.size) (hf : f.index < s.size)
    (hsource : (s.source e).segment = (s.source f).segment) (hcopy : s.copyOf e = 0)
    (hne : s.copyOf f ≠ 0) (h : s.Reverses tolerance e f) : s.isExcluded tolerance f = true := by
  have hstart : s.source (start f) = start e := by
    rw [← start_source, ← source_of_copyOf_eq_zero he hcopy]
    rcases Endpoint.segment_eq_iff.1 hsource with hef | hef
    · rw [hef]
    · rw [hef, start_twin]
  refine isExcluded_iff.2 (.inr ⟨?_, ?_⟩)
  · rw [← s.copyOf_start, Ne, copyOf_eq_zero_iff (start_index_lt hf)] at hne
    exact Nat.le_of_not_lt hne
  · rw [hstart]
    exact h.2

end Segments

end DoubleCurve
