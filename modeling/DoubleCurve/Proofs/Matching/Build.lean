import DoubleCurve.Proofs.Matching.Steps

/-!
# Every matching is regular

`Matching.build` refuses bad settings and too many endpoints and nothing else
(`build_eq_ok`). What it makes is regular (`IsRegular`): it is consistent, no
endpoint is linked to itself, everything that links and junctions name exists and
takes part in matching, and a junction has at least three members, none of them
twice. Links and junctions agree after every single step on the way
(`exists_build_regular`).
-/

namespace DoubleCurve

namespace Segments

variable {α : Type} [Scalar α]

theorem size_replicate (points : Array (Vec3 α)) {order : Nat} (h : 0 < order) :
    (replicate points order).size = evenPart points.size * order := by
  have := (replicate points order).size_points
  rw [size, this]
  show evenPart points.size * max order 1 = _
  rw [Nat.max_eq_left h]

theorem size_replicate_lt (points : Array (Vec3 α)) {order : Nat} (h : 0 < order)
    (hs : evenPart points.size * order ≤ greatestSize) :
    (replicate points order).size < 0x100000000 := by
  rw [size_replicate points h]
  exact Nat.lt_of_le_of_lt hs (by decide)

theorem even_size_replicate (points : Array (Vec3 α)) {order : Nat} (h : 0 < order) :
    (replicate points order).size % 2 = 0 := by
  have heven : evenPart points.size % 2 = 0 := by
    unfold evenPart
    omega
  rw [size_replicate points h, Nat.mul_mod, heven, Nat.zero_mul, Nat.zero_mod]

theorem start_twin (e : Endpoint) : start e.twin = start e := by
  have htwin : e.twin.isStart = !e.isStart := by
    unfold Endpoint.isStart
    rw [Endpoint.index_twin, Bool.eq_iff_iff]
    split <;> simp <;> omega
  unfold start
  rw [htwin]
  cases e.isStart <;> simp

omit [Scalar α] in
theorem length_endpoints (s : Segments α) : s.endpoints.length = s.size := by
  rw [endpoints, List.length_map, List.length_range]

omit [Scalar α] in
theorem mem_endpoints {s : Segments α} (hs : s.size ≤ 0x100000000) {e : Endpoint} :
    e ∈ s.endpoints ↔ e.index < s.size := by
  rw [endpoints, List.mem_map]
  constructor
  · rintro ⟨i, hi, rfl⟩
    rw [List.mem_range] at hi
    rwa [Endpoint.index_ofIndex (by omega)]
  · exact fun he => ⟨e.index, List.mem_range.2 he, Endpoint.ofIndex_index e⟩

omit [Scalar α] in
theorem nodup_endpoints {s : Segments α} (hs : s.size ≤ 0x100000000) : s.endpoints.Nodup := by
  refine List.Nodup.map_on (fun i hi k hk h => ?_) List.nodup_range
  rw [List.mem_range] at hi hk
  have := congrArg Endpoint.index h
  rwa [Endpoint.index_ofIndex (by omega), Endpoint.index_ofIndex (by omega)] at this

end Segments

namespace Settings

variable {α : Type} [Scalar α] {settings : Settings α}

theorem symmetry_pos (h : settings.validate = .ok ()) : 0 < settings.symmetry := by
  rw [validate] at h
  split at h
  · cases h
  · split at h
    · cases h
    · omega

end Settings

namespace Matching

variable {α : Type} [Scalar α] {s : Segments α} {settings : Settings α} {points : Array (Vec3 α)}
  {tolerance : α} {e : Endpoint}

/-! ## What takes part -/

theorem mem_participants :
    e ∈ participants s tolerance ↔ e ∈ s.endpoints ∧ s.isExcluded tolerance e = false := by
  rw [participants, List.mem_filter]
  simp

theorem nodup_participants (hs : s.size ≤ 0x100000000) : (participants s tolerance).Nodup :=
  (Segments.nodup_endpoints hs).filter _

theorem length_participants_le (s : Segments α) (tolerance : α) :
    (participants s tolerance).length ≤ s.size :=
  Nat.le_trans (List.length_filter_le ..) (Nat.le_of_eq s.length_endpoints)

theorem pairwise_participants (hs : s.size ≤ 0x100000000) (tolerance : α) :
    (participants s tolerance).Pairwise fun a b => a.index < b.index := by
  refine List.Pairwise.filter _ ?_
  rw [Segments.endpoints, List.pairwise_map]
  refine List.pairwise_lt_range.imp_of_mem fun hi hk hik => ?_
  rw [List.mem_range] at hi hk
  rwa [Endpoint.index_ofIndex (by omega), Endpoint.index_ofIndex (by omega)]

/-- The entry that tells whether an endpoint is kept out of matching. -/
theorem isExcluded_ofSegments (hs : s.size ≤ 0x100000000) (he : e ∈ s.endpoints) :
    (ofSegments s settings).1.isExcluded e = s.isExcluded settings.matching e := by
  have hlt := (Segments.mem_endpoints hs).1 he
  have hget : s.endpoints[e.index]? = some e := by
    rw [Segments.endpoints, List.getElem?_map, List.getElem?_range hlt, Option.map_some,
      Endpoint.ofIndex_index]
  show (exclusions s settings.matching).getD e.index false = _
  rw [exclusions, Array.getD_eq_getD_getElem?, List.getElem?_toArray, List.getElem?_map, hget,
    Option.map_some, Option.getD_some]

/-! ## What is built -/

/-- Good settings and not too many endpoints are all that building a matching asks for. -/
theorem build_eq_ok (hv : settings.validate = .ok ())
    (hs : Segments.evenPart points.size * settings.symmetry ≤ Segments.greatestSize) :
    build points settings =
      .ok ((ofSegments (.replicate points settings.symmetry) settings).1,
        oddNotice points.size ++ (ofSegments (.replicate points settings.symmetry) settings).2) := by
  rw [build, hv]
  show (if Segments.greatestSize < Segments.evenPart points.size * settings.symmetry then _ else _) = _
  rw [if_neg (Nat.not_lt.2 hs)]
  rfl

/-- A matching in which everything that links and junctions name exists and takes part. -/
structure IsRegular (m : Matching α) : Prop where
  consistent : m.IsConsistent
  ne_self (a : Endpoint) : m.links.get a ≠ .endpoint a
  linked {a b : Endpoint} : m.links.get a = .endpoint b →
    b ∈ m.segments.endpoints ∧ m.isExcluded b = false
  member {a : Endpoint} {j : Junction} : a ∈ m.junctions.members j →
    a ∈ m.segments.endpoints ∧ m.isExcluded a = false
  nodup (j : Junction) : (m.junctions.members j).Nodup
  three_le {j : Junction} : j ∈ m.junctions.all → 3 ≤ m.junctions.fold j

theorem range_participants (tolerance : α) (hs : s.size ≤ 0x100000000) :
    ∀ a ∈ participants s tolerance, a.index < s.size :=
  fun _ ha => (Segments.mem_endpoints hs).1 (mem_participants.1 ha).1

variable (settings)

/-- The bonds that are left when everything is matched agree. -/
theorem sound_ofSegments (hs : s.size < 0x100000000) :
    ∃ b : Bonds, (ofSegments s settings).1.links = b.links ∧
      (ofSegments s settings).1.junctions = b.junctions ∧
      b.Sound s.size (participants s settings.matching) := by
  have hlen := Nat.lt_of_le_of_lt (length_participants_le s settings.matching) hs
  have hrange := range_participants settings.matching (Nat.le_of_lt hs)
  refine ⟨_, rfl, rfl, Matcher.sound_finishAll ?_ hrange hlen (List.Subset.refl _)⟩
  exact Matcher.sound_of_stage hrange hlen (nodup_participants (Nat.le_of_lt hs))
    (.registered _ [] (List.append_nil _).symm)

theorem tied_ofSegments (hs : s.size < 0x100000000) :
    Tied (participants s settings.matching) (ofSegments s settings).1.links
      (ofSegments s settings).1.junctions := by
  obtain ⟨b, hl, hj, hb⟩ := sound_ofSegments settings hs
  exact hl ▸ hj ▸ hb.tied

theorem isRegular_ofSegments (hs : s.size < 0x100000000) : (ofSegments s settings).1.IsRegular := by
  obtain ⟨b, -, hj, hb⟩ := sound_ofSegments settings hs
  have hsize : (ofSegments s settings).1.junctions.size ≤ 0x100000000 := hj ▸ hb.size_junctions
  have ht := tied_ofSegments settings hs
  have hpart {a : Endpoint} (ha : a ∈ participants s settings.matching) :
      a ∈ s.endpoints ∧ (ofSegments s settings).1.isExcluded a = false := by
    obtain ⟨he, hx⟩ := mem_participants.1 ha
    exact ⟨he, by rw [isExcluded_ofSegments (Nat.le_of_lt hs) he, hx]⟩
  exact {
    consistent := isConsistent_of_tied ht hsize fun a ha => (hpart ha).2
    ne_self := ht.ne_self
    linked := fun ha => hpart (ht.mem_of_endpoint ha)
    member := fun ha => hpart (ht.mem_of_member ha)
    nodup := ht.nodup
    three_le := fun hj => ht.three_le ((mem_all hsize).1 hj) }

variable {settings}

/-! ## What a trace starts from -/

/-- A matching as a trace finds it: links and junctions agree, and only endpoints that can be walked
over are linked. -/
structure Traceable (m : Matching α) : Prop where
  size_le : m.segments.size ≤ 0x100000000
  size_excluded : m.excluded.size = m.segments.size
  size_even : m.segments.size % 2 = 0
  excluded_twin (e : Endpoint) : m.isExcluded e.twin = m.isExcluded e
  tied : Tied (m.segments.endpoints.filter fun e => !m.isExcluded e) m.links m.junctions

variable {m : Matching α} {found : Array (Notice α)}

/-- What is built was built of accepted settings and not too many endpoints. -/
theorem of_build_eq_ok (h : build points settings = .ok (m, found)) :
    settings.validate = .ok () ∧
      Segments.evenPart points.size * settings.symmetry ≤ Segments.greatestSize ∧
      m = (ofSegments (.replicate points settings.symmetry) settings).1 := by
  have hv : settings.validate = .ok () := by
    cases hv : settings.validate with
    | error fault =>
      rw [build, hv] at h
      cases h
    | ok => rfl
  by_cases hs : Segments.greatestSize < Segments.evenPart points.size * settings.symmetry
  · rw [build, hv] at h
    change (if Segments.greatestSize < Segments.evenPart points.size * settings.symmetry
      then Except.error _ else _) = _ at h
    rw [if_pos hs] at h
    cases h
  · rw [build_eq_ok hv (Nat.not_lt.1 hs)] at h
    cases h
    exact ⟨hv, Nat.not_lt.1 hs, rfl⟩

theorem size_excluded_ofSegments (s : Segments α) (settings : Settings α) :
    (ofSegments s settings).1.excluded.size = s.size := by
  show (exclusions s settings.matching).size = s.size
  rw [exclusions, List.size_toArray, List.length_map, Segments.length_endpoints]

/-- Whether an endpoint is kept out of matching is a matter of its segment. -/
theorem excluded_twin_ofSegments (hs : s.size ≤ 0x100000000) (heven : s.size % 2 = 0)
    (settings : Settings α) (e : Endpoint) :
    (ofSegments s settings).1.isExcluded e.twin = (ofSegments s settings).1.isExcluded e := by
  have htwin : e.twin.index < s.size ↔ e.index < s.size := by
    rw [Endpoint.index_twin]
    split <;> omega
  by_cases he : e.index < s.size
  · rw [isExcluded_ofSegments hs ((Segments.mem_endpoints hs).2 he),
      isExcluded_ofSegments hs ((Segments.mem_endpoints hs).2 (htwin.2 he)), Segments.isExcluded,
      Segments.isExcluded, Segments.isDegenerate, Segments.isDegenerate, Segments.isSelfImage,
      Segments.isSelfImage, Segments.start_twin]
  · have hout (a : Endpoint) (ha : ¬ a.index < s.size) :
        (ofSegments s settings).1.isExcluded a = false := by
      rw [← size_excluded_ofSegments s settings, Nat.not_lt] at ha
      rw [isExcluded, Array.getD_eq_getD_getElem?, Array.getElem?_eq_none ha, Option.getD_none]
    rw [hout e he, hout e.twin fun ha => he (htwin.1 ha)]

theorem traceable_of_build (h : build points settings = .ok (m, found)) : m.Traceable := by
  obtain ⟨hv, hs, rfl⟩ := of_build_eq_ok h
  have hsize := Segments.size_replicate_lt points (Settings.symmetry_pos hv) hs
  have heven := Segments.even_size_replicate points (Settings.symmetry_pos hv)
  generalize Segments.replicate points settings.symmetry = s at hsize heven
  have hle := Nat.le_of_lt hsize
  refine ⟨hle, size_excluded_ofSegments s settings, heven,
    excluded_twin_ofSegments hle heven settings, ?_⟩
  refine (tied_ofSegments settings hsize).mono fun e he => ?_
  obtain ⟨hmem, hex⟩ := mem_participants.1 he
  refine List.mem_filter.2 ⟨hmem, ?_⟩
  rw [isExcluded_ofSegments hle hmem, hex]
  rfl

/-- Building a matching succeeds and makes a regular one, and links and junctions agree after every
single step on the way. -/
theorem exists_build_regular (points : Array (Vec3 α)) (settings : Settings α)
    (hv : settings.validate = .ok ())
    (hs : Segments.evenPart points.size * settings.symmetry ≤ Segments.greatestSize) :
    ∃ m found, build points settings = .ok (m, found) ∧ m.IsRegular ∧
      ∀ b, Matcher.Stage ⟨m.segments, settings.matching, settings.cellScale⟩
          (.empty m.segments.size settings.slotsPerEndpoint)
          (participants m.segments settings.matching) b →
        Tied (participants m.segments settings.matching) b.links b.junctions := by
  have hsize := Segments.size_replicate_lt points (Settings.symmetry_pos hv) hs
  refine ⟨_, _, build_eq_ok hv hs, isRegular_ofSegments settings hsize, fun b hb => ?_⟩
  exact (Matcher.sound_of_stage (range_participants _ (Nat.le_of_lt hsize))
    (Nat.lt_of_le_of_lt (length_participants_le _ _) hsize)
    (nodup_participants (Nat.le_of_lt hsize)) hb).tied

/-- Three segments that meet in one point, and a fourth that continues one of them. -/
def star : Array (Vec3 Float) :=
  #[⟨0, 0, 0⟩, ⟨1, 0, 0⟩, ⟨0, 0, 0⟩, ⟨0, 1, 0⟩, ⟨0, 0, 0⟩, ⟨-1, 0, 0⟩, ⟨1, 0, 0⟩, ⟨2, 0, 0⟩]

/-- The matching of the star. -/
def starMatching : Matching Float := (ofSegments (.replicate star 1) .standard).1

theorem build_star : ∃ found, build star .standard = .ok (starMatching, found) :=
  ⟨_, build_eq_ok rfl (by decide)⟩

/-- The star is matched with the standard settings. -/
theorem exists_build_regular_star :
    ∃ m found, build star .standard = .ok (m, found) ∧ m.IsRegular := by
  obtain ⟨m, found, hm, hr, -⟩ := exists_build_regular star .standard rfl (by decide)
  exact ⟨m, found, hm, hr⟩

end Matching

end DoubleCurve
