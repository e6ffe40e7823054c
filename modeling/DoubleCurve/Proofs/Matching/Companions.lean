import DoubleCurve.Proofs.Matching.Partners
import Mathlib.Data.List.Perm.Subperm

/-!
# Who shares a junction

The first pass looks an endpoint up from its own cell only, and so it gathers what
matches cell by cell: `Matcher.Tended.companions_of_cell`. The second pass takes up
the endpoints that are still free and ties each to the first match it finds, but
what is tied already in two cells stays apart.

A group of endpoints that match therefore ends in one junction if no two pairs of
it can be tied in different cells, which is `Matcher.Huddled`, and
`Matching.one_junction_of_build` proves it. Four endpoints that match, two in either
of two cells, end as two pairs.
-/

namespace DoubleCurve

/-- If two endpoints are tied together, the first is tied together with either of them. -/
theorem Bonds.Companions.of_mem_pair {b : Bonds} {x x' u : Endpoint} (h : b.Companions x x')
    (hu : u ∈ [x, x']) : b.Companions x u := by
  rcases List.mem_pair.1 hu with rfl | rfl
  · exact .refl b u
  · exact h

namespace Matcher

variable {α : Type} [Scalar α] {m : Matcher α} {b : Bonds} {e x x' y y' : Endpoint}
  {es seen g : List Endpoint} {count : Nat} {c : Cell}

/-! ## One cell -/

/-- Endpoints that match and are in one cell are tied together. -/
theorem Tended.companions_of_cell (h : m.Tended es count seen b) (hm : m.Coherent es)
    (hsub : seen ⊆ es) (hx : x ∈ seen) (hy : y ∈ seen) (hxy : m.Matched es x y)
    (hcell : m.cell x = m.cell y) : b.Companions x y := by
  obtain ⟨i, u, hfoundx, hu, hux⟩ := h.stands hx
  obtain ⟨k, v, hfoundy, hv, hvy⟩ := h.stands hy
  -- the two searches start from one cell and look for the same slots, and so they end at one slot
  have hsame : b.table.probe ((m.cell x).bucket b.table.size) (m.standsFor b y) = .found i := by
    refine CellTable.found_of_kept hfoundx rfl fun n hn => ⟨hn, ?_⟩
    obtain ⟨w, hw⟩ := h.filled n hn
    have hwes : w ∈ es := hsub (h.sound.mem_of_exemplar hw)
    rw [standsFor_of_exemplar hw, standsFor_of_exemplar hw, Bool.eq_iff_iff]
    exact ⟨hm.trans hxy.left hxy.right hwes hxy.matching,
      hm.trans hxy.right hxy.left hwes (hm.matched_symm hxy).matching⟩
  rw [hcell, hfoundy, Probe.found.injEq] at hsame
  subst hsame
  obtain rfl : v = u := Option.some.inj (hv.symm.trans hu)
  exact (hux.symm h.sound.tied).trans hvy h.sound.tied

/-! ## Several cells -/

/-- Whether these are at most three endpoints, or one cell holds all of them but at most one. -/
def Huddled (m : Matcher α) (g : List Endpoint) : Prop :=
  g.length ≤ 3 ∨ ∃ c, (g.filter fun x => m.cell x ≠ c).length ≤ 1

/-- Of two endpoints of a group that one cell holds but for one, that cell holds one. -/
theorem exists_mem_pair_cell (hg : (g.filter fun x => m.cell x ≠ c).length ≤ 1) (hx : x ∈ g)
    (hy : y ∈ g) (hxy : x ≠ y) : ∃ u ∈ [x, y], m.cell u = c := by
  by_contra hout
  have hsub : [x, y] ⊆ g.filter fun x => m.cell x ≠ c := fun u hu => by
    refine List.mem_filter.2 ⟨?_, decide_eq_true fun hcell => hout ⟨u, hu, hcell⟩⟩
    rcases List.mem_pair.1 hu with rfl | rfl
    · exact hx
    · exact hy
  have hle := (List.Nodup.subperm (by simpa using hxy) hsub).length_le
  rw [List.length_cons, List.length_singleton] at hle
  omega

/-- No two pairs of a huddled group are in different cells. -/
theorem Huddled.exists_cell (h : m.Huddled g) (hsub : [x, x', y, y'] ⊆ g)
    (hnodup : [x, x', y, y'].Nodup) : ∃ u ∈ [x, x'], ∃ v ∈ [y, y'], m.cell u = m.cell v := by
  rcases h with hlen | ⟨c, hc⟩
  · have hle := (List.Nodup.subperm hnodup hsub).length_le
    simp only [List.length_cons, List.length_nil] at hle
    omega
  · obtain ⟨u, hu, hcu⟩ := exists_mem_pair_cell hc (x := x) (y := x') (hsub (by simp)) (hsub (by simp))
      fun hxx => by simp [hxx] at hnodup
    obtain ⟨v, hv, hcv⟩ := exists_mem_pair_cell hc (x := y) (y := y') (hsub (by simp)) (hsub (by simp))
      fun hyy => by simp [hyy] at hnodup
    exact ⟨u, hu, v, hv, hcu.trans hcv.symm⟩

/-- The endpoints that match `e`, in order. -/
def group (m : Matcher α) (es : List Endpoint) (e : Endpoint) : List Endpoint := es.filter (m.matching e)

theorem mem_group : x ∈ m.group es e ↔ x ∈ es ∧ m.matching e x = true := List.mem_filter

namespace Coherent

variable (hm : m.Coherent es) (he : e ∈ es)

include hm he

theorem matched_of_mem_group (hx : x ∈ m.group es e) (hy : y ∈ m.group es e) : m.Matched es x y := by
  rw [mem_group] at hx hy
  exact hm.matched_trans (hm.matched_symm ⟨he, hx.1, hx.2⟩) ⟨he, hy.1, hy.2⟩

theorem not_alone_of_mem_group (hnodup : es.Nodup) (hlen : 2 ≤ (m.group es e).length)
    (hx : x ∈ m.group es e) : ¬ m.Alone es x := fun halone => by
  obtain ⟨y, hy⟩ : ∃ y, y ∈ (m.group es e).erase x := by
    apply List.exists_mem_of_length_pos
    rw [List.length_erase_of_mem hx]
    omega
  have hgroup : (m.group es e).Nodup := hnodup.filter _
  rw [hgroup.mem_erase_iff] at hy
  have hxy := hm.matched_of_mem_group he hx hy.2
  have hnot := halone y hxy.right hy.1
  rw [hxy.matching] at hnot
  cases hnot

end Coherent

namespace Tended

/-- Three endpoints or more that are tied together are linked to one junction, and nothing else is. -/
theorem exists_junction (h : m.Tended es count es b) (hlinked : b.links.get e ≠ .unpaired) (hnodup : es.Nodup)
    (hlen : 3 ≤ (m.group es e).length) (hall : ∀ x ∈ m.group es e, b.Companions e x) :
    ∃ j, ∀ x, b.links.get x = .junction j ↔ x ∈ m.group es e := by
  have ht := h.sound.tied
  cases hl : b.links.get e with
  | unpaired => exact absurd hl hlinked
  | endpoint p =>
    -- a pair has no room for a third one
    have hsub : m.group es e ⊆ [e, p] := fun x hx => by
      rw [List.mem_pair]
      refine (hall x hx).imp Eq.symm fun hex => ?_
      rcases hex with hex | ⟨j, hej, -⟩
      · exact Link.endpoint.inj (hex.symm.trans hl)
      · rw [ht.mem_iff, hl] at hej
        cases hej
    have hgroup : (m.group es e).Nodup := hnodup.filter _
    have hle := (List.Nodup.subperm hgroup hsub).length_le
    simp only [List.length_cons, List.length_nil] at hle
    omega
  | junction j =>
    refine ⟨j, fun x => ⟨fun hx => ?_, fun hx => ?_⟩⟩
    · have hex := h.alike e x (.inr ⟨j, ht.mem_iff.2 hl, ht.mem_iff.2 hx⟩)
      exact mem_group.2 ⟨hex.right, hex.matching⟩
    · rcases hall x hx with rfl | hex | ⟨k, hek, hxk⟩
      · exact hl
      · rw [hl] at hex
        cases hex
      · rw [ht.mem_iff, hl, Link.junction.injEq] at hek
        rw [hek, ← ht.mem_iff]
        exact hxk

variable (h : m.Tended es count es b) (hm : m.Coherent es) (he : e ∈ es)

include h hm he

theorem exists_companion (hx : x ∈ m.group es e) (hlinked : b.links.get x ≠ .unpaired) :
    ∃ y ∈ m.group es e, y ≠ x ∧ b.Companions x y := by
  obtain ⟨y, hxy, hne⟩ := Bonds.exists_together h.sound.tied hlinked
  have hmatched := h.alike x y hxy
  have hex := mem_group.1 hx
  have hey := hm.trans he hex.1 hmatched.right hex.2 hmatched.matching
  exact ⟨y, mem_group.2 ⟨hmatched.right, hey⟩, hne, .inr hxy⟩

/-- Where all of a huddled group are linked, they are tied together. -/
theorem companions_of_huddled (hlinked : ∀ x ∈ m.group es e, b.links.get x ≠ .unpaired)
    (hg : m.Huddled (m.group es e)) (hx : x ∈ m.group es e) (hy : y ∈ m.group es e) :
    b.Companions x y := by
  have ht := h.sound.tied
  obtain ⟨x', hx', hxne, hxx⟩ := h.exists_companion hm he hx (hlinked x hx)
  obtain ⟨y', hy', hyne, hyy⟩ := h.exists_companion hm he hy (hlinked y hy)
  by_contra hxy
  -- otherwise the pairs of `x` and of `y` have nothing in common
  have happart {u v : Endpoint} (hu : u ∈ [x, x']) (hv : v ∈ [y, y']) : ¬ b.Companions u v := fun huv => by
    have hxu := hxx.of_mem_pair hu
    have hyv := hyy.of_mem_pair hv
    exact hxy ((hxu.trans huv ht).trans (hyv.symm ht) ht)
  have hne {u v : Endpoint} (hu : u ∈ [x, x']) (hv : v ∈ [y, y']) : u ≠ v := fun huv =>
    happart hu hv (huv ▸ .refl b u)
  have hnodup : [x, x', y, y'].Nodup := by
    refine List.nodup_append.2 ⟨?_, ?_, fun u hu v hv => hne hu hv⟩
    · simpa using hxne.symm
    · simpa using hyne.symm
  have hsub : [x, x', y, y'] ⊆ m.group es e := by
    simp [hx, hx', hy, hy']
  obtain ⟨u, hu, v, hv, hcell⟩ := hg.exists_cell hsub hnodup
  have hug : u ∈ m.group es e := hsub (List.mem_append_left [y, y'] hu)
  have hvg : v ∈ m.group es e := hsub (List.mem_append_right [x, x'] hv)
  have huv := hm.matched_of_mem_group he hug hvg
  exact happart hu hv (h.companions_of_cell hm (List.Subset.refl es) huv.left huv.right huv hcell)

end Tended

end Matcher

namespace Matching

variable {α : Type} [Scalar α]

/-- The endpoints that take part and match `e`, in order. -/
def group (s : Segments α) (settings : Settings α) (e : Endpoint) : List Endpoint :=
  Matcher.group ⟨s, settings.matching, settings.cellScale⟩ (participants s settings.matching) e

/-- Where matching is an equivalence and what matches is in cells that touch, three endpoints or
more that match are linked to one junction, and nothing else is, if there are not more than three of
them or one cell holds all of them but at most one. -/
theorem one_junction_of_build (points : Array (Vec3 α)) (settings : Settings α)
    (hv : settings.validate = .ok ())
    (hs : Segments.evenPart points.size * settings.symmetry ≤ Segments.greatestSize)
    (hm : Matcher.Coherent
      ⟨.replicate points settings.symmetry, settings.matching, settings.cellScale⟩
      (participants (.replicate points settings.symmetry) settings.matching)) :
    ∃ m found, build points settings = .ok (m, found) ∧
      ∀ e ∈ participants m.segments settings.matching,
        3 ≤ (group m.segments settings e).length →
        Matcher.Huddled ⟨m.segments, settings.matching, settings.cellScale⟩
          (group m.segments settings e) →
        ∃ j, ∀ x, m.links.get x = .junction j ↔ x ∈ group m.segments settings e := by
  have hsize := Segments.size_replicate_lt points (Settings.symmetry_pos hv) hs
  refine ⟨_, _, build_eq_ok hv hs, ?_⟩
  generalize Segments.replicate points settings.symmetry = s at hm hsize
  intro e he hlen hhuddled
  obtain ⟨first, last, hlinks, -, -, hfinishes⟩ := finishes_ofSegments hsize hm
  have hnodup : (participants s settings.matching).Nodup := nodup_participants (Nat.le_of_lt hsize)
  have hlinked {x : Endpoint} (hx : x ∈ group s settings e) :
      last.bonds.links.get x ≠ .unpaired := fun hfree =>
    hm.not_alone_of_mem_group he hnodup (Nat.le_of_succ_le hlen) hx
      (hfinishes.alone (Matcher.mem_group.1 hx).1 hfree)
  have heg : e ∈ group s settings e := Matcher.mem_group.2 ⟨he, hm.refl he⟩
  rw [hlinks]
  refine hfinishes.tended.exists_junction (hlinked heg) hnodup hlen fun x hx => ?_
  exact hfinishes.tended.companions_of_huddled hm he (fun u hu => hlinked hu) hhuddled heg hx

/-- Segments from four sides that match at one end, on either side of the limit of a cell. -/
def cross (a b c d : Float) : Array (Vec3 Float) :=
  #[⟨1, 0, 0⟩, ⟨a, 0, 0⟩, ⟨0, 1, 0⟩, ⟨b, 0, 0⟩, ⟨0, -1, 0⟩, ⟨c, 0, 0⟩, ⟨-1, 0, 0⟩, ⟨d, 0, 0⟩]

/-- One end in a cell and three in the next one make a junction. -/
theorem one_junction_of_build_cross :
    ∃ m found, build (cross 0.499995 0.500005 0.500005 0.500005) .standard = .ok (m, found) ∧
      ∃ j, ∀ x, m.links.get x = .junction j ↔ x ∈ [1, 3, 5, 7].map Endpoint.ofIndex := by
  obtain ⟨m, found, hbuild, hall⟩ := one_junction_of_build
    (cross 0.499995 0.500005 0.500005 0.500005) .standard rfl (by decide) (by decide +kernel)
  obtain ⟨-, -, rfl⟩ := of_build_eq_ok hbuild
  have hgroup : group (.replicate (cross 0.499995 0.500005 0.500005 0.500005) 1) .standard
      (.ofIndex 1) = [1, 3, 5, 7].map Endpoint.ofIndex := by
    decide +kernel
  obtain ⟨j, hj⟩ := hall (.ofIndex 1) (by decide +kernel) (by decide +kernel)
    (.inr ⟨⟨5000, 0, 0⟩, by decide +kernel⟩)
  exact ⟨_, found, hbuild, j, fun x => (hj x).trans (by rw [← hgroup]; rfl)⟩

/-- Two ends in a cell and two in the next one match as well, and are left as two pairs. -/
theorem two_pairs_of_build_cross :
    ∃ m found, build (cross 0.499995 0.499995 0.500005 0.500005) .standard = .ok (m, found) ∧
      Matcher.Coherent ⟨m.segments, Settings.standard.matching, Settings.standard.cellScale⟩
        (participants m.segments Settings.standard.matching) ∧
      group m.segments .standard (.ofIndex 1) = [1, 3, 5, 7].map Endpoint.ofIndex ∧
      m.links.get (.ofIndex 1) = .endpoint (.ofIndex 3) ∧
      m.links.get (.ofIndex 3) = .endpoint (.ofIndex 1) ∧
      m.links.get (.ofIndex 5) = .endpoint (.ofIndex 7) ∧
      m.links.get (.ofIndex 7) = .endpoint (.ofIndex 5) := by
  refine ⟨_, _, build_eq_ok rfl (by decide), ?_⟩
  decide +kernel

end Matching

end DoubleCurve
