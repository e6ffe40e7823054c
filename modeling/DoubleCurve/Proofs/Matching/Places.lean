import DoubleCurve.Proofs.LawfulScalar
import DoubleCurve.Proofs.Matching.Grouping

/-!
# Matching without a table

Where different endpoints match exactly if they are at the same point
(`Matcher.TellsPoints`), the cell table only saves time: links and junctions are
those of `tieAll`, which ties every endpoint to all that came before it in its
place and searches nothing (`Matching.tieAll_eq_registered`). So a matching does
not depend on the number of cells or slots, and `Matching.Gathered` tells how the
endpoints at a point are tied (`Matching.gathered_of_build`).
-/

namespace DoubleCurve

theorem Cell.ofPoint_eq_of_beq {α : Type} [Scalar α] [LawfulDigits α] {p q : Vec3 α} (scale : α)
    (h : (p == q) = true) : ofPoint scale p = ofPoint scale q := by
  obtain ⟨hx, hy, hz⟩ := Vec3.beq_iff.1 h
  rw [ofPoint, ofPoint, LawfulDigits.toInt32_mul_of_beq scale hx,
    LawfulDigits.toInt32_mul_of_beq scale hy, LawfulDigits.toInt32_mul_of_beq scale hz]

/-! ## Tying to a place -/

/-- What becomes of links and junctions when `e` is tied to those that came before it in its
place. -/
def tie (l : Links) (js : Junctions) (e : Endpoint) : List Endpoint → Links × Junctions
  | [] => (l, js)
  | [x] => (l.pair e x, js)
  | [x, y] =>
    let (j, js) := js.allocate
    (((l.set y (.junction j)).set x (.junction j)).set e (.junction j), js.add j [e, x, y])
  | x :: _ :: _ :: _ =>
    match l.get x with
    | .junction j => (l.set e (.junction j), js.add j [e])
    | _ => (l, js)

/-- One endpoint more, where `together` tells what is in one place: the endpoints that came before,
and their links and junctions. -/
def tieNext (together : Endpoint → Endpoint → Bool) (s : List Endpoint × Links × Junctions)
    (e : Endpoint) : List Endpoint × Links × Junctions :=
  (s.1 ++ [e], tie s.2.1 s.2.2 e (s.1.filter (together e)))

/-- Links and junctions when some of `count` endpoints are tied one after another. -/
def tieAll (together : Endpoint → Endpoint → Bool) (count : Nat) (es : List Endpoint) :
    Links × Junctions :=
  (es.foldl (tieNext together) ([], .unpaired count, .empty)).2

namespace Bonds

variable {b : Bonds} {e : Endpoint} {g part : List Endpoint} {i : Nat}

/-- Joining the slot of a place ties an endpoint to the place. -/
theorem tie_eq_join (ht : Tied part b.links b.junctions) (hshape : b.Shape g (b.table.get i))
    (hf : b.links.get e = .unpaired) :
    tie b.links b.junctions e g = ((b.join e i).links, (b.join e i).junctions) := by
  generalize hslot : b.table.get i = slot at hshape
  cases hshape with
  | @single x hx =>
    rw [join, hslot]
    dsimp only
    rw [if_pos hx]
    rfl
  | @pair x y hx hy =>
    rw [join, hslot]
    dsimp only
    rw [if_neg (by simp [hx]), gather_pair hslot hx hf]
    rfl
  | @junction x y z rest j hm =>
    have hx : b.links.get x = .junction j := ht.mem_iff.1 (by simp [hm])
    rw [join, hslot]
    dsimp only
    rw [gather_junction hslot hf, tie, hx]

end Bonds

namespace Matcher

variable {α : Type} [Scalar α] {m : Matcher α} {b : Bonds} {e x y : Endpoint}
  {es seen : List Endpoint} {count : Nat}

theorem tie_eq_register (h : m.Grouped count seen b) (hexact : m.Exact (seen ++ [e]))
    (hcount : seen.length ≤ count) (he : e ∉ seen) :
    tie b.links b.junctions e (m.place seen e) =
      ((m.register b e).links, (m.register b e).junctions) := by
  rcases register_cases h hexact hcount he with
    ⟨i, hregister, -, hshape, -⟩ | ⟨i, hregister, -, -, -, hnone⟩
  · rw [hregister]
    exact Bonds.tie_eq_join h.sound.tied hshape (h.sound.unpaired_of_not_mem he)
  · rw [hregister, hnone]
    rfl

theorem tieAll_eq_registerAll (hexact : m.Exact es) (hrange : ∀ a ∈ es, a.index < count)
    (hcount : es.length ≤ count) (hlt : count < 0x100000000) (hnodup : es.Nodup)
    (slotsPerEndpoint : Nat) :
    tieAll m.coincides count es =
      ((m.registerAll (.empty count slotsPerEndpoint) es).links,
        (m.registerAll (.empty count slotsPerEndpoint) es).junctions) := by
  suffices h : m.Grouped count es (m.registerAll (.empty count slotsPerEndpoint) es) ∧
      es.foldl (tieNext m.coincides) ([], .unpaired count, .empty) =
        (es, (m.registerAll (.empty count slotsPerEndpoint) es).links,
          (m.registerAll (.empty count slotsPerEndpoint) es).junctions) from congrArg Prod.snd h.2
  refine registerAll_induction (P := fun seen b => m.Grouped count seen b ∧
    seen.foldl (tieNext m.coincides) ([], .unpaired count, .empty) = (seen, b.links, b.junctions))
    hnodup ⟨grouped_empty m count slotsPerEndpoint, rfl⟩ fun seen e b hes he ⟨hb, htied⟩ => ?_
  refine ⟨hb.step hexact hrange hcount hlt hes he, ?_⟩
  have hlen : seen.length ≤ count := by
    have := Nat.le_trans hes.length_le hcount
    rw [List.length_append] at this
    omega
  rw [List.foldl_append, htied, List.foldl_cons, List.foldl_nil, tieNext]
  exact congrArg (Prod.mk _) (tie_eq_register hb (hexact.mono hes.subset) hlen he)

/-! ## Places are points -/

/-- Whether different ones of these endpoints match exactly if they are at the same point. -/
def TellsPoints (m : Matcher α) (es : List Endpoint) : Prop :=
  ∀ x ∈ es, ∀ y ∈ es, x ≠ y →
    (m.matching x y = true ↔ (m.segments.point x == m.segments.point y) = true)

instance (m : Matcher α) (es : List Endpoint) : Decidable (m.TellsPoints es) :=
  inferInstanceAs (Decidable (∀ x ∈ es, ∀ y ∈ es, _))

namespace TellsPoints

variable (h : m.TellsPoints es)

include h

/-- Endpoints are in one place if they are at the same point. -/
theorem coincides_iff (hx : x ∈ es) (hy : y ∈ es) : m.coincides x y = true ↔
    y = x ∨ (m.segments.point x == m.segments.point y) = true := by
  rw [Matcher.coincides_iff]
  by_cases hyx : y = x
  · exact ⟨fun _ => .inl hyx, fun _ => .inl hyx⟩
  · rw [h x hx y hy (Ne.symm hyx)]

theorem exact [LawfulDigits α] : m.Exact es := by
  have hiff {x y : Endpoint} (hx : x ∈ es) (hy : y ∈ es) := h.coincides_iff hx hy
  refine ⟨fun {x y} hx hy hxy => ?_, fun {x y z} hx hy hz hxy hyz => ?_, fun {x y} hx hy hxy => ?_⟩
  · rw [Matcher.coincides_iff] at hxy ⊢
    refine hxy.imp Eq.symm fun hxy => ?_
    rwa [matching, Vec3.near_comm]
  · rw [hiff hx hz]
    rcases (hiff hx hy).1 hxy with rfl | hxy
    · exact (hiff hy hz).1 hyz
    · rcases (hiff hy hz).1 hyz with rfl | hyz
      · exact .inr hxy
      · exact .inr (Vec3.beq_trans hxy hyz)
  · rcases (hiff hx hy).1 hxy with rfl | hxy
    · rfl
    · exact Cell.ofPoint_eq_of_beq m.cellScale hxy

end TellsPoints

end Matcher

/-- How the endpoints at a point are tied, in order: one is free, two are a pair, and more are the
members of one junction, the third one first. -/
inductive Gathered (l : Links) (js : Junctions) : List Endpoint → Prop
  | alone {e : Endpoint} : l.get e = .unpaired → Gathered l js [e]
  | pair {e f : Endpoint} : l.get e = .endpoint f → l.get f = .endpoint e → Gathered l js [e, f]
  | junction {e f g : Endpoint} {rest : List Endpoint} {j : Junction} :
      js.members j = g :: e :: f :: rest → (∀ x ∈ e :: f :: g :: rest, l.get x = .junction j) →
      Gathered l js (e :: f :: g :: rest)

/-- How many endpoints are at a point tells how each of them is linked. -/
theorem Gathered.cases {l : Links} {js : Junctions} {g : List Endpoint} {a : Endpoint}
    (h : Gathered l js g) (ha : a ∈ g) :
    (g.length = 1 ∧ l.get a = .unpaired) ∨ (g.length = 2 ∧ ∃ b, l.get a = .endpoint b) ∨
      3 ≤ g.length ∧ ∃ j, l.get a = .junction j ∧ (js.members j).length = g.length := by
  cases h with
  | alone he =>
    rw [List.mem_singleton.1 ha]
    exact .inl ⟨rfl, he⟩
  | pair he hf =>
    rcases List.mem_pair.1 ha with rfl | rfl
    · exact .inr (.inl ⟨rfl, _, he⟩)
    · exact .inr (.inl ⟨rfl, _, hf⟩)
  | junction hm hl =>
    refine .inr (.inr ⟨?_, _, hl a ha, ?_⟩)
    · simp
    · rw [hm]
      simp

theorem Bonds.Shape.gathered {b : Bonds} {part g : List Endpoint} {slot : Slot} (h : b.Shape g slot)
    (ht : Tied part b.links b.junctions) : Gathered b.links b.junctions g := by
  cases h with
  | single hx => exact .alone hx
  | pair hx hy => exact .pair hx hy
  | @junction x y z rest j hm =>
    refine .junction hm fun a ha => ht.mem_iff.1 ?_
    rw [hm]
    simp only [List.mem_cons] at ha ⊢
    tauto

namespace Matching

variable {α : Type} [Scalar α] {s : Segments α} {settings settings' : Settings α}

/-- The endpoints that take part and are at the point of `e`, in order. -/
def atPoint (s : Segments α) (tolerance : α) (e : Endpoint) : List Endpoint :=
  (participants s tolerance).filter fun x => decide (x = e) || s.point e == s.point x

section

variable [LawfulDigits α] (hs : s.size < 0x100000000)
  (h : Matcher.TellsPoints ⟨s, settings.matching, settings.cellScale⟩
    (participants s settings.matching))

include hs h

theorem gathered_ofSegments {e : Endpoint} (he : e ∈ participants s settings.matching) :
    Gathered (ofSegments s settings).1.links (ofSegments s settings).1.junctions
      (atPoint s settings.matching e) := by
  have hgrouped := grouped_registered hs h.exact
  have hplace : Matcher.place ⟨s, settings.matching, settings.cellScale⟩
      (participants s settings.matching) e = atPoint s settings.matching e := by
    refine List.filter_congr fun x hx => ?_
    rw [Bool.eq_iff_iff, h.coincides_iff he hx, Bool.or_eq_true, decide_eq_true_iff]
  rw [ofSegments_of_exact hs h.exact, ← hplace]
  obtain ⟨i, -, hshape, -⟩ := hgrouped.slot he
  exact hshape.gathered hgrouped.sound.tied

/-- Links and junctions can be found without a table. -/
theorem tieAll_eq_registered : tieAll (Matcher.coincides ⟨s, settings.matching, settings.cellScale⟩)
    s.size (participants s settings.matching) =
      ((registered s settings).links, (registered s settings).junctions) :=
  Matcher.tieAll_eq_registerAll h.exact (range_participants _ (Nat.le_of_lt hs))
    (length_participants_le s _) hs (nodup_participants (Nat.le_of_lt hs)) settings.slotsPerEndpoint

/-- The number of cells and the number of slots do not matter. -/
theorem ofSegments_congr (hmatching : settings'.matching = settings.matching) :
    ofSegments s settings' = ofSegments s settings := by
  have h' : Matcher.TellsPoints ⟨s, settings'.matching, settings'.cellScale⟩
      (participants s settings'.matching) := by
    rw [hmatching]
    exact h
  have htie := tieAll_eq_registered hs h
  have htie' := tieAll_eq_registered hs h'
  rw [ofSegments_of_exact hs h'.exact, ofSegments_of_exact hs h.exact]
  rw [hmatching] at htie' ⊢
  obtain ⟨hlinks, hjunctions⟩ := Prod.mk.inj (htie'.symm.trans htie)
  rw [hlinks, hjunctions]
  rfl

end

/-- Where different endpoints match exactly if they are at the same point, those at a point are tied
in the order in which they come, and the number of cells and the number of slots do not matter. -/
theorem gathered_of_build [LawfulDigits α] (points : Array (Vec3 α)) (settings : Settings α)
    (hv : settings.validate = .ok ())
    (hs : Segments.evenPart points.size * settings.symmetry ≤ Segments.greatestSize)
    (h : Matcher.TellsPoints
      ⟨.replicate points settings.symmetry, settings.matching, settings.cellScale⟩
      (participants (.replicate points settings.symmetry) settings.matching)) :
    ∃ m found, build points settings = .ok (m, found) ∧
      (∀ e ∈ participants m.segments settings.matching,
        (atPoint m.segments settings.matching e).Pairwise (fun a b => a.index < b.index) ∧
        Gathered m.links m.junctions (atPoint m.segments settings.matching e)) ∧
      ∀ settings' : Settings α, settings'.validate = .ok () →
        settings'.matching = settings.matching → settings'.symmetry = settings.symmetry →
          build points settings' = .ok (m, found) := by
  have hsize := Segments.size_replicate_lt points (Settings.symmetry_pos hv) hs
  refine ⟨_, _, build_eq_ok hv hs, fun e he => ⟨?_, gathered_ofSegments hsize h he⟩, ?_⟩
  · exact (pairwise_participants (Nat.le_of_lt hsize) _).filter _
  · intro settings' hv' hmatching hsymmetry
    rw [build_eq_ok hv' (hsymmetry ▸ hs), hsymmetry, ofSegments_congr hsize h hmatching]

/-- The segments of the star that meet in one point make a junction there, whatever the number of
slots. -/
theorem gathered_of_build_star :
    ∃ m found, build star .standard = .ok (m, found) ∧
      (∃ j, m.junctions.members j = [.ofIndex 4, .ofIndex 0, .ofIndex 2]) ∧
      m.links.get (.ofIndex 1) = .endpoint (.ofIndex 6) ∧ m.links.get (.ofIndex 3) = .unpaired ∧
      build star { Settings.standard with slotsPerEndpoint := 1 } = .ok (m, found) := by
  obtain ⟨m, found, hbuild, hall, hsame⟩ := gathered_of_build star .standard rfl (by decide)
    (by decide +kernel)
  refine ⟨m, found, hbuild, ?_, ?_, ?_, hsame _ rfl rfl rfl⟩
  all_goals obtain ⟨-, -, rfl⟩ := of_build_eq_ok hbuild
  · have h := (hall (.ofIndex 0) (by decide +kernel)).2
    rw [show atPoint _ _ _ = [.ofIndex 0, .ofIndex 2, .ofIndex 4] by decide +kernel] at h
    cases h with
    | junction hm => exact ⟨_, hm⟩
  · have h := (hall (.ofIndex 1) (by decide +kernel)).2
    rw [show atPoint _ _ _ = [.ofIndex 1, .ofIndex 6] by decide +kernel] at h
    cases h with
    | pair hl => exact hl
  · have h := (hall (.ofIndex 3) (by decide +kernel)).2
    rw [show atPoint _ _ _ = [.ofIndex 3] by decide +kernel] at h
    cases h with
    | alone hl => exact hl

end Matching

end DoubleCurve
