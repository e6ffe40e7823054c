import DoubleCurve.Proofs.Trace.Strands

/-!
# Tracing without junctions

Where links are between pairs of endpoints only (`Links.Paired`), a walk has no
choice and mends nothing: tracing changes no link and gives no notice of its own
(`Tracer.strand_of_paired`). If the ends of every segment are far enough apart
besides, none of the points along a strand is collapsed, and the last one is added
to an open curve (`Tracer.Stranded.vertices_eq`).
-/

namespace DoubleCurve

/-- Whether links are between pairs of endpoints only. -/
structure Links.Paired (l : Links) : Prop where
  returned {a b : Endpoint} : l.get a = .endpoint b → l.get b = .endpoint a
  ne_junction (a : Endpoint) (j : Junction) : l.get a ≠ .junction j

/-- The points along a chain of segments. On an open curve the last segment adds the point at which
it is left. -/
def Segments.along {α : Type} [Scalar α] (s : Segments α) (closed : Bool) (es : List Endpoint) :
    List (Vec3 α) :=
  es.map s.point ++ if closed then [] else es.getLast?.toList.map fun e => s.point e.twin

/-- A chain has one point for each segment, and one more on an open curve. -/
theorem Segments.length_along {α : Type} [Scalar α] (s : Segments α) {closed : Bool}
    {es : List Endpoint} (h : es ≠ []) :
    (s.along closed es).length = es.length + if closed then 0 else 1 := by
  rw [along, List.length_append, List.length_map]
  cases closed with
  | true => rfl
  | false =>
    obtain ⟨y, hy⟩ : ∃ y, es.getLast? = some y := ⟨_, List.getLast?_eq_some_getLast h⟩
    rw [hy]
    rfl

namespace Trace

variable {α : Type} [Scalar α] {m : Matching α} {s : State α} {e : Endpoint} {es : List Endpoint}
  {short gap : α} {p : Vec3 α} {ps : List (Vec3 α)}

/-! ## Points that are far enough apart -/

theorem collapseAfter_of_isChain (h : (p :: ps).IsChain fun p q => short < p.distance q) :
    collapseAfter short p ps = ps := by
  induction ps generalizing p with
  | nil => rfl
  | cons q ps ih =>
    obtain ⟨hpq, h⟩ := List.isChain_cons_cons.1 h
    rw [collapseAfter, if_pos hpq, ih h]

theorem collapse_of_isChain (h : ps.IsChain fun p q => short < p.distance q) :
    collapse short ps = ps := by
  cases ps with
  | nil => rfl
  | cons p ps => rw [collapse, collapseAfter_of_isChain h]

namespace Tracer

variable {t : Tracer α} {r : Strand × State α}

/-! ## What tracing changes -/

/-- A walk departs without changing anything. -/
theorem depart_of_paired (h : s.links.Paired) : (t.depart s e).2 = s := by
  unfold depart
  split
  · rfl
  · rename_i next hl
    exact mend_eq_self (h.returned hl)
  · rename_i j hl
    exact absurd hl (h.ne_junction e j)

/-- A strand only claims its segments. -/
theorem strand_of_paired (h : s.links.Paired) :
    (t.strand s e).2.links = s.links ∧ (t.strand s e).2.notices = s.notices := by
  refine strand_keeps (P := fun s' => s'.links = s.links ∧ s'.notices = s.notices)
    (fun s' a hs' => ?_) (fun _ _ hs' => hs') ⟨rfl, rfl⟩
  rw [depart_of_paired (hs'.1 ▸ h)]
  exact hs'

/-! ## The vertices of a strand -/

/-- The points along a strand that are far enough apart are the vertices of its curve. -/
theorem Stranded.vertices_eq (h : Stranded m s e es r)
    (hsame : ∀ {a b : Endpoint}, r.2.links.get a = .endpoint b →
      t.segments.point a = t.segments.point b)
    (hfar : ∀ a ∈ es, t.shortLength < (t.segments.point a).distance (t.segments.point a.twin) ∧
      t.openEndGap < (t.segments.point a).distance (t.segments.point a.twin)) :
    t.vertices r.2.links r.1 = t.segments.along (r.1.isClosed r.2.links) es := by
  have hcollapse : collapse t.shortLength (es.map t.segments.point) = es.map t.segments.point := by
    refine collapse_of_isChain (List.isChain_map _ |>.2 ?_)
    refine List.IsChain.imp_of_mem_imp (fun a b ha _ hab => ?_) h.trail.follows
    rw [← hsame hab.1]
    exact (hfar a ha).1
  unfold vertices chainPoints Segments.along
  rw [h.chain_eq, hcollapse]
  cases r.1.isClosed r.2.links with
  | true => exact (List.append_nil _).symm
  | false =>
    show withTail _ _ _ = _ ++ List.map _ es.getLast?.toList
    rw [withTail, List.getLast?_map, h.getLast?]
    show (if _ then _ else _) = es.map t.segments.point ++ [t.segments.point r.1.last.twin.twin]
    have hlast := (hfar _ (List.mem_of_getLast? h.getLast?)).2
    rw [Endpoint.twin_twin] at hlast ⊢
    rw [if_pos hlast]

end Tracer

end Trace

end DoubleCurve
