import DoubleCurve.Curve
import Mathlib.Data.List.Chain
import Mathlib.Data.List.Nodup
import Mathlib.Data.List.Perm.Basic
import Mathlib.Data.List.Rotate

/-!
# The edges of a family of curves

A curve is taken apart into its edges (`Curve.edges`). Every vertex is where one
edge departs, unless it is the last of an open curve, and where one edge arrives,
unless it is the first of an open curve (`Curve.map_fst_edges`,
`Curve.perm_map_snd_edges`). A soup lists the edges of a family in any order, each
in any direction (`IsShuffle`). Two curves are the same run if they differ only in
direction and, when they are closed, in the vertex they start from
(`Curve.Retraces`).
-/

namespace DoubleCurve

namespace Curve

variable {α : Type}

/-- The edges of a curve: between consecutive vertices, and back to the first if it is closed. -/
def edges (c : Curve α) : List (Vec3 α × Vec3 α) :=
  consecutive (c.points ++ if c.closed then c.points.take 1 else [])

/-- The first vertex of an open curve. -/
def heads (c : Curve α) : List (Vec3 α) := if c.closed then [] else c.points.take 1

/-- The last vertex of an open curve. -/
def lasts (c : Curve α) : List (Vec3 α) := if c.closed then [] else c.points.getLast?.toList

/-- Whether the curve is a polygon of at least three vertices or a polyline of at least two. -/
def IsProper (c : Curve α) : Prop := if c.closed then 3 ≤ c.points.length else 2 ≤ c.points.length

instance (c : Curve α) : Decidable c.IsProper :=
  inferInstanceAs (Decidable (if c.closed then _ else _))

/-- Whether a curve has the vertices of another, in the same or the opposite order, from any of them
on if it is closed. -/
def Retraces (c d : Curve α) : Prop :=
  c.closed = d.closed ∧
    if d.closed then c.points ~r d.points ∨ c.points ~r d.points.reverse
    else c.points = d.points ∨ c.points = d.points.reverse

variable {c : Curve α} {ps : List (Vec3 α)} {e : Vec3 α × Vec3 α}

/-! ## Where edges depart and arrive -/

theorem consecutive_cons_cons (p q : Vec3 α) (ps : List (Vec3 α)) :
    consecutive (p :: q :: ps) = (p, q) :: consecutive (q :: ps) := rfl

theorem map_fst_consecutive (ps : List (Vec3 α)) : (consecutive ps).map Prod.fst = ps.dropLast := by
  induction ps with
  | nil => rfl
  | cons p ps ih =>
    cases ps with
    | nil => rfl
    | cons q ps => rw [consecutive_cons_cons, List.map_cons, ih, List.dropLast_cons_cons]

theorem map_snd_consecutive (ps : List (Vec3 α)) : (consecutive ps).map Prod.snd = ps.tail := by
  rw [consecutive, List.map_snd_zip (by rw [List.length_drop]; omega), List.drop_one]

/-- Every edge departs from where the one before it arrives. -/
theorem isChain_consecutive (ps : List (Vec3 α)) :
    (consecutive ps).IsChain fun e f => e.2 = f.1 := by
  induction ps with
  | nil => exact .nil
  | cons p ps ih =>
    cases ps with
    | nil => exact .nil
    | cons q ps =>
      rw [consecutive_cons_cons]
      cases ps with
      | nil => exact .singleton _
      | cons r ps =>
        rw [consecutive_cons_cons] at ih ⊢
        exact ih.cons_cons rfl

/-- An edge departs from every vertex, unless it is the last of an open curve. -/
theorem map_fst_edges (c : Curve α) : c.edges.map Prod.fst ++ c.lasts = c.points := by
  rw [edges, map_fst_consecutive, lasts]
  cases c.closed with
  | false =>
    rw [if_neg Bool.false_ne_true, if_neg Bool.false_ne_true, List.append_nil]
    rcases c.points.eq_nil_or_concat with h | ⟨ps, p, h⟩
    · rw [h]
      rfl
    · rw [h, List.concat_eq_append, List.dropLast_concat, List.getLast?_concat]
      rfl
  | true =>
    rw [if_pos rfl, if_pos rfl, List.append_nil]
    cases c.points with
    | nil => rfl
    | cons p ps => exact List.dropLast_concat

/-- An edge arrives at every vertex of an open curve, unless it is the first. -/
theorem map_snd_edges_of_open (h : c.closed = false) :
    c.heads ++ c.edges.map Prod.snd = c.points := by
  rw [edges, map_snd_consecutive, heads, h, if_neg Bool.false_ne_true, if_neg Bool.false_ne_true,
    List.append_nil]
  cases c.points <;> rfl

/-- An edge arrives at every vertex of a closed curve. -/
theorem map_snd_edges_of_closed (h : c.closed = true) : c.edges.map Prod.snd ~r c.points := by
  rw [edges, map_snd_consecutive, h, if_pos rfl]
  cases c.points with
  | nil => exact .refl _
  | cons p ps => exact List.isRotated_concat p ps

theorem perm_map_snd_edges (c : Curve α) : (c.heads ++ c.edges.map Prod.snd).Perm c.points := by
  cases h : c.closed with
  | false => rw [map_snd_edges_of_open h]
  | true =>
    rw [heads, h, if_pos rfl, List.nil_append]
    exact (map_snd_edges_of_closed h).perm

theorem isChain_edges (c : Curve α) : c.edges.IsChain fun e f => e.2 = f.1 :=
  isChain_consecutive _

/-- The first edge of a closed curve departs from where the last arrives. -/
theorem edges_around (h : c.closed = true) {e f : Vec3 α × Vec3 α} (he : e ∈ c.edges.head?)
    (hf : f ∈ c.edges.getLast?) : f.2 = e.1 := by
  have hfst : (c.edges.map Prod.fst).head? = some e.1 := by rw [List.head?_map, he, Option.map_some]
  have hsnd : (c.edges.map Prod.snd).getLast? = some f.2 := by
    rw [List.getLast?_map, hf, Option.map_some]
  rw [edges, h, if_pos rfl] at hfst hsnd
  rw [map_fst_consecutive] at hfst
  rw [map_snd_consecutive] at hsnd
  cases hp : c.points with
  | nil =>
    rw [hp] at hfst
    cases hfst
  | cons p ps =>
    rw [hp] at hfst hsnd
    change (p :: ps ++ [p]).dropLast.head? = _ at hfst
    change (ps ++ [p]).getLast? = _ at hsnd
    rw [List.dropLast_concat, List.head?_cons, Option.some.injEq] at hfst
    rw [List.getLast?_concat, Option.some.injEq] at hsnd
    rw [← hfst, ← hsnd]

theorem heads_eq (h : c.closed = false) (he : e ∈ c.edges.head?) : c.heads = [e.1] := by
  have hfst : (c.edges.map Prod.fst).head? = some e.1 := by rw [List.head?_map, he, Option.map_some]
  have hhead : c.points.head? = some e.1 := by
    rw [← map_fst_edges, List.head?_append, hfst, Option.some_or]
  obtain ⟨ps, hp⟩ := List.head?_eq_some_iff.1 hhead
  rw [heads, h, if_neg Bool.false_ne_true, hp]
  rfl

theorem lasts_eq (h : c.closed = false) (he : e ∈ c.edges.getLast?) : c.lasts = [e.2] := by
  have hsnd : (c.edges.map Prod.snd).getLast? = some e.2 := by
    rw [List.getLast?_map, he, Option.map_some]
  have hlast : c.points.getLast? = some e.2 := by
    rw [← map_snd_edges_of_open h, List.getLast?_append, hsnd, Option.some_or]
  rw [lasts, h, if_neg Bool.false_ne_true, hlast]
  rfl

theorem IsProper.length_edges (h : c.IsProper) :
    0 < c.edges.length ∧ (c.closed = true → 2 < c.edges.length) := by
  have hlen := congrArg List.length (map_fst_edges c)
  rw [List.length_append, List.length_map, lasts] at hlen
  rw [IsProper] at h
  cases hc : c.closed with
  | false =>
    rw [hc, if_neg Bool.false_ne_true] at h hlen
    have hle : c.points.getLast?.toList.length ≤ 1 := by cases c.points.getLast? <;> simp
    exact ⟨by omega, fun hf => by cases hf⟩
  | true =>
    rw [hc, if_pos rfl] at h hlen
    rw [List.length_nil] at hlen
    exact ⟨by omega, fun _ => by omega⟩

/-! ## Families -/

/-- The two ends of an open curve. -/
def tips (c : Curve α) : List (Vec3 α) := c.heads ++ c.lasts

variable {family : List (Curve α)}

theorem perm_departures (family : List (Curve α)) :
    ((family.flatMap fun c => c.edges.map Prod.fst) ++ family.flatMap lasts).Perm
      (family.flatMap points) := by
  refine (List.flatMap_append_perm family _ _).trans (.of_eq ?_)
  exact congrArg family.flatMap (funext map_fst_edges)

theorem perm_arrivals (family : List (Curve α)) :
    (family.flatMap heads ++ family.flatMap fun c => c.edges.map Prod.snd).Perm
      (family.flatMap points) :=
  (List.flatMap_append_perm family _ _).trans (.flatMap_left family fun c _ => perm_map_snd_edges c)

/-- Lists taken from lists without duplicates have none if none of them has. -/
theorem nodup_flatMap_of_subset {ι β : Type} {l : List ι} {f g : ι → List β}
    (h : (l.flatMap f).Nodup) (hn : ∀ x ∈ l, (g x).Nodup) (hsub : ∀ x ∈ l, g x ⊆ f x) :
    (l.flatMap g).Nodup := by
  rw [List.nodup_flatMap] at h ⊢
  refine ⟨hn, h.2.imp_of_mem fun {x y} hx hy hxy => ?_⟩
  exact fun b hbx hby => hxy (hsub x hx hbx) (hsub y hy hby)

theorem IsProper.nodup_tips (h : c.IsProper) (hn : c.points.Nodup) : c.tips.Nodup := by
  rw [tips, heads, lasts]
  cases hc : c.closed with
  | true => exact List.nodup_nil
  | false =>
    rw [if_neg Bool.false_ne_true, if_neg Bool.false_ne_true]
    rw [IsProper, hc, if_neg Bool.false_ne_true] at h
    match hp : c.points with
    | [] => exact List.nodup_nil
    | [p] =>
      rw [hp, List.length_singleton] at h
      omega
    | p :: q :: ps =>
      rw [hp] at hn
      obtain ⟨r, hr⟩ : ∃ r, (q :: ps).getLast? = some r :=
        ⟨_, List.getLast?_eq_some_getLast (List.cons_ne_nil q ps)⟩
      rw [List.getLast?_cons_cons, hr]
      show [p, r].Nodup
      rw [List.nodup_cons, List.mem_singleton]
      refine ⟨fun hpr => (List.nodup_cons.1 hn).1 ?_, List.nodup_singleton r⟩
      rw [hpr]
      exact List.mem_of_getLast? hr

theorem tips_subset (c : Curve α) : c.tips ⊆ c.points := by
  intro p hp
  rcases List.mem_append.1 hp with hp | hp
  · exact (perm_map_snd_edges c).subset (List.mem_append_left _ hp)
  · rw [← map_fst_edges]
    exact List.mem_append_right _ hp

theorem IsProper.ne_of_mem_edges (h : c.IsProper) (hn : c.points.Nodup) (he : e ∈ c.edges) :
    e.1 ≠ e.2 := by
  have hconsecutive {ps : List (Vec3 α)} (hne : ps.IsChain (· ≠ ·)) (he : e ∈ consecutive ps) :
      e.1 ≠ e.2 := by
    induction ps with
    | nil => cases he
    | cons p ps ih =>
      cases ps with
      | nil => cases he
      | cons q ps =>
        obtain ⟨hpq, hne⟩ := List.isChain_cons_cons.1 hne
        rcases List.mem_cons.1 he with rfl | he
        · exact hpq
        · exact ih hne he
  refine hconsecutive ?_ he
  have hchain : c.points.IsChain (· ≠ ·) := List.Pairwise.isChain hn
  cases hc : c.closed with
  | false =>
    rw [if_neg Bool.false_ne_true, List.append_nil]
    exact hchain
  | true =>
    rw [IsProper, hc, if_pos rfl] at h
    rw [if_pos rfl]
    match hp : c.points with
    | [] => exact .nil
    | [p] =>
      rw [hp, List.length_singleton] at h
      omega
    | p :: q :: ps =>
      rw [hp] at hchain hn
      refine List.isChain_append.2 ⟨hchain, .singleton p, fun r hr r' hr' => ?_⟩
      obtain rfl : p = r' := Option.some.inj hr'
      rw [List.getLast?_cons_cons] at hr
      rintro rfl
      exact (List.nodup_cons.1 hn).1 (List.mem_of_getLast? hr)

end Curve

/-! ## Soups -/

variable {α : Type}

/-- Whether two edges are the same up to direction. -/
def SameEdge (e f : Vec3 α × Vec3 α) : Prop := e = f ∨ e = f.swap

/-- Whether a soup lists these edges in any order, each in any direction. -/
def IsShuffle (soup edges : List (Vec3 α × Vec3 α)) : Prop :=
  ∃ l, l.Perm edges ∧ List.Forall₂ SameEdge soup l

end DoubleCurve
