import DoubleCurve.Endpoint

/-!
# Junctions and their members

`Junctions` holds the members of every junction in the order in which they
joined. A member joins once, the first member stands for the junction when
positions are compared, and a junction whose members moved to another one stays
behind without members.
-/

namespace DoubleCurve

/-- The members of every junction. -/
structure Junctions where
  /-- The members, by the index of the junction. -/
  buckets : Array (List Endpoint)
deriving DecidableEq, Repr

namespace Junctions

/-- No junctions. -/
def empty : Junctions := ⟨#[]⟩

/-- The number of junctions, those without members counted. -/
def size (js : Junctions) : Nat := js.buckets.size

/-- The members of a junction in the order in which they joined. -/
def members (js : Junctions) (j : Junction) : List Endpoint := js.buckets.getD j.index []

/-- The number of members. -/
def fold (js : Junctions) (j : Junction) : Nat := (js.members j).length

/-- The member that stands for the junction. -/
def exemplar? (js : Junctions) (j : Junction) : Option Endpoint := (js.members j).head?

/-- All junctions in order. -/
def all (js : Junctions) : List Junction := (List.range js.size).map .ofIndex

/-- The list with `e` at its end, unless `e` is in it. -/
def addMember (l : List Endpoint) (e : Endpoint) : List Endpoint := if e ∈ l then l else l ++ [e]

/-- Lets endpoints join a junction, one after another. -/
def add (js : Junctions) (j : Junction) (es : List Endpoint) : Junctions :=
  ⟨js.buckets.modify j.index fun l => es.foldl addMember l⟩

/-- Leaves a junction without members. -/
def clear (js : Junctions) (j : Junction) : Junctions := ⟨js.buckets.modify j.index fun _ => []⟩

/-- A new junction without members. -/
def allocate (js : Junctions) : Junction × Junctions :=
  (.ofIndex js.size, ⟨js.buckets.push []⟩)

variable {js : Junctions} {j j' : Junction} {e : Endpoint} {es : List Endpoint}

@[simp] theorem size_empty : empty.size = 0 := rfl

@[simp] theorem members_empty (j : Junction) : empty.members j = [] := rfl

@[simp] theorem size_add : (js.add j es).size = js.size := by simp [add, size]

@[simp] theorem size_allocate : js.allocate.2.size = js.size + 1 := by simp [allocate, size]

theorem members_of_size_le (h : js.size ≤ j.index) : js.members j = [] := by
  rw [members, Array.getD_eq_getD_getElem?, Array.getElem?_eq_none h, Option.getD_none]

/-- A junction with members is one of the list. -/
theorem index_lt_of_members_ne (h : js.members j ≠ []) : j.index < js.size :=
  Nat.lt_of_not_le fun hle => h (members_of_size_le hle)

theorem members_add_self (h : j.index < js.size) :
    (js.add j es).members j = es.foldl addMember (js.members j) := by
  have h' : j.index < js.buckets.size := h
  simp only [add, members, Array.getD_eq_getD_getElem?, Array.getElem?_modify, ↓reduceIte,
    Array.getElem?_eq_getElem h', Option.map_some, Option.getD_some]

theorem members_add_of_ne (h : j ≠ j') : (js.add j es).members j' = js.members j' := by
  have hi : j.index ≠ j'.index := fun hi => h (Junction.ext hi)
  simp only [add, members, Array.getD_eq_getD_getElem?, Array.getElem?_modify, hi, ↓reduceIte]

theorem add_add (js : Junctions) (j : Junction) (es es' : List Endpoint) :
    (js.add j es).add j es' = js.add j (es ++ es') := by
  simp only [add, mk.injEq]
  apply Array.ext_getElem?
  intro i
  simp only [Array.getElem?_modify, List.foldl_append]
  split
  · rw [Option.map_map]
    rfl
  · rfl

theorem addMember_of_mem {l : List Endpoint} (h : e ∈ l) : addMember l e = l := if_pos h

theorem addMember_of_not_mem {l : List Endpoint} (h : e ∉ l) : addMember l e = l ++ [e] := if_neg h

/-- A member does not join again. -/
theorem add_of_mem (h : e ∈ js.members j) : js.add j [e] = js := by
  have hlt : j.index < js.buckets.size := index_lt_of_members_ne (List.ne_nil_of_mem h)
  rw [members, Array.getD_eq_getD_getElem?, Array.getElem?_eq_getElem hlt, Option.getD_some] at h
  have hbucket : js.buckets.modify j.index (fun l => [e].foldl addMember l) = js.buckets := by
    apply Array.ext_getElem?
    intro i
    rw [Array.getElem?_modify]
    split
    · rename_i hi
      subst hi
      rw [Array.getElem?_eq_getElem hlt, Option.map_some]
      exact congrArg some (addMember_of_mem h)
    · rfl
  rw [add, hbucket]

@[simp] theorem size_clear : (js.clear j).size = js.size := by simp [clear, size]

/-- A junction is left without members, and the others keep theirs. -/
theorem members_clear (k : Junction) : (js.clear j).members k = if k = j then [] else js.members k := by
  split
  · rename_i hk
    simp only [hk, clear, members, Array.getD_eq_getD_getElem?, Array.getElem?_modify, ↓reduceIte]
    cases js.buckets[j.index]? <;> rfl
  · rename_i hk
    have hi : j.index ≠ k.index := fun hi => hk (Junction.ext hi).symm
    simp only [clear, members, Array.getD_eq_getD_getElem?, Array.getElem?_modify, hi, ↓reduceIte]

theorem mem_addMember {l : List Endpoint} {x : Endpoint} : x ∈ addMember l e ↔ x ∈ l ∨ x = e := by
  rw [addMember]
  split
  · refine ⟨.inl, ?_⟩
    rintro (hx | rfl)
    · exact hx
    · assumption
  · rw [List.mem_append, List.mem_singleton]

theorem mem_foldl_addMember {l : List Endpoint} {x : Endpoint} :
    x ∈ es.foldl addMember l ↔ x ∈ l ∨ x ∈ es := by
  induction es generalizing l with
  | nil => simp
  | cons e es ih => rw [List.foldl_cons, ih, mem_addMember, List.mem_cons, or_assoc]

theorem nodup_addMember {l : List Endpoint} (h : l.Nodup) : (addMember l e).Nodup := by
  rw [addMember]
  split
  · exact h
  · rename_i he
    refine List.nodup_append.2 ⟨h, List.nodup_cons.2 ⟨List.not_mem_nil, List.nodup_nil⟩, ?_⟩
    intro x hx y hy hxy
    rw [List.mem_singleton] at hy
    exact he (hy ▸ hxy ▸ hx)

theorem nodup_foldl_addMember {l : List Endpoint} (h : l.Nodup) : (es.foldl addMember l).Nodup := by
  induction es generalizing l with
  | nil => exact h
  | cons e es ih => exact ih (nodup_addMember h)

/-- The members after some have joined. -/
theorem mem_members_add (h : j.index < js.size) {x : Endpoint} :
    x ∈ (js.add j es).members j ↔ x ∈ js.members j ∨ x ∈ es := by
  rw [members_add_self h, mem_foldl_addMember]

/-- No member joins twice. -/
theorem nodup_members_add (h : j.index < js.size) (hn : (js.members j).Nodup) :
    ((js.add j es).members j).Nodup := by
  rw [members_add_self h]
  exact nodup_foldl_addMember hn

/-- The new junction has no members, and those before keep theirs. -/
theorem members_allocate (j : Junction) : js.allocate.2.members j = js.members j := by
  simp only [allocate, members, Array.getD_eq_getD_getElem?, Array.getElem?_push]
  split
  · rename_i h
    rw [h, Array.getElem?_eq_none (Nat.le_refl _)]
    rfl
  · rfl

end Junctions

end DoubleCurve
