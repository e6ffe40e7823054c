/-!
# Endpoints, junctions and links

Segment `k` has the endpoints `2k` and `2k + 1`, each the other's twin. An
endpoint is linked to nothing, to one other endpoint, or to a junction in which
three or more meet. A link has an integer form: `-1`, the index of the endpoint,
or `-3 - j` for junction `j`, so that no two links share one.

Indices are kept within 32 bits, and `ofIndex` cuts off what lies above.
-/

namespace DoubleCurve

/-- One end of a segment. -/
structure Endpoint where
  /-- The position in the list of all endpoints. -/
  index : Nat
  /-- Indices are 32 bits wide. -/
  index_lt : index < 0x100000000
deriving DecidableEq, Repr

namespace Endpoint

/-- The endpoint whose index is the low 32 bits of `n`. -/
def ofIndex (n : Nat) : Endpoint := ⟨n % 0x100000000, Nat.mod_lt _ (by decide)⟩

instance : Inhabited Endpoint := ⟨ofIndex 0⟩

instance : ToString Endpoint := ⟨fun e => toString e.index⟩

/-- The other endpoint of the same segment. -/
def twin (e : Endpoint) : Endpoint :=
  if _h : e.index % 2 = 0 then ⟨e.index + 1, by have := e.index_lt; omega⟩
  else ⟨e.index - 1, by have := e.index_lt; omega⟩

/-- The segment the endpoint belongs to. -/
def segment (e : Endpoint) : Nat := e.index / 2

/-- Whether the endpoint is the first of its segment. -/
def isStart (e : Endpoint) : Bool := e.index % 2 == 0

@[ext] theorem ext {a b : Endpoint} (h : a.index = b.index) : a = b := by
  cases a
  cases b
  simp_all

@[simp] theorem index_ofIndex {n : Nat} (h : n < 0x100000000) : (ofIndex n).index = n :=
  Nat.mod_eq_of_lt h

@[simp] theorem ofIndex_index (e : Endpoint) : ofIndex e.index = e :=
  ext (Nat.mod_eq_of_lt e.index_lt)

theorem index_twin (e : Endpoint) :
    e.twin.index = if e.index % 2 = 0 then e.index + 1 else e.index - 1 := by
  simp only [twin]
  split <;> rfl

@[simp] theorem twin_twin (e : Endpoint) : e.twin.twin = e := by
  apply ext
  simp only [index_twin]
  split <;> split <;> omega

theorem twin_ne (e : Endpoint) : e.twin ≠ e := by
  intro h
  have := congrArg index h
  rw [index_twin] at this
  split at this <;> omega

@[simp] theorem segment_twin (e : Endpoint) : e.twin.segment = e.segment := by
  simp only [segment, index_twin]
  split <;> omega

/-- A segment has two endpoints. -/
theorem segment_eq_iff {a b : Endpoint} : a.segment = b.segment ↔ a = b ∨ a = b.twin := by
  refine ⟨fun h => ?_, ?_⟩
  · simp only [segment] at h
    by_cases hab : a.index = b.index
    · exact .inl (ext hab)
    · refine .inr (ext ?_)
      rw [index_twin]
      split <;> omega
  · rintro (rfl | rfl)
    · rfl
    · exact segment_twin b

end Endpoint

/-- A place where more than two endpoints meet. -/
structure Junction where
  /-- The position in the list of all junctions. -/
  index : Nat
  /-- Indices are 32 bits wide. -/
  index_lt : index < 0x100000000
deriving DecidableEq, Repr

namespace Junction

/-- The junction whose index is the low 32 bits of `n`. -/
def ofIndex (n : Nat) : Junction := ⟨n % 0x100000000, Nat.mod_lt _ (by decide)⟩

/-- The integer that stands for the junction where endpoints are written as their indices. -/
def token (j : Junction) : Int := -3 - j.index

/-- The junction that an integer stands for, if it stands for one. -/
def ofToken? (t : Int) : Option Junction :=
  if t ≤ -3 then some (ofIndex (-3 - t).toNat) else none

@[ext] theorem ext {a b : Junction} (h : a.index = b.index) : a = b := by
  cases a
  cases b
  simp_all

@[simp] theorem index_ofIndex {n : Nat} (h : n < 0x100000000) : (ofIndex n).index = n :=
  Nat.mod_eq_of_lt h

theorem index_ofIndex_le (n : Nat) : (ofIndex n).index ≤ n := Nat.mod_le n _

theorem ofToken?_token (j : Junction) : ofToken? j.token = some j := by
  have h : (-3 - j.token).toNat = j.index := by
    simp only [token]
    omega
  simp only [ofToken?, h, ofIndex, Nat.mod_eq_of_lt j.index_lt]
  rw [if_pos (by simp only [token]; omega)]

end Junction

/-- What an endpoint is linked to. -/
inductive Link where
  /-- Nothing. -/
  | unpaired
  /-- One other endpoint. -/
  | endpoint (e : Endpoint)
  /-- A junction. -/
  | junction (j : Junction)
deriving DecidableEq, Repr

namespace Link

instance : Inhabited Link := ⟨unpaired⟩

/-- The integer form of the link. -/
def raw : Link → Int
  | unpaired => -1
  | endpoint e => e.index
  | junction j => j.token

/-- The link with this integer form; every other negative integer stands for no link. -/
def ofRaw (n : Int) : Link :=
  match Junction.ofToken? n with
  | some j => junction j
  | none => if n < 0 then unpaired else endpoint (.ofIndex n.toNat)

instance : ToString Link := ⟨fun l => toString l.raw⟩

/-- The linked endpoint, if there is one. -/
def endpoint? : Link → Option Endpoint
  | endpoint e => some e
  | _ => none

/-- The junction linked to, if there is one. -/
def junction? : Link → Option Junction
  | junction j => some j
  | _ => none

theorem endpoint?_eq_none_iff {l : Link} : l.endpoint? = none ↔ ∀ e, l ≠ endpoint e := by
  cases l <;> simp [endpoint?]

theorem mem_toList_endpoint? {l : Link} {e : Endpoint} :
    e ∈ l.endpoint?.toList ↔ l = endpoint e := by
  cases l <;> simp [endpoint?, eq_comm]

theorem mem_toList_junction? {l : Link} {j : Junction} :
    j ∈ l.junction?.toList ↔ l = junction j := by
  cases l <;> simp [junction?, eq_comm]

theorem ofRaw_raw (l : Link) : ofRaw l.raw = l := by
  cases l with
  | unpaired => rfl
  | endpoint e =>
    have h : ¬(e.index : Int) ≤ -3 := by omega
    have h' : ¬(e.index : Int) < 0 := by omega
    simp [ofRaw, raw, Junction.ofToken?, h, h']
  | junction j => simp [ofRaw, raw, Junction.ofToken?_token]

end Link

/-- The link of every endpoint. -/
structure Links where
  /-- The entries, by the index of the endpoint. -/
  entries : Array Link
deriving DecidableEq, Repr

namespace Links

/-- The table in which none of `n` endpoints is linked. -/
def unpaired (n : Nat) : Links := ⟨Array.replicate n .unpaired⟩

/-- The link of `e`; an endpoint outside the table has none. -/
def get (l : Links) (e : Endpoint) : Link := l.entries.getD e.index .unpaired

/-- The table with the link of `e` replaced. -/
def set (l : Links) (e : Endpoint) (link : Link) : Links :=
  ⟨l.entries.setIfInBounds e.index link⟩

/-- The table with `a` and `b` linked to each other. -/
def pair (l : Links) (a b : Endpoint) : Links :=
  (l.set a (.endpoint b)).set b (.endpoint a)

variable {l : Links} {e e' : Endpoint} {link : Link}

@[simp] theorem size_set : (l.set e link).entries.size = l.entries.size := by simp [set]

theorem get_set_self (h : e.index < l.entries.size) : (l.set e link).get e = link := by
  simp [set, get, Array.getD_eq_getD_getElem?, h]

theorem get_set_of_ne (h : e ≠ e') : (l.set e link).get e' = l.get e' := by
  have hi : e.index ≠ e'.index := fun hi => h (Endpoint.ext hi)
  simp [set, get, Array.getD_eq_getD_getElem?, hi]

theorem get_set (h : e.index < l.entries.size) (x : Endpoint) :
    (l.set e link).get x = if x = e then link else l.get x := by
  split
  · rename_i hx
    rw [hx, get_set_self h]
  · rename_i hx
    exact get_set_of_ne (Ne.symm hx)

theorem size_foldl_set (es : List Endpoint) :
    (es.foldl (fun l e => l.set e link) l).entries.size = l.entries.size := by
  induction es generalizing l with
  | nil => rfl
  | cons e es ih => rw [List.foldl_cons, ih, size_set]

/-- The table with several endpoints linked to the same. -/
theorem get_foldl_set {es : List Endpoint} (h : ∀ e ∈ es, e.index < l.entries.size) (x : Endpoint) :
    (es.foldl (fun l e => l.set e link) l).get x = if x ∈ es then link else l.get x := by
  induction es generalizing l with
  | nil => rw [List.foldl_nil, if_neg List.not_mem_nil]
  | cons e es ih =>
    rw [List.forall_mem_cons] at h
    rw [List.foldl_cons, ih (by rw [size_set]; exact h.2), get_set h.1]
    by_cases hx : x ∈ es
    · rw [if_pos hx, if_pos (List.mem_cons_of_mem e hx)]
    · rw [if_neg hx]
      simp only [List.mem_cons, hx, or_false]

/-- Linking an endpoint to what it is linked to changes nothing. -/
theorem set_eq_self (h : e.index < l.entries.size) (hl : l.get e = link) : l.set e link = l := by
  rw [get, Array.getD_eq_getD_getElem?, Array.getElem?_eq_getElem h, Option.getD_some] at hl
  rw [set, ← hl, Array.setIfInBounds_def, dif_pos h, Array.set_getElem_self]

@[simp] theorem size_pair : (l.pair e e').entries.size = l.entries.size := by
  rw [pair, size_set, size_set]

theorem get_pair (h : e.index < l.entries.size) (h' : e'.index < l.entries.size) (x : Endpoint) :
    (l.pair e e').get x = if x = e' then .endpoint e else if x = e then .endpoint e' else l.get x := by
  rw [pair, get_set (by rwa [size_set]), get_set h]

@[simp] theorem size_unpaired (n : Nat) : (unpaired n).entries.size = n := by simp [unpaired]

@[simp] theorem get_unpaired (n : Nat) (x : Endpoint) : (unpaired n).get x = .unpaired := by
  simp only [unpaired, get, Array.getD_eq_getD_getElem?, Array.getElem?_replicate]
  split <;> rfl

/-- A linked endpoint is in the table. -/
theorem index_lt_of_get_ne (h : l.get e ≠ .unpaired) : e.index < l.entries.size := by
  rcases Nat.lt_or_ge e.index l.entries.size with hlt | hge
  · exact hlt
  · simp [get, Array.getD_eq_getD_getElem?, Array.getElem?_eq_none hge] at h

end Links

end DoubleCurve
