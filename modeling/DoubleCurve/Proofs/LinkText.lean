import DoubleCurve.LinkText
import DoubleCurve.Proofs.Text
import Mathlib.Data.Set.Function

/-!
# Reading LINK texts

What is written is read (`read?_text`), whenever coordinates are written as words
and read back from them. If different coordinates are written as different words,
there is such a function, so nothing but the numbers and the closing of the curves
is lost in a LINK text (`exists_reader`).
-/

namespace DoubleCurve.LinkText

variable {α β γ δ : Type}

theorem readCount?_toString (n : Nat) : readCount? (toString n) = some n := by
  have hdigits : (Nat.toDigits 10 n).all Char.isDigit = true :=
    List.all_eq_true.2 fun c hc => Nat.isDigit_of_mem_toDigits (by decide) (by decide) hc
  rw [readCount?, Nat.toString_eq_repr, Nat.toList_repr, if_pos ⟨Nat.toDigits_ne_nil, hdigits⟩,
    Nat.ofDigitChars_ten_toDigits]

/-- Whether the text is a word: it is not empty and has no white space. -/
def IsWord (text : String) : Prop := text ≠ "" ∧ ∀ c ∈ text.toList, Text.isBlank c = false

theorem IsWord.firstWord {word : String} (h : IsWord word) {blank rest : List Char}
    (hblank : ∀ c ∈ blank, Text.isBlank c = true) (hrest : ∀ c ∈ rest.head?, Text.isBlank c = true) :
    Text.FirstWord (blank ++ (word.toList ++ rest)) word.toList rest :=
  ⟨blank, rfl, hblank, by simpa using h.1, h.2, hrest⟩

variable {number : α → String} {value : String → Option α} {p : Vec3 α} {curves : List (Curve α)}

theorem words_vertexLine (hx : IsWord (number p.x)) (hy : IsWord (number p.y))
    (hz : IsWord (number p.z)) : Text.words (vertexLine number p).toList =
      [(number p.x).toList, (number p.y).toList, (number p.z).toList] := by
  have hspace : ∀ c ∈ [' '], Text.isBlank c = true := List.forall_mem_singleton.2 Text.isBlank_space
  have hline : (vertexLine number p).toList = [] ++ ((number p.x).toList ++ ([' '] ++
      ((number p.y).toList ++ ([' '] ++ ((number p.z).toList ++ []))))) := by
    simp [vertexLine]
  rw [hline, (hx.firstWord (by simp) (by simpa using hspace)).words_eq,
    (hy.firstWord hspace (by simpa using hspace)).words_eq, (hz.firstWord hspace (by simp)).words_eq]
  rfl

theorem readVertex?_vertexLine (hx : IsWord (number p.x)) (hy : IsWord (number p.y))
    (hz : IsWord (number p.z)) (hvx : value (number p.x) = some p.x)
    (hvy : value (number p.y) = some p.y) (hvz : value (number p.z) = some p.z) :
    readVertex? value (vertexLine number p) = some p := by
  rw [readVertex?, words_vertexLine hx hy hz]
  simp [hvx, hvy, hvz]

/-- What is written on a line each is read from as many lines. -/
theorem readMany?_append {read : String → Option β} {write : δ → String} {f : δ → β} {xs : List δ}
    (h : ∀ x ∈ xs, read (write x) = some (f x)) (rest : List String) :
    readMany? read xs.length (xs.map write ++ rest) = some (xs.map f, rest) := by
  induction xs with
  | nil => rfl
  | cons x xs ih =>
    obtain ⟨hx, hxs⟩ := List.forall_mem_cons.1 h
    rw [List.map_cons, List.cons_append, List.length_cons, readMany?, hx, ih hxs]
    rfl

theorem readCurves?_append
    (h : ∀ c ∈ curves, ∀ p ∈ c.points, readVertex? value (vertexLine number p) = some p)
    (rest : List String) :
    readCurves? value (curves.map Curve.size) (curves.flatMap (curveLines number) ++ rest) =
      some (curves.map Curve.points, rest) := by
  induction curves with
  | nil => rfl
  | cons c curves ih =>
    obtain ⟨hc, hcurves⟩ := List.forall_mem_cons.1 h
    have hpoints := readMany?_append (f := id) hc (curves.flatMap (curveLines number) ++ rest)
    rw [List.map_cons, List.flatMap_cons, curveLines, List.append_assoc, List.cons_append, readCurves?,
      Curve.size, hpoints, List.map_id]
    simp [ih hcurves]

/-! ## The lines of a text -/

/-- A line of words and single spaces has no line end in it. -/
theorem clean_of_isBlank {line : List Char} (h : ∀ c ∈ line, c = ' ' ∨ Text.isBlank c = false) :
    '\n' ∉ line ∧ line.getLast? ≠ some '\r' := by
  refine ⟨fun hmem => ?_, fun hlast => ?_⟩
  · simpa [Text.isBlank_newline] using h _ hmem
  · simpa [Text.isBlank_return] using h _ (List.mem_of_getLast? hlast)

theorem isBlank_of_mem_toString {n : Nat} {c : Char} (h : c ∈ (toString n).toList) :
    Text.isBlank c = false := by
  rw [Nat.toString_eq_repr, Nat.toList_repr] at h
  exact Text.isBlank_of_isDigit (Nat.isDigit_of_mem_toDigits (by decide) (by decide) h)

theorem mem_vertexLine {d : Char} (h : d ∈ (vertexLine number p).toList) :
    d = ' ' ∨ d ∈ (number p.x).toList ∨ d ∈ (number p.y).toList ∨ d ∈ (number p.z).toList := by
  simp only [vertexLine, String.toList_append, List.mem_append, show " ".toList = [' '] from rfl,
    List.mem_singleton] at h
  tauto

theorem lines_text (h : ∀ c ∈ curves, ∀ p ∈ c.points,
      IsWord (number p.x) ∧ IsWord (number p.y) ∧ IsWord (number p.z)) :
    Text.lines (text number curves) = lines number curves := by
  refine Text.lines_join fun l hl => clean_of_isBlank fun d hd => ?_
  simp only [lines, curveLines, List.cons_append, List.mem_cons, List.mem_append, List.mem_map,
    List.mem_flatMap] at hl
  rcases hl with rfl | rfl | ⟨c, -, rfl⟩ | ⟨c, hc, rfl | ⟨p, hp, rfl⟩⟩
  · have hword : ∀ d ∈ "LINK".toList, Text.isBlank d = false := by
      simp [Text.isBlank, Text.blanks, Text.Ranges.contains]
    exact .inr (hword d hd)
  · exact .inr (isBlank_of_mem_toString hd)
  · exact .inr (isBlank_of_mem_toString hd)
  · cases hd
  · obtain ⟨hx, hy, hz⟩ := h c hc p hp
    rcases mem_vertexLine hd with rfl | hd | hd | hd
    · exact .inl rfl
    · exact .inr (hx.2 d hd)
    · exact .inr (hy.2 d hd)
    · exact .inr (hz.2 d hd)

/-! ## The whole text -/

/-- All coordinates of the curves are among these. -/
def Over (coordinates : Set α) (curves : List (Curve α)) : Prop :=
  ∀ c ∈ curves, ∀ p ∈ c.points, p.x ∈ coordinates ∧ p.y ∈ coordinates ∧ p.z ∈ coordinates

variable {coordinates : Set α}

/-- The vertices are read from the text, if coordinates are written as words and read back. -/
theorem read?_text (hword : ∀ a ∈ coordinates, IsWord (number a))
    (hvalue : ∀ a ∈ coordinates, value (number a) = some a) (h : Over coordinates curves) :
    read? value (text number curves) = some (curves.map Curve.points) := by
  have hlines : Text.lines (text number curves) = lines number curves :=
    lines_text fun c hc p hp =>
      ⟨hword _ (h c hc p hp).1, hword _ (h c hc p hp).2.1, hword _ (h c hc p hp).2.2⟩
  have hvertex : ∀ c ∈ curves, ∀ p ∈ c.points, readVertex? value (vertexLine number p) = some p := by
    intro c hc p hp
    obtain ⟨hx, hy, hz⟩ := h c hc p hp
    exact readVertex?_vertexLine (hword _ hx) (hword _ hy) (hword _ hz) (hvalue _ hx) (hvalue _ hy)
      (hvalue _ hz)
  have hsizes := readMany?_append (fun c (_ : c ∈ curves) => readCount?_toString c.size)
    (curves.flatMap (curveLines number))
  have hcurves := readCurves?_append hvertex []
  rw [List.append_nil] at hcurves
  simp [read?, hlines, lines, readMany?, readCount?_toString, hsizes, hcurves, -Nat.toString_eq_repr]

/-- A LINK text can be read by one function, and no two lists of vertices have the same one, if
different coordinates are written as different words. -/
theorem exists_reader (number : α → String) (coordinates : Set α)
    (hword : ∀ a ∈ coordinates, IsWord (number a)) (hinj : Set.InjOn number coordinates) :
    (∃ value : String → Option α, ∀ curves, Over coordinates curves →
      read? value (text number curves) = some (curves.map Curve.points)) ∧
    ∀ curves curves', Over coordinates curves → Over coordinates curves' →
      text number curves = text number curves' →
        curves.length = curves'.length ∧ curves.map Curve.size = curves'.map Curve.size ∧
          curves.map Curve.points = curves'.map Curve.points := by
  classical
  obtain ⟨value, hvalue⟩ : ∃ value : String → Option α,
      ∀ a ∈ coordinates, value (number a) = some a := by
    refine ⟨fun word => if h : ∃ a ∈ coordinates, number a = word then some h.choose else none,
      fun a ha => ?_⟩
    have h : ∃ b ∈ coordinates, number b = number a := ⟨a, ha, rfl⟩
    exact (dif_pos h).trans (congrArg some (hinj h.choose_spec.1 ha h.choose_spec.2))
  refine ⟨⟨value, fun curves => read?_text hword hvalue⟩, fun curves curves' h h' htext => ?_⟩
  have hpoints : curves.map Curve.points = curves'.map Curve.points := by
    rw [← Option.some_inj, ← read?_text hword hvalue h, htext, read?_text hword hvalue h']
  have hsizes := congrArg (List.map List.length) hpoints
  rw [List.map_map, List.map_map] at hsizes
  exact ⟨by simpa using congrArg List.length hpoints, hsizes, hpoints⟩

set_option maxRecDepth 4000 in
/-- In the plain style a curve without vertices and one with two are read back. -/
theorem exists_reader_plain : ∃ value : String → Option Float,
    read? value (write [⟨0, [], false⟩, ⟨1, [⟨0, 1, -0.5⟩, ⟨1, 1, 0⟩], true⟩]) =
      some [[], [⟨0, 1, -0.5⟩, ⟨1, 1, 0⟩]] := by
  have hzero : Decimal.Style.plain.text 0 = "0" := by decide +kernel
  have hone : Decimal.Style.plain.text 1 = "1" := by decide +kernel
  have hhalf : Decimal.Style.plain.text (-0.5) = "-0.5" := by decide +kernel
  have hword : ∀ a ∈ ({0, 1, -0.5} : Set Float), IsWord (Decimal.Style.plain.text a) := by
    rintro a (rfl | rfl | rfl)
    · simp [hzero, IsWord, Text.isBlank, Text.blanks, Text.Ranges.contains]
    · simp [hone, IsWord, Text.isBlank, Text.blanks, Text.Ranges.contains]
    · simp [hhalf, IsWord, Text.isBlank, Text.blanks, Text.Ranges.contains]
  have hinj : Set.InjOn Decimal.Style.plain.text {0, 1, -0.5} := by
    rintro a (rfl | rfl | rfl) b (rfl | rfl | rfl) h <;>
      simp only [hzero, hone, hhalf, String.reduceEq] at h ⊢
  obtain ⟨value, hvalue⟩ := (exists_reader Decimal.Style.plain.text {0, 1, -0.5} hword hinj).1
  exact ⟨value, hvalue _ (by simp [Over])⟩

end DoubleCurve.LinkText
