import DoubleCurve.Proofs.LocusText.Starts
import Mathlib.Data.List.Basic

/-!
# Sections of a locus text

The lines of a locus text are divided without reading them one after the other:

* `faceLines` are the lines before the first that starts with a negative integer;
* `afterFaces` are the lines after that one, and `count` is the integer at the start
  of the first of them;
* `pointLines` is the longest run of at most so many points directly after it.

`content` is what these sections say, and `notice?` is what is wrong with them.
Reading asks for no more than the first `need` lines, one past the end of the text
included, and gives just that (`run_ofLines`), unless one of them is no text. What
stands on later lines does not matter (`sections_take_append`).
-/

namespace DoubleCurve.LocusText

/-- The integer at the start of a line, if there is one. -/
def Line.integer? (line : Line) : Option Int := line.bind leadingInt?

/-- The point at the start of a line, if there is one. -/
def Line.point? (line : Line) : Option (Vec3 Float) := line.bind LocusText.point?

/-- Whether the line ends the numbers of faces. -/
def Line.endsFaces (line : Line) : Bool := line.integer?.any (· < 0)

/-- The lines before the one that ends the numbers of faces. -/
def faceLines (lines : List Line) : List Line := lines.takeWhile (!·.endsFaces)

/-- The lines after the one that ends the numbers of faces. -/
def afterFaces (lines : List Line) : List Line := (lines.dropWhile (!·.endsFaces)).drop 1

/-- The number of points, or zero where none is given. -/
def count (lines : List Line) : Nat :=
  (((afterFaces lines).head?.bind Line.integer?).getD 0).toNat

/-- The longest run of at most `n` points at the start of the lines. -/
def pointRun (n : Nat) (lines : List Line) : List Line := (lines.take n).takeWhile (·.point?.isSome)

/-- The longest run of points, as many as there should be at most, after the number of them. -/
def pointLines (lines : List Line) : List Line :=
  pointRun (count lines) ((afterFaces lines).drop 1)

/-- The number of lines that reading asks for: those of the faces with the one that ends them, the
number of points, and the points, up to the first line that is none. -/
def need (lines : List Line) : Nat :=
  (faceLines lines).length + 2 + min (count lines) ((pointLines lines).length + 1)

/-- What the sections say. -/
def content (lines : List Line) : LocusText where
  seeds := (faceLines lines).filterMap fun line => line.integer?.map Int.toNat
  endpoints := (pointLines lines).filterMap Line.point?

/-- The text of a line, where nothing stands on a line that does not exist. -/
def textAt (lines : List Line) (index : Nat) : String := (lines[index]?.join).getD ""

/-- What is wrong with the sections: a number of points that is none, or a point that is missing. -/
def notice? (lines : List Line) : Option (Notice Float) :=
  match (afterFaces lines).head? with
  | none => none
  | some line =>
    match line.integer? with
    | none => some (.warning (.malformedLine ((faceLines lines).length + 2) "endpoint count"
        (line.getD "")))
    | some n =>
      let index := (pointLines lines).length
      if index < n.toNat then
        let number := (faceLines lines).length + index + 3
        some (.warning (.malformedLine number s!"endpoint {index}/{n.toNat}"
          (textAt lines (number - 1))))
      else none

variable {line : Line} {lines rest : List Line} {n : Nat}

/-! ## Sections line by line -/

theorem faceLines_cons (line : Line) (lines : List Line) :
    faceLines (line :: lines) = if line.endsFaces then [] else line :: faceLines lines := by
  cases h : line.endsFaces <;> simp [faceLines, h]

theorem afterFaces_cons (line : Line) (lines : List Line) :
    afterFaces (line :: lines) = if line.endsFaces then lines else afterFaces lines := by
  cases h : line.endsFaces <;> simp [afterFaces, h]

theorem pointRun_cons (n : Nat) (line : Line) (lines : List Line) : pointRun (n + 1) (line :: lines) =
    if line.point?.isSome then line :: pointRun n lines else [] := by
  cases h : line.point?.isSome <;> simp [pointRun, h]

theorem length_pointRun_le (n : Nat) (lines : List Line) : (pointRun n lines).length ≤ n :=
  Nat.le_trans (List.takeWhile_prefix _).length_le (List.length_take_le n lines)

theorem count_eq {more : List Line} (h : afterFaces lines = line :: more) :
    count lines = (line.integer?.getD 0).toNat := by
  rw [count, h, List.head?_cons, Option.bind_some]

theorem pointLines_eq {more : List Line} (h : afterFaces lines = line :: more) :
    pointLines lines = pointRun (line.integer?.getD 0).toNat more := by
  rw [pointLines, count_eq h, h, List.drop_one, List.tail_cons]

/-- Without a line for the number of points there are none. -/
theorem pointLines_eq_nil (h : afterFaces lines = []) : pointLines lines = [] := by
  rw [pointLines, h, pointRun, List.drop_nil, List.take_nil, List.takeWhile_nil]

/-- The lines are those of the faces and, if one ends them, that one and those after it. -/
theorem lines_cases (lines : List Line) :
    lines = faceLines lines ∧ afterFaces lines = [] ∨
      ∃ last : Line, last.endsFaces = true ∧ lines = faceLines lines ++ last :: afterFaces lines := by
  induction lines with
  | nil => exact .inl ⟨rfl, rfl⟩
  | cons line lines ih =>
    rw [faceLines_cons, afterFaces_cons]
    cases hends : line.endsFaces with
    | true => exact .inr ⟨line, hends, rfl⟩
    | false =>
      rcases ih with ⟨hlines, hafter⟩ | ⟨last, hlast, hlines⟩
      · exact .inl ⟨congrArg (line :: ·) hlines, hafter⟩
      · exact .inr ⟨last, hlast, congrArg (line :: ·) hlines⟩

/-- Of the first lines, those of the faces and the lines after them matter. -/
theorem mem_take_iff (n : Nat) (lines : List Line) :
    none ∈ lines.take ((faceLines lines).length + 1 + n) ↔
      none ∈ faceLines lines ∨ none ∈ (afterFaces lines).take n := by
  rcases lines_cases lines with ⟨hlines, hafter⟩ | ⟨last, hlast, hlines⟩
  · rw [hafter, List.take_of_length_le (by rw [← hlines]; omega), ← hlines]
    simp
  · have hnone : last ≠ none := by
      rintro rfl
      cases hlast
    have htake := congrArg (List.take ((faceLines lines).length + (1 + n))) hlines
    rw [List.take_length_add_append, Nat.add_comm 1, List.take_succ_cons] at htake
    rw [Nat.add_assoc, Nat.add_comm 1, htake]
    simp [hnone.symm]

/-! ## What is read -/

theorem readFaces_eq (number : Nat) (lines : List Line) : ∃ k,
    readFaces number lines = (if none ∈ faceLines lines then throw .undecodable
      else return ((faceLines lines).filterMap fun line => line.integer?.map Int.toNat,
        ⟨k, afterFaces lines⟩)) ∧
    (afterFaces lines ≠ [] → k = number + (faceLines lines).length + 1) := by
  induction lines generalizing number with
  | nil => exact ⟨number, rfl, fun h => absurd rfl h⟩
  | cons line lines ih =>
    obtain ⟨k, hread, hk⟩ := ih (number + 1)
    rw [faceLines_cons, afterFaces_cons]
    cases line with
    | none => exact ⟨number + (faceLines (none :: lines)).length + 1, rfl, fun _ => rfl⟩
    | some text =>
      have hends : Line.endsFaces (some text) = (leadingInt? text).any (· < 0) := rfl
      rw [readFaces, Line.read, pure_bind]
      cases hint : leadingInt? text with
      | none =>
        rw [hint, Option.any_none] at hends
        refine ⟨k, ?_, fun h => ?_⟩
        · simp [hends, hread, hint, Line.integer?]
        · rw [hends] at h ⊢
          rw [hk h]
          simp
          omega
      | some n =>
        rw [hint, Option.any_some] at hends
        by_cases hn : n < 0
        · rw [decide_eq_true hn] at hends
          refine ⟨number + 1, ?_, fun _ => ?_⟩
          · simp [hends, hn]
          · simp [hends]
        · rw [decide_eq_false hn] at hends
          refine ⟨k, ?_, fun h => ?_⟩
          · simp [hends, hread, hint, hn, Line.integer?]
            split <;> rfl
          · rw [hends] at h ⊢
            rw [hk h]
            simp
            omega

/-- The points are read from their lines, if all of these are text and as many as expected. Otherwise
reading stops at the first line that is no point, and that is noted. -/
theorem readPoints_eq (total number n : Nat) (lines : List Line) :
    readPoints total number n lines =
      if none ∈ lines.take (min n ((pointRun n lines).length + 1)) then throw .undecodable
      else if (pointRun n lines).length < n then do
        noteMissingPoint (number + (pointRun n lines).length) (total - (n - (pointRun n lines).length))
          total (textAt lines (pointRun n lines).length)
        return (pointRun n lines).filterMap Line.point?
      else return (pointRun n lines).filterMap Line.point? := by
  induction n generalizing number lines with
  | zero => simp [readPoints, pointRun]
  | succ n ih =>
    cases lines with
    | nil => simp [readPoints, pointRun, textAt]
    | cons line lines =>
      rw [pointRun_cons]
      cases line with
      | none => simp [readPoints, Line.read, Line.point?]
      | some text =>
        rw [readPoints, Line.read, pure_bind]
        cases hpoint : point? text with
        | none => simp [Line.point?, hpoint, textAt]
        | some p =>
          have htext (i : Nat) : textAt (some text :: lines) (i + 1) = textAt lines i := rfl
          have hpoints (run : List Line) :
              (some text :: run).filterMap Line.point? = p :: run.filterMap Line.point? :=
            List.filterMap_cons_some hpoint
          simp only [hpoint, ih, Line.point?, Option.bind_some, Option.isSome_some, if_true, hpoints,
            List.length_cons, Nat.add_min_add_right, List.take_succ_cons, List.mem_cons, reduceCtorEq,
            false_or, Nat.add_lt_add_iff_right, Nat.add_sub_add_right, htext,
            Nat.add_right_comm number 1, Nat.add_assoc number]
          split
          · rfl
          · split <;> simp

/-- The text of a line behind the one that ends the faces. -/
theorem textAt_length_add (h : afterFaces lines ≠ []) (index : Nat) :
    textAt lines ((faceLines lines).length + (index + 1)) = textAt (afterFaces lines) index := by
  rcases lines_cases lines with ⟨-, hafter⟩ | ⟨last, -, hlines⟩
  · exact absurd hafter h
  · have hget := congrArg (·[(faceLines lines).length + (index + 1)]?) hlines
    rw [List.getElem?_append_right (Nat.le_add_right _ _), Nat.add_sub_cancel_left] at hget
    rw [textAt, textAt, hget]
    rfl

/-- The text of a line behind the number of points. -/
theorem textAt_afterFaces {more : List Line} (h : afterFaces lines = line :: more) (index : Nat) :
    textAt lines ((faceLines lines).length + index + 2) = textAt more index := by
  rw [Nat.add_assoc, textAt_length_add (h ▸ List.cons_ne_nil _ _), h]
  rfl

/-- Where all the points are still to be read, the first that is missing is noted with its number. -/
theorem run_readPoints (number n : Nat) (lines : List Line) (found : Array (Notice Float)) :
    (readPoints n number n lines).run.run found =
      if none ∈ lines.take (min n ((pointRun n lines).length + 1)) then (.error .undecodable, found)
      else
        (.ok ((pointRun n lines).filterMap Line.point?), found ++
          (if (pointRun n lines).length < n then
            some (.warning (.malformedLine (number + (pointRun n lines).length)
              s!"endpoint {(pointRun n lines).length}/{n}" (textAt lines (pointRun n lines).length)))
          else none).toArray) := by
  rw [readPoints_eq, Nat.sub_sub_self (length_pointRun_le n lines)]
  split
  · rfl
  · split <;> rfl

/-- The number of points and the points are read from as many lines after those of the faces as reading
asks for. -/
theorem run_readCounted {k : Nat}
    (hk : afterFaces lines ≠ [] → k = 1 + (faceLines lines).length + 1)
    (found : Array (Notice Float)) : (readCounted ⟨k, afterFaces lines⟩).run.run found =
      if none ∈ (afterFaces lines).take (min (count lines) ((pointLines lines).length + 1) + 1) then
        (.error .undecodable, found)
      else (.ok (content lines).endpoints, found ++ (notice? lines).toArray) := by
  cases hafter : afterFaces lines with
  | nil =>
    simp only [content, pointLines_eq_nil hafter, notice?, hafter]
    rfl
  | cons line more =>
    rw [hafter] at hk
    cases line with
    | none =>
      rw [List.take_succ_cons, if_pos List.mem_cons_self]
      rfl
    | some text =>
      have hnumber : k = (faceLines lines).length + 2 := by
        rw [hk (List.cons_ne_nil _ _)]
        omega
      simp only [readCounted, Line.read, pure_bind, hnumber, List.take_succ_cons, List.mem_cons,
        reduceCtorEq, false_or]
      have hint : Line.integer? (some text) = leadingInt? text := rfl
      rw [content, notice?, count_eq hafter, pointLines_eq hafter, hafter, List.head?_cons]
      simp only [hint]
      cases leadingInt? text with
      | none => rfl
      | some n =>
        have htext := textAt_afterFaces hafter (pointRun n.toNat more).length
        have hline : (faceLines lines).length + 2 + 1 + (pointRun n.toNat more).length =
            (faceLines lines).length + (pointRun n.toNat more).length + 3 := by
          omega
        simp only [run_readPoints, Option.getD_some, Nat.reduceSubDiff, htext, hline]

/-- A text is read from as many lines as reading asks for, if all of these are text. Then the result is
what the sections say, and what is wrong with them is noted. Otherwise nothing is noted. -/
theorem run_ofLines (lines : List Line) (found : Array (Notice Float)) :
    (ofLines lines).run.run found = if none ∈ lines.take (need lines) then (.error .undecodable, found)
      else (.ok (content lines), found ++ (notice? lines).toArray) := by
  obtain ⟨k, hfaces, hk⟩ := readFaces_eq 1 lines
  have hneed : need lines = (faceLines lines).length + 1 +
      (min (count lines) ((pointLines lines).length + 1) + 1) := by
    rw [need]
    omega
  simp only [hneed, mem_take_iff, ofLines, hfaces]
  by_cases hnone : none ∈ faceLines lines
  · rw [if_pos hnone, if_pos (.inl hnone)]
    rfl
  · rw [if_neg hnone, pure_bind]
    simp only [hnone, false_or, bind_pure_comp, ExceptT.run_map, StateT.run_map,
      run_readCounted hk found]
    split <;> rfl

/-! ## What is not read -/

/-- A run of points is told from its lines and the one that ends it. -/
theorem pointRun_take_append {n : Nat} {lines : List Line}
    (h : min n ((pointRun n lines).length + 1) ≤ lines.length) (rest : List Line) :
    pointRun n (lines.take (min n ((pointRun n lines).length + 1)) ++ rest) = pointRun n lines := by
  induction n generalizing lines with
  | zero => rfl
  | succ n ih =>
    cases lines with
    | nil => exact absurd h (by simp)
    | cons line lines =>
      rw [pointRun_cons] at h ⊢
      cases hpoint : line.point?.isSome with
      | false => simp [pointRun_cons, hpoint]
      | true =>
        rw [hpoint, if_pos rfl, List.length_cons, List.length_cons, Nat.add_min_add_right] at h
        rw [if_pos rfl, List.length_cons, Nat.add_min_add_right, List.take_succ_cons,
          List.cons_append, pointRun_cons, hpoint, if_pos rfl, ih (Nat.le_of_succ_le_succ h)]

/-- Sections are told from the line that ends the faces. -/
theorem sections_append {faces : List Line} {last : Line}
    (hfaces : ∀ line ∈ faces, line.endsFaces = false) (hlast : last.endsFaces = true)
    (after : List Line) : faceLines (faces ++ last :: after) = faces ∧
      afterFaces (faces ++ last :: after) = after := by
  induction faces with
  | nil => simp [faceLines_cons, afterFaces_cons, hlast]
  | cons line faces ih =>
    obtain ⟨hline, hfaces⟩ := List.forall_mem_cons.1 hfaces
    simp [faceLines_cons, afterFaces_cons, hline, ih hfaces]

theorem endsFaces_of_mem_faceLines (h : line ∈ faceLines lines) : line.endsFaces = false := by
  simpa using List.all_eq_true.1 List.all_takeWhile line h

/-- Reading stops at a line only if there is one for the number of points. -/
theorem exists_afterFaces (h : need lines ≤ lines.length) : ∃ last line more,
    last.endsFaces = true ∧ afterFaces lines = line :: more ∧
      lines = faceLines lines ++ last :: line :: more ∧
      min (count lines) ((pointLines lines).length + 1) ≤ more.length := by
  rcases lines_cases lines with ⟨hlines, -⟩ | ⟨last, hlast, hlines⟩
  · have hlength := congrArg List.length hlines
    rw [need] at h
    omega
  · have hlength := congrArg List.length hlines
    rw [List.length_append, List.length_cons] at hlength
    rw [need] at h
    cases hafter : afterFaces lines with
    | nil =>
      rw [hafter, List.length_nil] at hlength
      omega
    | cons line more =>
      rw [hafter] at hlines
      rw [hafter, List.length_cons] at hlength
      exact ⟨last, line, more, hlast, rfl, hlines, by omega⟩

/-- If reading stops at a line, the sections are told from the lines up to it. -/
theorem sections_take_append (h : need lines ≤ lines.length) (rest : List Line) :
    need (lines.take (need lines) ++ rest) = need lines ∧
      content (lines.take (need lines) ++ rest) = content lines ∧
      notice? (lines.take (need lines) ++ rest) = notice? lines := by
  obtain ⟨last, line, more, hlast, hafter, hlines, hmore⟩ := exists_afterFaces h
  have htake := congrArg (List.take (need lines)) hlines
  nth_rewrite 2 [need] at htake
  rw [Nat.add_assoc, List.take_length_add_append, Nat.add_comm 2, List.take_succ_cons,
    List.take_succ_cons] at htake
  rw [htake, List.append_assoc, List.cons_append, List.cons_append]
  obtain ⟨hfaces', hafter'⟩ := sections_append
    (fun line (hline : line ∈ faceLines lines) => endsFaces_of_mem_faceLines hline) hlast
    (line :: (more.take (min (count lines) ((pointLines lines).length + 1)) ++ rest))
  have htext' := textAt_afterFaces hafter' (pointLines lines).length
  rw [hfaces'] at htext'
  generalize faceLines lines ++ last :: line ::
    (more.take (min (count lines) ((pointLines lines).length + 1)) ++ rest) = short
    at hfaces' hafter' htext' ⊢
  have hcount' : count short = count lines := (count_eq hafter').trans (count_eq hafter).symm
  have hpoints' : pointLines short = pointLines lines := by
    rw [count_eq hafter, pointLines_eq hafter] at hmore hafter'
    rw [pointLines_eq hafter', pointLines_eq hafter, pointRun_take_append hmore]
  refine ⟨?_, ?_, ?_⟩
  · rw [need, hfaces', hcount', hpoints', need]
  · rw [content, hfaces', hpoints', content]
  · have hnumber (index : Nat) : (faceLines lines).length + index + 3 - 1 =
        (faceLines lines).length + index + 2 := rfl
    simp only [notice?, hfaces', hpoints', hafter', hafter, List.head?_cons, hnumber, htext',
      textAt_afterFaces hafter]
    cases hint : line.integer? with
    | none => rfl
    | some n =>
      have hcount : count lines = n.toNat := by rw [count_eq hafter, hint, Option.getD_some]
      dsimp only
      split
      · rw [hcount] at hmore
        rw [hcount, textAt, textAt, List.getElem?_append_left (by rw [List.length_take]; omega),
          List.getElem?_take_of_lt (by omega)]
      · rfl

/-- If reading stops at a line, later lines do not matter. -/
theorem run_ofLines_congr {lines lines' : List Line} (h : need lines ≤ lines.length)
    (htake : lines'.take (need lines) = lines.take (need lines)) (found : Array (Notice Float)) :
    (ofLines lines').run.run found = (ofLines lines).run.run found := by
  obtain ⟨hneed, hcontent, hnotice⟩ := sections_take_append h (lines'.drop (need lines))
  rw [← htake, List.take_append_drop] at hneed hcontent hnotice
  simp only [run_ofLines, hneed, hcontent, hnotice, htake]

/-! ## Texts -/

theorem run_ofLines_some (texts : List String) (found : Array (Notice Float)) :
    (ofLines (texts.map some)).run.run found =
      (.ok (content (texts.map some)), found ++ (notice? (texts.map some)).toArray) := by
  rw [run_ofLines, if_neg fun hmem => ?_]
  obtain ⟨_, -, h⟩ := List.mem_map.1 (List.mem_of_mem_take hmem)
  cases h

theorem readString_eq (s : String) (found : Array (Notice Float)) :
    readString s found = (content ((Text.lines s).map some),
      found ++ (notice? ((Text.lines s).map some)).toArray) := by
  rw [readString, run_ofLines_some]

/-- The numbers of the faces are the integers at the start of their lines. -/
theorem map_seeds_content (lines : List Line) :
    (content lines).seeds.map Int.ofNat = (faceLines lines).filterMap Line.integer? := by
  rw [content, List.map_filterMap]
  refine List.filterMap_congr fun line hline => ?_
  have hends := endsFaces_of_mem_faceLines hline
  rw [Line.endsFaces] at hends
  cases hint : line.integer? with
  | none => rfl
  | some n =>
    rw [hint, Option.any_some, decide_eq_false_iff_not, Int.not_lt] at hends
    exact congrArg some (Int.toNat_of_nonneg hends)

theorem isSome_of_mem_pointRun {n : Nat} (h : line ∈ pointRun n lines) : line.point?.isSome = true :=
  List.all_eq_true.1 List.all_takeWhile line h

theorem map_filterMap_pointRun (n : Nat) (lines : List Line) :
    ((pointRun n lines).filterMap Line.point?).map some = (pointRun n lines).map Line.point? := by
  rw [List.map_filterMap, ← List.filterMap_eq_map]
  refine List.filterMap_congr fun line hline => ?_
  obtain ⟨p, hp⟩ := Option.isSome_iff_exists.1 (isSome_of_mem_pointRun hline)
  rw [Function.comp_apply, hp, Option.map_some]

/-- What stands for an integer and for a point at the start of a line is told by the grammar. The seeds
are the integers at the start of the lines before the first that starts with a negative one. If a line
follows that starts with an integer, the endpoints are those of the longest run of at most so many
points behind it, and if there are fewer points, the line where the run ends is reported, with its
number. A line that follows and does not start with an integer is reported as well, and nothing else
is. Lines behind those that reading asks for do not matter. -/
theorem sections_of_readString (s : String) (found : Array (Notice Float)) :
    (∀ text n, leadingInt? text = some n ↔ IntegerAt text.toList n) ∧
    (∀ text p, point? text = some p ↔ PointAt text.toList p) ∧
    let lines : List Line := (Text.lines s).map some
    let (content, notices) := readString s found
    content.seeds.map Int.ofNat = (faceLines lines).filterMap Line.integer? ∧
    (afterFaces lines = [] → content.endpoints = [] ∧ notices = found) ∧
    (∀ line more, afterFaces lines = line :: more →
      (line.integer? = none → content.endpoints = [] ∧
        notices = found.push (.warning (.malformedLine ((faceLines lines).length + 2) "endpoint count"
          (textAt lines ((faceLines lines).length + 1))))) ∧
      ∀ n, line.integer? = some n →
        let run := pointRun n.toNat more
        content.endpoints.map some = run.map Line.point? ∧
        notices = if run.length < n.toNat then
          found.push (.warning (.malformedLine ((faceLines lines).length + run.length + 3)
            s!"endpoint {run.length}/{n.toNat}"
            (textAt lines ((faceLines lines).length + run.length + 2))))
        else found) ∧
    ∀ t, need lines ≤ lines.length →
      (Text.lines t).take (need lines) = (Text.lines s).take (need lines) →
        readString t found = readString s found := by
  refine ⟨fun text n => leadingInt?_eq_some_iff, fun text p => point?_eq_some_iff, ?_⟩
  intro lines
  have hread : readString s found = (content lines, found ++ (notice? lines).toArray) :=
    readString_eq s found
  rw [hread]
  refine ⟨map_seeds_content lines, fun hafter => ?_, fun line more hafter => ⟨fun hint => ?_,
    fun n hint => ?_⟩, fun t hneed htake => ?_⟩
  · rw [content, notice?, pointLines_eq_nil hafter, hafter]
    exact ⟨rfl, rfl⟩
  · have htext := textAt_length_add (hafter ▸ List.cons_ne_nil _ _) 0
    simp only [content, notice?, pointLines_eq hafter, hafter, List.head?_cons, hint, htext]
    exact ⟨rfl, rfl⟩
  · simp only [content, notice?, pointLines_eq hafter, hafter, List.head?_cons, hint,
      Option.getD_some]
    refine ⟨map_filterMap_pointRun n.toNat more, ?_⟩
    split <;> rfl
  · have hlines : ((Text.lines t).map some).take (need lines) = lines.take (need lines) := by
      rw [← List.map_take, htake, List.map_take]
    rw [← hread, readString, run_ofLines_congr hneed hlines]
    rfl

end DoubleCurve.LocusText
