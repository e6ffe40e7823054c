import DoubleCurve.LocusText
import DoubleCurve.Proofs.Text

/-!
# What stands at the start of a line

`IntegerAt text n` and `PointAt text p` say what a line of a locus text has to look
like to start with an integer or with a point. They are the grammar that
`leadingInt?` and `point?` read (`leadingInt?_eq_some_iff`, `point?_eq_some_iff`):

* an integer stands after white space, with a sign or without, takes all the digits
  there are, and fits 64 bits;
* a point is three words, each of them wholly a number, and all three finite.

Whatever follows on the line does not matter.
-/

namespace DoubleCurve

/-- The digits stand at the start of the text, and no other digit follows them. -/
def DigitsAt (text digits rest : List Char) : Prop :=
  text = digits ++ rest ∧ digits ≠ [] ∧ (∀ c ∈ digits, c.isDigit = true) ∧
    ∀ c ∈ rest.head?, c.isDigit = false

/-- The sign in front of a number multiplies it by the factor. -/
inductive SignAt : (sign : List Char) → (factor : Int) → Prop
  | none : SignAt [] 1
  | plus : SignAt ['+'] 1
  | minus : SignAt ['-'] (-1)

/-- The text is a sign, or none, and the digits of `n`, and what follows. The integer fits 64 bits. -/
def SignedAt (text : List Char) (n : Int) : Prop :=
  ∃ sign factor number digits rest, text = sign ++ number ∧ SignAt sign factor ∧
    DigitsAt number digits rest ∧ n = factor * Nat.ofDigitChars 10 digits 0 ∧
    -0x8000000000000000 ≤ n ∧ n < 0x8000000000000000

/-- The integer `n` stands at the start of the text, after white space. -/
def IntegerAt (text : List Char) (n : Int) : Prop :=
  ∃ blank number, text = blank ++ number ∧ (∀ c ∈ blank, Text.isBlank c = true) ∧ SignedAt number n

/-- The first three words of the text are the coordinates of the point `p`, which are finite. -/
def PointAt (text : List Char) (p : Vec3 Float) : Prop :=
  ∃ x y z afterX afterY afterZ, Text.FirstWord text x afterX ∧ Text.FirstWord afterX y afterY ∧
    Text.FirstWord afterY z afterZ ∧ Decimal.readFloat? x = some p.x ∧
    Decimal.readFloat? y = some p.y ∧ Decimal.readFloat? z = some p.z ∧ p.isFinite = true

namespace Decimal

variable {text number digits rest sign : List Char} {factor n : Int}

theorem splitDigits_of_digitsAt (h : DigitsAt text digits rest) :
    splitDigits text = (digits, rest) := by
  obtain ⟨rfl, -, hdigits, hrest⟩ := h
  have hstop : rest.takeWhile Char.isDigit = [] ∧ rest.dropWhile Char.isDigit = rest := by
    cases rest with
    | nil => exact ⟨rfl, rfl⟩
    | cons c rest => simp [hrest c rfl]
  rw [splitDigits, List.takeWhile_append_of_pos hdigits, List.dropWhile_append_of_pos hdigits,
    hstop.1, hstop.2, List.append_nil]

/-- The digits that are split off are all that stand at the start. -/
theorem digitsAt_splitDigits (h : (splitDigits text).1 ≠ []) :
    DigitsAt text (splitDigits text).1 (splitDigits text).2 :=
  ⟨List.takeWhile_append_dropWhile.symm, h, fun c hc => List.all_eq_true.1 List.all_takeWhile c hc,
    fun _ hc => Text.head?_dropWhile hc⟩

/-- What is split off the text is its sign. -/
theorem exists_signAt (text : List Char) : ∃ sign factor, SignAt sign factor ∧
    text = sign ++ (splitSign text).2 ∧
    ∀ m : Int, (if (splitSign text).1 = true then -m else m) = factor * m := by
  unfold splitSign
  split
  · exact ⟨_, _, .minus, rfl, fun m => by simp⟩
  · exact ⟨_, _, .plus, rfl, fun m => by simp⟩
  · exact ⟨_, _, .none, rfl, fun m => by simp⟩

/-- The sign in front of a digit is split off. -/
theorem splitSign_of_signAt (hsign : SignAt sign factor) (h : DigitsAt number digits rest) :
    (splitSign (sign ++ number)).2 = number ∧
      ∀ m : Int, (if (splitSign (sign ++ number)).1 = true then -m else m) = factor * m := by
  cases hsign with
  | minus => exact ⟨rfl, fun m => by simp [splitSign]⟩
  | plus => exact ⟨rfl, fun m => by simp [splitSign]⟩
  | none =>
    -- a digit is no sign
    obtain ⟨rfl, hne, hdigits, -⟩ := h
    cases digits with
    | nil => exact absurd rfl hne
    | cons c digits =>
      have hc : c.isDigit = true := hdigits c List.mem_cons_self
      have hsplit : splitSign (c :: digits ++ rest) = (false, c :: digits ++ rest) := by
        unfold splitSign
        split
        · rename_i heq
          cases heq
          cases hc
        · rename_i heq
          cases heq
          cases hc
        · rfl
      rw [List.nil_append, hsplit]
      exact ⟨rfl, fun m => by simp⟩

theorem natOfDigits_eq (ds : List Char) : natOfDigits 0 ds = Nat.ofDigitChars 10 ds 0 := by
  rw [Nat.ofDigitChars_eq_foldl, natOfDigits]

/-- The integer read off digits behind a sign, if there are digits. -/
theorem leadingInt?_eq
    (hfactor : ∀ m : Int, (if (splitSign text).1 = true then -m else m) = factor * m) : leadingInt? text =
      if (splitDigits (splitSign text).2).1 = [] then none
      else
        let n := factor * Nat.ofDigitChars 10 (splitDigits (splitSign text).2).1 0
        if -0x8000000000000000 ≤ n ∧ n < 0x8000000000000000 then some n else none := by
  rw [leadingInt?]
  cases hsplit : splitSign text with
  | mk negative number =>
    rw [hsplit] at hfactor
    dsimp only at hfactor ⊢
    split
    · rename_i hnil
      rw [if_pos hnil]
    · rename_i hne
      rw [if_neg hne, hfactor, natOfDigits_eq]

theorem leadingInt?_eq_some_iff : leadingInt? text = some n ↔ SignedAt text n := by
  constructor
  · intro h
    obtain ⟨sign, factor, hsign, htext, hfactor⟩ := exists_signAt text
    rw [leadingInt?_eq hfactor] at h
    split at h
    · cases h
    · rename_i hne
      obtain ⟨hrange, hn⟩ := Option.ite_none_right_eq_some.1 h
      cases hn
      exact ⟨sign, factor, _, _, _, htext, hsign, digitsAt_splitDigits hne, rfl, hrange⟩
  · rintro ⟨sign, factor, number, digits, rest, rfl, hsign, hdigits, rfl, hrange⟩
    obtain ⟨hnumber, hfactor⟩ := splitSign_of_signAt hsign hdigits
    rw [leadingInt?_eq hfactor, hnumber, splitDigits_of_digitsAt hdigits, if_neg hdigits.2.1]
    exact if_pos hrange

end Decimal

namespace LocusText

variable {line : String} {n : Int} {p : Vec3 Float}

theorem isBlank_of_signedAt {number : List Char} (h : SignedAt number n) :
    ∀ c ∈ number.head?, Text.isBlank c = false := by
  obtain ⟨sign, factor, number, digits, rest, rfl, hsign, ⟨rfl, hne, hdigits, -⟩, -⟩ := h
  cases hsign with
  | plus => simp [Text.isBlank, Text.blanks, Text.Ranges.contains]
  | minus => simp [Text.isBlank, Text.blanks, Text.Ranges.contains]
  | none =>
    cases digits with
    | nil => exact absurd rfl hne
    | cons d digits =>
      intro c hc
      obtain rfl : d = c := Option.some.inj hc
      exact Text.isBlank_of_isDigit (hdigits d List.mem_cons_self)

/-- An integer is found at the start of a line exactly if one stands there. -/
theorem leadingInt?_eq_some_iff : leadingInt? line = some n ↔ IntegerAt line.toList n := by
  rw [leadingInt?, Decimal.leadingInt?_eq_some_iff]
  constructor
  · intro h
    exact ⟨_, _, List.takeWhile_append_dropWhile.symm,
      fun c hc => List.all_eq_true.1 List.all_takeWhile c hc, h⟩
  · rintro ⟨blank, number, hline, hblank, h⟩
    have hhead := isBlank_of_signedAt h
    rw [hline, Text.trimStart, List.dropWhile_append_of_pos hblank]
    cases number with
    | nil => exact h
    | cons c number => rwa [List.dropWhile_cons_of_neg (by simp [hhead c rfl])]

/-- A point is found on a line exactly if one stands there. -/
theorem point?_eq_some_iff : point? line = some p ↔ PointAt line.toList p := by
  constructor
  · intro h
    unfold point? at h
    split at h
    · rename_i x y z more hwords
      obtain ⟨afterX, hx, hwords⟩ := Text.words_eq_cons_iff.1 hwords
      obtain ⟨afterY, hy, hwords⟩ := Text.words_eq_cons_iff.1 hwords
      obtain ⟨afterZ, hz, -⟩ := Text.words_eq_cons_iff.1 hwords
      simp only [Option.bind_eq_bind, Option.bind_eq_some_iff] at h
      obtain ⟨px, hpx, py, hpy, pz, hpz, h⟩ := h
      obtain ⟨hfinite, hp⟩ := Option.ite_none_right_eq_some.1 h
      cases hp
      exact ⟨x, y, z, afterX, afterY, afterZ, hx, hy, hz, hpx, hpy, hpz, hfinite⟩
    · cases h
  · rintro ⟨x, y, z, afterX, afterY, afterZ, hx, hy, hz, hpx, hpy, hpz, hfinite⟩
    rw [point?, hx.words_eq, hy.words_eq, hz.words_eq]
    simp only [hpx, hpy, hpz, Option.bind_eq_bind, Option.bind_some]
    exact if_pos hfinite

end LocusText

end DoubleCurve
