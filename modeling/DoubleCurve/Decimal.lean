/-!
# Decimal numbers

Doubles are written and read as decimal numbers. `Magnitude.shortest` finds the
fewest digits that identify a double, `Style.text` and `fixed` write it, and
`readFloat?` reads it. All of it is exact arithmetic on natural numbers, so that
what is printed of a double depends on its value alone.
-/

namespace DoubleCurve.Decimal

/-! ## Doubles as exact numbers

A finite double is a natural number times a power of two. `Magnitude.ofBits`
reads that number off the bits, and `roundDiv` rounds an exact quotient to a
natural number. Both are exact, so that what is printed of a double depends on
its value alone.
-/

/-- The absolute value of a finite double, `mantissa * 2 ^ exponent`. -/
structure Magnitude where
  /-- The binary digits. -/
  mantissa : Nat
  /-- The power of two they count. -/
  exponent : Int
  /-- Whether the next smaller double is only half as far away as the next larger one. -/
  narrowBelow : Bool
deriving DecidableEq, Repr

/-- The magnitude of the finite double with these bits. -/
def Magnitude.ofBits (bits : UInt64) : Magnitude :=
  let field := ((bits >>> 52) &&& 0x7FF).toNat
  let fraction := (bits &&& 0xFFFFFFFFFFFFF).toNat
  if field = 0 then ⟨fraction, -1074, false⟩
  else ⟨0x10000000000000 + fraction, field - 1075, fraction == 0 && field != 1⟩

/-- Whether the sign bit is set; it is for a negative zero. -/
def isNegative (x : Float) : Bool := x.toBits >>> 63 != 0

/-- Which of two equally close candidates is taken. -/
inductive Tie where
  /-- The one whose last digit is even. -/
  | toEven
  /-- The greater one. -/
  | up
deriving DecidableEq, Repr

/-- The natural number closest to `num / den`. -/
def roundDiv (tie : Tie) (num den : Nat) : Nat :=
  let quotient := num / den
  match compare (2 * (num % den)) den, tie with
  | .lt, _ => quotient
  | .gt, _ => quotient + 1
  | .eq, .up => quotient + 1
  | .eq, .toEven => if quotient % 2 = 0 then quotient else quotient + 1

/-- The decimal digits of `n`, most significant first; `0` has the one digit zero. -/
def digits (n : Nat) : List Char := Nat.toDigits 10 n

/-! ## The fewest digits that identify a double

A double stands for the real numbers that round to it. `Magnitude.shortest` is
the decimal in that range with the fewest digits and, among those, the closest
to the double. All three of the double and the ends of its range are whole
multiples of one power of ten, so the search compares natural numbers: it tries
coarse powers of ten first and ends at the latest with the double itself.
-/

/-- The number `digits * 10 ^ exponent`. -/
structure Scaled where
  /-- The digits, as one number. -/
  digits : Nat
  /-- The power of ten they count. -/
  exponent : Int
deriving DecidableEq, Repr

namespace Scaled

/-- Drops the zeros at the end of the digits. -/
def trim (d : Scaled) : Scaled :=
  if d.digits = 0 then ⟨0, 0⟩
  else if d.digits % 10 = 0 then trim ⟨d.digits / 10, d.exponent + 1⟩
  else d
termination_by d.digits
decreasing_by omega

end Scaled

/-- The reals that round to one double, in units of `10 ^ scale`. -/
structure Interval where
  /-- The lower end. -/
  low : Nat
  /-- The double itself. -/
  value : Nat
  /-- The upper end. -/
  high : Nat
  /-- Whether the ends belong to the interval. -/
  closed : Bool
  /-- The power of ten that is counted. -/
  scale : Int
deriving DecidableEq, Repr

namespace Interval

/-- Whether the natural number `n` of units lies in the interval. -/
def contains (r : Interval) (n : Nat) : Bool :=
  if r.closed then decide (r.low ≤ n) && decide (n ≤ r.high)
  else decide (r.low < n) && decide (n < r.high)

/-- The multiple of `step` in the interval that is closest to the double, counted in steps. Only
the two multiples around the double can be. -/
def closest? (r : Interval) (tie : Tie) (step : Nat) : Option Nat :=
  let below := r.value / step
  match r.contains (below * step), r.contains ((below + 1) * step) with
  | false, false => none
  | true, false => some below
  | false, true => some (below + 1)
  | true, true => some (roundDiv tie r.value step)

/-- The closest multiple of the coarsest power of ten, up to `10 ^ places`, of which a multiple
lies in the interval. -/
def coarsest (r : Interval) (tie : Tie) : Nat → Scaled
  | 0 => ⟨r.value, r.scale⟩
  | places + 1 =>
    match r.closest? tie (Nat.pow 10 (places + 1)) with
    | some n => ⟨n, r.scale + (places + 1)⟩
    | none => r.coarsest tie places

end Interval

namespace Magnitude

/-- The interval of the reals that round to this double. They reach half way to its neighbours,
and the half way points belong to the double with the even mantissa. -/
def interval (x : Magnitude) : Interval :=
  let power := x.exponent - 2
  let unit := Nat.pow 2 power.toNat * Nat.pow 5 (-power).toNat
  { low := (4 * x.mantissa - if x.narrowBelow then 1 else 2) * unit
    value := 4 * x.mantissa * unit
    high := (4 * x.mantissa + 2) * unit
    closed := x.mantissa % 2 == 0
    scale := min power 0 }

/-- The decimal with the fewest digits that rounds to this double, and the closest to it of those.
The zero is left to the caller. -/
def shortest (x : Magnitude) (tie : Tie) : Scaled :=
  let r := x.interval
  (r.coarsest tie ((digits r.value).length - 1)).trim

end Magnitude

/-! ## Numbers as text

How a double is written is decided by a `Style`: where the decimal point goes,
what a whole number looks like, and what stands for what is no finite number.
`Style.text` writes the fewest digits that identify the double, and `fixed` a
set number of places after the point.
-/

/-- The decisions of a number format. -/
structure Style where
  /-- The exponents of the leading digit, from the first up to but not including the second, for
  which no power of ten is written. If there are none, it never is. -/
  positional : Option (Int × Int)
  /-- What follows a whole number. -/
  wholeEnding : String
  /-- Which of two equally short and close decimals is taken. -/
  tie : Tie
  /-- What stands for a value that is no number. -/
  notANumber : String
  /-- What stands for infinity. -/
  infinity : String
  /-- What stands for negative infinity. -/
  negativeInfinity : String

namespace Style

/-- Numbers within sentences and tables: always positional, whole numbers without a point. -/
def plain : Style where
  positional := none
  wholeEnding := ""
  tie := .up
  notANumber := "NaN"
  infinity := "inf"
  negativeInfinity := "-inf"

/-- A string of `n` zeros. -/
def zeros (n : Nat) : List Char := List.replicate n '0'

/-- The digits with the point set after the one that counts `10 ^ 0`, where the first of them counts
`10 ^ lead`. -/
def positionalText (s : Style) (digits : List Char) (lead : Int) : String :=
  if lead < 0 then
    "0." ++ String.ofList (zeros (-lead - 1).toNat ++ digits)
  else
    let whole := lead.toNat + 1
    if digits.length ≤ whole then
      String.ofList (digits ++ zeros (whole - digits.length)) ++ s.wholeEnding
    else
      String.ofList (digits.take whole) ++ "." ++ String.ofList (digits.drop whole)

/-- The digits with the point after the first of them, and the power of ten with its sign. -/
def scientificText (digits : List Char) (lead : Int) : String :=
  let fraction := digits.drop 1
  let mantissa := String.ofList (digits.take 1) ++
    if fraction.isEmpty then "" else "." ++ String.ofList fraction
  let sign := if lead < 0 then "-" else "+"
  mantissa ++ "e" ++ sign ++ toString lead.natAbs

/-- The text of a magnitude that is not zero. -/
def magnitudeText (s : Style) (x : Magnitude) : String :=
  let shortest := x.shortest s.tie
  let ds := digits shortest.digits
  let lead := shortest.exponent + (ds.length - 1)
  match s.positional with
  | none => s.positionalText ds lead
  | some (first, last) =>
    if first ≤ lead ∧ lead < last then s.positionalText ds lead else scientificText ds lead

/-- The text of a double. A negative zero keeps its sign. -/
def text (s : Style) (x : Float) : String :=
  if x.isNaN then s.notANumber
  else if x.isInf then if isNegative x then s.negativeInfinity else s.infinity
  else
    let magnitude := Magnitude.ofBits x.toBits
    let sign := if isNegative x then "-" else ""
    if magnitude.mantissa = 0 then sign ++ "0" ++ s.wholeEnding
    else sign ++ s.magnitudeText magnitude

end Style

/-- The double `x` with `places` digits after the point. The exact value is rounded, and a half goes
to the even neighbour. -/
def fixed (places : Nat) (x : Float) : String :=
  if x.isNaN then "NaN"
  else
    let sign := if isNegative x then "-" else ""
    if x.isInf then sign ++ "inf"
    else
      let magnitude := Magnitude.ofBits x.toBits
      let num := magnitude.mantissa * Nat.pow 2 magnitude.exponent.toNat * Nat.pow 10 places
      let ds := digits (roundDiv .toEven num (Nat.pow 2 (-magnitude.exponent).toNat))
      let ds := Style.zeros (places + 1 - ds.length) ++ ds
      let whole := ds.length - places
      let fraction := if places = 0 then "" else "." ++ String.ofList (ds.drop whole)
      sign ++ String.ofList (ds.take whole) ++ fraction

/-! ## Reading decimal numbers

`readFloat?` reads a whole text as a double: a sign, digits with at most one
point among, before or after them, and a power of ten; or one of the words
`inf`, `infinity` and `nan` in any case. The value is the double closest to the
number written. `leadingInt?` reads the integer at the start of a text.
-/

/-- The number with these decimal digits, after those of `start`. -/
def natOfDigits (start : Nat) (ds : List Char) : Nat :=
  ds.foldl (fun n d => 10 * n + (d.toNat - '0'.toNat)) start

/-- Splits a sign off the text and tells whether it is negative. -/
def splitSign : List Char → Bool × List Char
  | '-' :: rest => (true, rest)
  | '+' :: rest => (false, rest)
  | rest => (false, rest)

/-- The longest run of digits at the start of the text, and what follows it. -/
def splitDigits (cs : List Char) : List Char × List Char :=
  (cs.takeWhile Char.isDigit, cs.dropWhile Char.isDigit)

/-- An unsigned number as written: digits before and after the point and a power of ten. -/
structure Numeral where
  /-- The digits before the point. -/
  whole : List Char
  /-- The digits after the point. -/
  fraction : List Char
  /-- The power of ten that multiplies the number. -/
  power : Int
deriving DecidableEq, Repr

namespace Numeral

/-- The power of ten written at the end of a number: nothing, or the letter `e` with an integer. -/
def readPower? : List Char → Option Int
  | [] => some 0
  | c :: rest =>
    if c = 'e' ∨ c = 'E' then
      let (negative, rest) := splitSign rest
      match splitDigits rest with
      | ([], _) => none
      | (ds, []) => some (if negative then -(natOfDigits 0 ds : Int) else natOfDigits 0 ds)
      | (_, _ :: _) => none
    else none

/-- Reads the whole text as an unsigned number. There is a digit before or after the point. -/
def read? (cs : List Char) : Option Numeral :=
  let (whole, rest) := splitDigits cs
  let (fraction, rest) := match rest with
    | '.' :: rest => splitDigits rest
    | rest => ([], rest)
  if whole.isEmpty && fraction.isEmpty then none
  else (readPower? rest).map fun power => ⟨whole, fraction, power⟩

/-- The double closest to the number. Outside the range of the doubles the digits do not matter:
there the number is infinite or zero. -/
def value (n : Numeral) : Float :=
  let ds := natOfDigits (natOfDigits 0 n.whole) n.fraction
  let exponent := n.power - n.fraction.length
  let size := exponent + (Nat.toDigits 10 ds).length
  if ds = 0 ∨ size < -400 then 0
  else if 400 < size then 1 / 0
  else Float.ofScientific ds (exponent < 0) exponent.natAbs

end Numeral

/-- Reads the whole text as a double. -/
def readFloat? (cs : List Char) : Option Float :=
  let (negative, rest) := splitSign cs
  let word := String.ofList (rest.map Char.toLower)
  let magnitude :=
    if word = "inf" ∨ word = "infinity" then some (1 / 0)
    else if word = "nan" then some (0 / 0)
    else (Numeral.read? rest).map Numeral.value
  magnitude.map fun x => if negative then -x else x

/-- The integer that the text starts with, if there is one and it fits 64 bits. What follows it
does not matter. -/
def leadingInt? (cs : List Char) : Option Int :=
  let (negative, rest) := splitSign cs
  match (splitDigits rest).1 with
  | [] => none
  | ds =>
    let n : Int := if negative then -(natOfDigits 0 ds : Int) else natOfDigits 0 ds
    if -0x8000000000000000 ≤ n ∧ n < 0x8000000000000000 then some n else none

end DoubleCurve.Decimal
