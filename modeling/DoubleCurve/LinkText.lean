import DoubleCurve.Curve
import DoubleCurve.Decimal
import DoubleCurve.Text

/-!
# LINK texts

A LINK text lists the vertices of curves: the word `LINK`, the number of curves,
the number of vertices of every curve, and then for every curve an empty line and
a line with the three coordinates of every vertex. How a coordinate is written is
a parameter of `LinkText.lines`, and how it is read one of `LinkText.read?`.
-/

namespace DoubleCurve.LinkText

variable {α β : Type}

/-! ## Writing -/

/-- The line for a vertex. -/
def vertexLine (number : α → String) (p : Vec3 α) : String :=
  number p.x ++ " " ++ number p.y ++ " " ++ number p.z

/-- The lines for the vertices of a curve, after an empty one. -/
def curveLines (number : α → String) (c : Curve α) : List String :=
  "" :: c.points.map (vertexLine number)

/-- The lines of the text. -/
def lines (number : α → String) (curves : List (Curve α)) : List String :=
  "LINK" :: toString curves.length :: curves.map (fun c => toString c.size) ++
    curves.flatMap (curveLines number)

/-- The text, every line of which is ended by a newline. -/
def text (number : α → String) (curves : List (Curve α)) : String :=
  String.join ((lines number curves).map (· ++ "\n"))

/-- The text with the coordinates written in the plain style. -/
def write (curves : List (Curve Float)) : String := text Decimal.Style.plain.text curves

/-! ## Reading

`read?` reads the vertices of curves back. The numbers in front say how many curves
there are and how many vertices each of them has, so that the empty line before the
vertices of a curve and a curve without vertices are told apart.
-/

/-- The number on a line of digits. -/
def readCount? (line : String) : Option Nat :=
  if line.toList ≠ [] ∧ line.toList.all Char.isDigit then some (Nat.ofDigitChars 10 line.toList 0)
  else none

/-- The vertex on a line of three words. -/
def readVertex? (value : String → Option α) (line : String) : Option (Vec3 α) :=
  match Text.words line.toList with
  | [x, y, z] => return ⟨← value (.ofList x), ← value (.ofList y), ← value (.ofList z)⟩
  | _ => none

/-- What stands on the next `count` lines, each read by itself, and the lines after them. -/
def readMany? (read : String → Option β) : (count : Nat) → List String → Option (List β × List String)
  | 0, lines => some ([], lines)
  | _ + 1, [] => none
  | count + 1, line :: lines => do
    let x ← read line
    let (xs, lines) ← readMany? read count lines
    return (x :: xs, lines)

/-- The vertices of curves that have so many of them, where an empty line stands before those of each
curve, and the lines after them. -/
def readCurves? (value : String → Option α) :
    (sizes : List Nat) → List String → Option (List (List (Vec3 α)) × List String)
  | [], lines => some ([], lines)
  | size :: sizes, line :: lines => do
    guard (line = "")
    let (points, lines) ← readMany? (readVertex? value) size lines
    let (curves, lines) ← readCurves? value sizes lines
    return (points :: curves, lines)
  | _ :: _, [] => none

/-- The vertices of the curves of a LINK text, whose coordinates are read by `value`. -/
def read? (value : String → Option α) (text : String) : Option (List (List (Vec3 α))) := do
  let (header, lines) ← readMany? some 2 (Text.lines text)
  guard (header.head? = some "LINK")
  let count ← header.getLast?.bind readCount?
  let (sizes, lines) ← readMany? readCount? count lines
  let (curves, lines) ← readCurves? value sizes lines
  guard (lines = [])
  return curves

end DoubleCurve.LinkText
