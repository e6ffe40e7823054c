import DoubleCurve.Decimal
import DoubleCurve.Fault
import DoubleCurve.Notice
import DoubleCurve.Text

/-!
# Locus texts

A locus text names the faces on the double curve and the points where the curve
crosses the edges of a mesh. It is read line by line:

* the number of a face at the start of a line, up to a line that starts with a
  negative number; lines that do not start with a number are passed over;
* the number of points;
* that many points, each given by the first three words of a line.

Reading stops at the first line after the faces that does not have this form,
and reports it. Nothing after the last line that is needed is looked at, so only
lines that are needed have to be text. Notices are kept apart from the result, so
that a fault leaves those there are.
-/

namespace DoubleCurve

/-- The content of a locus text. -/
structure LocusText where
  /-- The faces on the double curve. -/
  seeds : List Nat
  /-- The points, two for each segment. -/
  endpoints : List (Vec3 Float)
deriving BEq, Repr

namespace LocusText

/-- A line of a file: its text, or nothing if its bytes are no text. -/
abbrev Line := Option String

/-- Reading a text. A fault ends it, and what was noticed until then remains. -/
abbrev Reading := ExceptT (Fault Float) (StateM (Array (Notice Float)))

/-- The text of a line. -/
def Line.read (line : Line) : Reading String :=
  match line with
  | some text => return text
  | none => throw .undecodable

/-- Notes that a line does not have the form it should have. -/
def noteMalformed (number : Nat) (expected found : String) : Reading Unit :=
  modify (·.push (.warning (.malformedLine number expected found)))

/-- The integer at the start of a line, after white space. -/
def leadingInt? (line : String) : Option Int :=
  Decimal.leadingInt? (Text.trimStart line.toList)

/-- The point given by the first three words of a line. Its coordinates are finite. -/
def point? (line : String) : Option (Vec3 Float) :=
  match Text.words line.toList with
  | x :: y :: z :: _ => do
    let p : Vec3 Float :=
      ⟨← Decimal.readFloat? x, ← Decimal.readFloat? y, ← Decimal.readFloat? z⟩
    if p.isFinite then some p else none
  | _ => none

/-- The lines that are left to read, and the number of the first of them. -/
structure Rest where
  /-- The number of the first line, counted from one. -/
  number : Nat
  /-- The lines. -/
  lines : List Line

/-- Reads the numbers of faces, up to a line that starts with a negative number. -/
def readFaces (number : Nat) : List Line → Reading (List Nat × Rest)
  | [] => return ([], ⟨number, []⟩)
  | line :: lines => do
    let text ← Line.read line
    match leadingInt? text with
    | none => readFaces (number + 1) lines
    | some n =>
      if n < 0 then return ([], ⟨number + 1, lines⟩)
      let (faces, rest) ← readFaces (number + 1) lines
      return (n.toNat :: faces, rest)

/-- Notes that point number `index` of `count` was expected on a line. -/
def noteMissingPoint (number index count : Nat) (found : String) : Reading Unit :=
  noteMalformed number s!"endpoint {index}/{count}" found

/-- Reads `left` of `count` points. -/
def readPoints (count : Nat) (number : Nat) : (left : Nat) → List Line → Reading (List (Vec3 Float))
  | 0, _ => return []
  | left + 1, [] => do
    noteMissingPoint number (count - (left + 1)) count ""
    return []
  | left + 1, line :: lines => do
    let text ← Line.read line
    match point? text with
    | none =>
      noteMissingPoint number (count - (left + 1)) count text
      return []
    | some p => return p :: (← readPoints count (number + 1) left lines)

/-- Reads the number of points and then the points. -/
def readCounted (rest : Rest) : Reading (List (Vec3 Float)) :=
  match rest.lines with
  | [] => return []
  | line :: lines => do
    let text ← Line.read line
    match leadingInt? text with
    | none =>
      noteMalformed rest.number "endpoint count" text
      return []
    | some n => readPoints n.toNat (rest.number + 1) n.toNat lines

/-- Reads a locus text from its lines. -/
def ofLines (lines : List Line) : Reading LocusText := do
  let (seeds, rest) ← readFaces 1 lines
  let endpoints ← readCounted rest
  return ⟨seeds, endpoints⟩

/-- Reads a locus text from the bytes of a file, and adds what is noticed to `found`. -/
def readBytes (bytes : List UInt8) (found : Array (Notice Float)) :
    Except (Fault Float) LocusText × Array (Notice Float) :=
  (ofLines (Text.fileLines bytes)).run.run found

/-- Reads a locus text, and adds what is noticed to `found`. What is text already can be read to
the end, so nothing is refused. -/
def readString (s : String) (found : Array (Notice Float)) : LocusText × Array (Notice Float) :=
  match (ofLines ((Text.lines s).map some)).run.run found with
  | (.ok content, found) => (content, found)
  | (.error _, found) => (⟨[], []⟩, found)

/-- The locus text in the bytes of a file, with what was noticed. -/
def ofBytes (bytes : List UInt8) : Except (Fault Float) (LocusText × Array (Notice Float)) :=
  let (result, found) := readBytes bytes #[]
  result.map (·, found)

/-- The locus text in a text, with what was noticed. -/
def ofString (s : String) : LocusText × Array (Notice Float) := readString s #[]

end LocusText

end DoubleCurve
