import DoubleCurve.Json
import DoubleCurve.Report

/-!
# JSON forms

Results are kept as JSON texts. `JsonForm` says what it is to have a JSON form, and
the instances give the forms of curves, notices and all that a report is made of.
-/

namespace DoubleCurve

/-! ## Values with a JSON form

A type with a `JsonForm` can be kept as a JSON text: `JsonForm.text` writes a
value and `JsonForm.read?` reads it again. `JsonForm.survives` tells whether a
value is the same after it has been written and read. A value that holds a number
that is not finite does not survive, since `null` is written for such a number
and `null` is no number.
-/

/-- A way to turn values into JSON and back. -/
class JsonForm (β : Type) where
  /-- The JSON value for a value. -/
  encode : β → Json
  /-- The value that a JSON value stands for, if it stands for one. -/
  decode? : Json → Option β

namespace Json

/-- The first member of an object that has this name. -/
def member? (name : String) : Json → Option Json
  | object members => members.lookup name
  | _ => none

/-- The member of an object that has this name, decoded. -/
def field? {β : Type} [JsonForm β] (name : String) (json : Json) : Option β :=
  (json.member? name).bind JsonForm.decode?

end Json

namespace JsonForm

variable {β : Type} [JsonForm β]

/-- The text of a value. -/
def text (x : β) : String := (encode x).render

/-- The value with this text. -/
def read? (s : String) : Option β := (Json.parse? s).bind decode?

/-- Whether a value is the same after it has been written and read. -/
def survives [BEq β] (x : β) : Bool :=
  match read? (β := β) (text x) with
  | some y => y == x
  | none => false

end JsonForm

instance : JsonForm Bool where
  encode := .bool
  decode?
    | .bool b => some b
    | _ => none

instance : JsonForm String where
  encode := .string
  decode?
    | .string s => some s
    | _ => none

instance : JsonForm Int where
  encode := .integer
  decode?
    | .integer n => some n
    | _ => none

instance : JsonForm Nat where
  encode n := .integer n
  decode?
    | .integer n => if 0 ≤ n then some n.toNat else none
    | _ => none

instance : JsonForm UInt8 where
  encode b := .integer b.toNat
  decode?
    | .integer n => if 0 ≤ n ∧ n < 256 then some (.ofNat n.toNat) else none
    | _ => none

instance : JsonForm Float where
  encode := .number
  decode?
    | .number x => some x
    | .integer n => some (.ofInt n)
    | _ => none

instance {β : Type} [JsonForm β] : JsonForm (List β) where
  encode xs := .array (xs.map JsonForm.encode)
  decode?
    | .array items => items.mapM JsonForm.decode?
    | _ => none

instance {β : Type} [JsonForm β] : JsonForm (Array β) where
  encode xs := JsonForm.encode xs.toList
  decode? json := (JsonForm.decode? (β := List β) json).map List.toArray

/-! ## The JSON forms of results

Points are lists of three numbers, distances a list of bytes, and what has named
parts is an object. The kind of a notice is the name of the only member of an
object. The message of a notice is written for the reader's sake: it follows from
the kind, and nothing is decoded from it.
-/

open JsonForm (encode decode?)

instance : JsonForm (Vec3 Float) where
  encode p := .array [.number p.x, .number p.y, .number p.z]
  decode?
    | .array [x, y, z] => do return ⟨← decode? x, ← decode? y, ← decode? z⟩
    | _ => none

instance : JsonForm Endpoint where
  encode e := encode e.index
  decode? json :=
    (decode? (β := Nat) json).bind fun n => if h : n < 0x100000000 then some ⟨n, h⟩ else none

instance : JsonForm (Curve Float) where
  encode c := .object
    [("id", encode c.id), ("points", encode c.points), ("closed", encode c.closed)]
  decode? json := do
    return { id := ← json.field? "id"
             points := ← json.field? "points"
             closed := ← json.field? "closed" }

instance : JsonForm (Frame Float) where
  encode f := .object [("x", encode f.x), ("y", encode f.y)]
  decode? json := do return { x := ← json.field? "x", y := ← json.field? "y" }

instance : JsonForm (FramedCurve Float) where
  encode c := .object
    [("curve", encode c.curve), ("frames", encode c.frames), ("holonomy", encode c.holonomy)]
  decode? json := do
    return { curve := ← json.field? "curve"
             frames := ← json.field? "frames"
             holonomy := ← json.field? "holonomy" }

/-- The name of a severity. -/
def Severity.name : Severity → String
  | warning => "Warning"
  | info => "Info"

instance : JsonForm Severity where
  encode s := .string s.name
  decode?
    | .string "Warning" => some .warning
    | .string "Info" => some .info
    | _ => none

namespace Finding

/-- What belongs to a finding of its kind. -/
def fields : Finding Float → List (String × Json)
  | unmatchedEndpoint endpoint point => [("endpoint", encode endpoint), ("point", encode point)]
  | exhaustedJunction token fold endpoint point =>
    [("token", encode token), ("fold", encode fold), ("endpoint", encode endpoint),
      ("point", encode point)]
  | brokenLink source target found =>
    [("from", encode source), ("to", encode target), ("found", encode found)]
  | degenerateCycle endpoint => [("endpoint", encode endpoint)]
  | malformedLine line expected found =>
    [("line", encode line), ("expected", encode expected), ("found", encode found)]
  | missingSeed face faceCount => [("face", encode face), ("face_count", encode faceCount)]
  | oddEndpointCount count => [("count", encode count)]
  | crowdedEdge face edge => [("face", encode face), ("edge", encode edge)]

/-- The finding of this kind with these fields. -/
def ofFields? (kind : String) (json : Json) : Option (Finding Float) :=
  match kind with
  | "UnmatchedEndpoint" => do
    return unmatchedEndpoint (← json.field? "endpoint") (← json.field? "point")
  | "JunctionExhausted" => do
    return exhaustedJunction (← json.field? "token") (← json.field? "fold")
      (← json.field? "endpoint") (← json.field? "point")
  | "BrokenBackLink" => do
    return brokenLink (← json.field? "from") (← json.field? "to") (← json.field? "found")
  | "DegenerateCycle" => do return degenerateCycle (← json.field? "endpoint")
  | "MalformedLocusLine" => do
    return malformedLine (← json.field? "line") (← json.field? "expected") (← json.field? "found")
  | "SeedOutOfRange" => do
    return missingSeed (← json.field? "face") (← json.field? "face_count")
  | "OddEndpointCount" => do return oddEndpointCount (← json.field? "count")
  | "NonManifoldEdge" => do return crowdedEdge (← json.field? "face") (← json.field? "edge")
  | _ => none

end Finding

instance : JsonForm (Finding Float) where
  encode f := .object [(f.kind, .object f.fields)]
  decode?
    | .object [(kind, fields)] => Finding.ofFields? kind fields
    | _ => none

instance : JsonForm (Notice Float) where
  encode n := .object
    [("severity", encode n.severity), ("kind", encode n.finding), ("message", encode n.message)]
  decode? json := do
    return { severity := ← json.field? "severity", finding := ← json.field? "kind" }

instance : JsonForm LocusText where
  encode t := .object [("seeds", encode t.seeds), ("endpoints", encode t.endpoints)]
  decode? json := do
    return { seeds := ← json.field? "seeds", endpoints := ← json.field? "endpoints" }

instance : JsonForm DistanceField where
  encode d := encode d.bytes
  decode? json := (decode? json).map DistanceField.mk

instance : JsonForm (Report Float) where
  encode r := .object [("loops", encode r.curves), ("diagnostics", encode r.notices)]
  decode? json := do
    return { curves := ← json.field? "loops", notices := ← json.field? "diagnostics" }

instance : JsonForm Analysis where
  encode a := .object [("distances", encode a.distances), ("report", encode a.report)]
  decode? json := do
    return { distances := ← json.field? "distances", report := ← json.field? "report" }

end DoubleCurve
