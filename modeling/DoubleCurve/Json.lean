import DoubleCurve.Decimal

/-!
# JSON

Values of type `Json` are written by `Json.render` and read by `Json.parse?`.
-/

namespace DoubleCurve

/-! ## Values and their text

`Json.render` writes a value without white space. The members of an object are
written in the order in which they stand. A number that is written with digits
only is an `integer`; a `number` always has a point or a power of ten, so that
reading tells the two apart. There is no text for a `number` that is not finite,
and `null` is written for it.
-/

/-- A JSON value. -/
inductive Json where
  /-- The value `null`. -/
  | null
  /-- A truth value. -/
  | bool (b : Bool)
  /-- A number without fraction. -/
  | integer (n : Int)
  /-- Any other number. -/
  | number (x : Float)
  /-- A string. -/
  | string (s : String)
  /-- A list of values. -/
  | array (items : List Json)
  /-- A list of named values. -/
  | object (members : List (String × Json))

namespace Json

/-- Numbers with sixteen digits before the point or four zeros after it are written without a power
of ten, and whole numbers with one zero after the point. -/
def numberStyle : Decimal.Style where
  positional := some (-5, 16)
  wholeEnding := ".0"
  tie := .toEven
  notANumber := "null"
  infinity := "null"
  negativeInfinity := "null"

/-- The letter that stands behind a backslash for this character. -/
def escapeLetter? : Char → Option Char
  | '"' => some '"'
  | '\\' => some '\\'
  | '\x08' => some 'b'
  | '\t' => some 't'
  | '\n' => some 'n'
  | '\x0c' => some 'f'
  | '\r' => some 'r'
  | _ => none

/-- How one character is written in a string. -/
def stringChar (c : Char) : List Char :=
  match escapeLetter? c with
  | some letter => ['\\', letter]
  | none =>
    if c.toNat < 0x20 then
      ['\\', 'u', '0', '0', Nat.digitChar (c.toNat / 16), Nat.digitChar (c.toNat % 16)]
    else [c]

/-- The text of a string. -/
def renderString (s : String) : String :=
  "\"" ++ String.ofList (s.toList.flatMap stringChar) ++ "\""

mutual

/-- The text of a value. -/
def render : Json → String
  | null => "null"
  | bool true => "true"
  | bool false => "false"
  | integer n => toString n
  | number x => numberStyle.text x
  | string s => renderString s
  | array items => "[" ++ ",".intercalate (renderItems items) ++ "]"
  | object members => "\x7b" ++ ",".intercalate (renderMembers members) ++ "\x7d"

/-- The texts of the items of a list. -/
def renderItems : List Json → List String
  | [] => []
  | item :: rest => item.render :: renderItems rest

/-- The texts of the members of an object. -/
def renderMembers : List (String × Json) → List String
  | [] => []
  | (name, value) :: rest => (renderString name ++ ":" ++ value.render) :: renderMembers rest

end

end Json

namespace Json

/-! ## Reading

`Json.parse?` reads a whole text as one JSON value, with white space between its
parts. The text is first cut into tokens, and the tokens are then put together.
A step that reads from a list of tokens returns what is left of it together with
the fact that it has become shorter, which is why the reader ends.
-/

/-- The value of a digit in base sixteen. -/
def hexValue? (c : Char) : Option Nat :=
  if c.isDigit then some (c.toNat - '0'.toNat)
  else if 'a' ≤ c ∧ c ≤ 'f' then some (c.toNat - 'a'.toNat + 10)
  else if 'A' ≤ c ∧ c ≤ 'F' then some (c.toNat - 'A'.toNat + 10)
  else none

/-- The number with these four digits in base sixteen. -/
def hexNumber? (a b c d : Char) : Option Nat := do
  return (((← hexValue? a) * 16 + (← hexValue? b)) * 16 + (← hexValue? c)) * 16 + (← hexValue? d)

/-- The character that a letter behind a backslash stands for. -/
def unescapeLetter? : Char → Option Char
  | '"' => some '"'
  | '\\' => some '\\'
  | '/' => some '/'
  | 'b' => some '\x08'
  | 't' => some '\t'
  | 'n' => some '\n'
  | 'f' => some '\x0c'
  | 'r' => some '\r'
  | _ => none

/-- The character with this number, if there is one. -/
def charOfNumber? (n : Nat) : Option Char := if n.isValidChar then some (Char.ofNat n) else none

/-- The character that two units of sixteen bits make up. -/
def charOfPair? (high low : Nat) : Option Char :=
  if 0xD800 ≤ high ∧ high < 0xDC00 ∧ 0xDC00 ≤ low ∧ low < 0xE000 then
    charOfNumber? (0x10000 + (high - 0xD800) * 0x400 + (low - 0xDC00))
  else none

/-- The characters that are written between the quotes of a string. -/
def unescape? : List Char → Option (List Char)
  | [] => some []
  | '\\' :: 'u' :: a :: b :: c :: d :: rest => do
    let n ← hexNumber? a b c d
    match charOfNumber? n with
    | some char => return char :: (← unescape? rest)
    | none =>
      match rest with
      | '\\' :: 'u' :: a' :: b' :: c' :: d' :: rest' =>
        let char ← charOfPair? n (← hexNumber? a' b' c' d')
        return char :: (← unescape? rest')
      | _ => none
  | '\\' :: letter :: rest => do return (← unescapeLetter? letter) :: (← unescape? rest)
  | char :: rest =>
    if char.toNat < 0x20 ∨ char = '\\' then none else do return char :: (← unescape? rest)

/-- Cuts a text at the quote that ends a string, and drops the quote. -/
def splitString? : List Char → Option (List Char × List Char)
  | [] => none
  | '"' :: rest => some ([], rest)
  | '\\' :: c :: rest => (splitString? rest).map fun (body, rest) => ('\\' :: c :: body, rest)
  | c :: rest => (splitString? rest).map fun (body, rest) => (c :: body, rest)

theorem length_splitString?_le (text : List Char) :
    ∀ split ∈ splitString? text, split.2.length ≤ text.length := by
  fun_induction splitString? text with
  | case1 => simp
  | case2 => simp
  | case3 c rest ih =>
    intro split hsplit
    obtain ⟨inner, hinner, rfl⟩ := Option.map_eq_some_iff.mp hsplit
    have := ih inner hinner
    simp only [List.length_cons]
    omega
  | case4 c rest _ _ ih =>
    intro split hsplit
    obtain ⟨inner, hinner, rfl⟩ := Option.map_eq_some_iff.mp hsplit
    have := ih inner hinner
    simp only [List.length_cons]
    omega

/-- A number as it is written. There is no zero in front of other digits, and there are digits on
both sides of a point. Zero with a sign is no integer. -/
def numberOf? (word : List Char) : Option Json :=
  let (negative, digits) := match word with
    | '-' :: rest => (true, rest)
    | rest => (false, rest)
  let (whole, rest) := Decimal.splitDigits digits
  if whole.isEmpty || (whole.head? == some '0' && whole != ['0']) then none
  else if rest.isEmpty then
    let n := Decimal.natOfDigits 0 whole
    some (if negative then if n = 0 then number (-0.0) else integer (-n) else integer n)
  else if rest.head? == some '.' && !(rest.getD 1 ' ').isDigit then none
  else
    (Decimal.Numeral.read? digits).map fun n =>
      number (if negative then -n.value else n.value)

/-- The value that a word stands for. -/
def valueOfWord? (word : List Char) : Option Json :=
  match String.ofList word with
  | "null" => some null
  | "true" => some (bool true)
  | "false" => some (bool false)
  | _ => numberOf? word

/-- A part of a text. -/
inductive Token where
  /-- The start of a list. -/
  | leftBracket
  /-- The end of a list. -/
  | rightBracket
  /-- The start of an object. -/
  | leftBrace
  /-- The end of an object. -/
  | rightBrace
  /-- What stands between two items. -/
  | comma
  /-- What stands between a name and its value. -/
  | colon
  /-- A string. -/
  | string (s : String)
  /-- Any other value that has no parts. -/
  | word (value : Json)

/-- The token that is written with this character alone. -/
def Token.ofChar? : Char → Option Token
  | '[' => some leftBracket
  | ']' => some rightBracket
  | '\x7b' => some leftBrace
  | '\x7d' => some rightBrace
  | ',' => some comma
  | ':' => some colon
  | _ => none

/-- Whether a character may stand between tokens. -/
def isSpace (c : Char) : Bool := c == ' ' || c == '\t' || c == '\n' || c == '\r'

/-- Whether a character can occur in a word. -/
def isWordChar (c : Char) : Bool := c.isAlphanum || c == '-' || c == '+' || c == '.'

/-- The tokens of a text. -/
def tokens? : List Char → Option (List Token)
  | [] => some []
  | c :: text =>
    if isSpace c then tokens? text
    else if c = '"' then
      match _h : splitString? text with
      | none => none
      | some (body, rest) => do
        let chars ← unescape? body
        return .string (String.ofList chars) :: (← tokens? rest)
    else
      match Token.ofChar? c with
      | some token => do return token :: (← tokens? text)
      | none =>
        if isWordChar c then do
          let value ← valueOfWord? (c :: text.takeWhile isWordChar)
          return .word value :: (← tokens? (text.dropWhile isWordChar))
        else none
termination_by text => text.length
decreasing_by
  · simp
  · have := length_splitString?_le text (body, rest) _h
    simp only [List.length_cons] at this ⊢
    omega
  · simp
  · have := (List.dropWhile_sublist isWordChar (l := text)).length_le
    simp only [List.length_cons]
    omega

/-- Something read from the start of a list of tokens, and what is left of the list. -/
structure Step (β : Type) (tokens : List Token) where
  /-- What was read. -/
  item : β
  /-- What is left. -/
  rest : List Token
  /-- Something was read. -/
  shorter : rest.length < tokens.length

namespace Step

variable {β γ : Type} {tokens : List Token}

/-- The same step with something else made of what was read. -/
def map (f : β → γ) (s : Step β tokens) : Step γ tokens := ⟨f s.item, s.rest, s.shorter⟩

/-- The same step on a list with more tokens in front. -/
def widen {longer : List Token} (s : Step β tokens) (h : tokens.length ≤ longer.length) :
    Step β longer :=
  ⟨s.item, s.rest, Nat.lt_of_lt_of_le s.shorter h⟩

end Step

mutual

/-- Reads one value. -/
def readValue? (tokens : List Token) : Option (Step Json tokens) :=
  match tokens with
  | .string s :: rest => some ⟨string s, rest, by simp⟩
  | .word value :: rest => some ⟨value, rest, by simp⟩
  | .leftBracket :: .rightBracket :: rest =>
    some ⟨array [], rest, Nat.lt_succ_of_lt (Nat.lt_succ_self _)⟩
  | .leftBracket :: rest =>
    (readItems? rest).map fun step => (step.map array).widen (by simp)
  | .leftBrace :: .rightBrace :: rest =>
    some ⟨object [], rest, Nat.lt_succ_of_lt (Nat.lt_succ_self _)⟩
  | .leftBrace :: rest =>
    (readMembers? rest).map fun step => (step.map object).widen (by simp)
  | _ => none
termination_by (tokens.length, 0)

/-- Reads the items of a list, of which there is one at least, and the end of the list. -/
def readItems? (tokens : List Token) : Option (Step (List Json) tokens) :=
  match readValue? tokens with
  | some ⟨item, .rightBracket :: rest, h⟩ => some ⟨[item], rest, Nat.lt_of_succ_lt h⟩
  | some ⟨item, .comma :: rest, h⟩ =>
    (readItems? rest).map fun step =>
      (step.map (item :: ·)).widen (Nat.le_of_succ_le (Nat.le_of_lt h))
  | _ => none
termination_by (tokens.length, 1)
decreasing_by
  · exact Prod.Lex.right _ Nat.zero_lt_one
  · exact Prod.Lex.left _ _ (Nat.lt_of_succ_lt h)

/-- Reads the members of an object, of which there is one at least, and the end of the object. -/
def readMembers? (tokens : List Token) : Option (Step (List (String × Json)) tokens) :=
  match tokens with
  | .string name :: .colon :: tokens =>
    match readValue? tokens with
    | some ⟨value, .rightBrace :: rest, h⟩ =>
      some ⟨[(name, value)], rest, by simp only [List.length_cons] at h ⊢; omega⟩
    | some ⟨value, .comma :: rest, h⟩ =>
      (readMembers? rest).map fun step =>
        (step.map ((name, value) :: ·)).widen (by simp only [List.length_cons] at h ⊢; omega)
    | _ => none
  | _ => none
termination_by (tokens.length, 1)
decreasing_by
  · exact Prod.Lex.left _ _ (by simp only [List.length_cons]; omega)
  · exact Prod.Lex.left _ _ (by simp only [List.length_cons] at h ⊢; omega)

end

/-- Reads a whole text as one value. -/
def parse? (text : String) : Option Json := do
  match ← readValue? (← tokens? text.toList) with
  | ⟨value, [], _⟩ => some value
  | _ => none

end Json

end DoubleCurve
