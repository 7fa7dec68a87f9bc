import SqlQuery.Number.Style

/-!
# JSON documents

A document value whose objects keep the order of their members, and its two
written forms: compact, on one line without spaces, and spread over lines with
two spaces of indentation.
-/

namespace SqlQuery

/-- A document. -/
inductive Json where
  | null
  | boolean (value : Bool)
  | integer (value : Int)
  | float (value : Number.Binary64)
  | text (value : String)
  | array (items : List Json)
  | object (members : List (String × Json))

namespace Json

/-- How floating-point numbers are written in documents: positionally from
`10 ^ -5` up to `10 ^ 16`, else with a signed exponent, a tie going to the even
digit.  A value without digits has no number in a document. -/
def numberStyle : Number.Style :=
  { tie := .even
    leastPlace := -5
    plus := "+"
    nan := "null"
    infinity := "null"
    negativeInfinity := "null" }

/-- A text that is absent or present. -/
def ofOption {α : Type} (encode : α → Json) : Option α → Json
  | some value => encode value
  | none => .null

/-- One hexadecimal digit, in lower case. -/
def hexDigit (n : Nat) : Char := Nat.digitChar (n % 16)

/-- One character of a quoted text. -/
def escaped (c : Char) : List Char :=
  match c with
  | '\x22' => ['\\', '\x22']
  | '\\' => ['\\', '\\']
  | '\x08' => ['\\', 'b']
  | '\x0c' => ['\\', 'f']
  | '\n' => ['\\', 'n']
  | '\r' => ['\\', 'r']
  | '\t' => ['\\', 't']
  | c =>
    if c.toNat < 0x20 then
      ['\\', 'u', '0', '0', hexDigit (c.toNat / 16), hexDigit c.toNat]
    else [c]

/-- A text between double quotes. -/
def quoted (s : String) : String :=
  String.ofList ('\x22' :: s.toList.flatMap escaped ++ ['\x22'])

mutual

/-- The document on one line. -/
def compact : Json → String
  | .null => "null"
  | .boolean value => toString value
  | .integer value => toString value
  | .float value => numberStyle.text value
  | .text value => quoted value
  | .array items => "[" ++ ",".intercalate (compactItems items) ++ "]"
  | .object members => "\x7b" ++ ",".intercalate (compactMembers members) ++ "\x7d"

def compactItems : List Json → List String
  | [] => []
  | item :: rest => compact item :: compactItems rest

def compactMember : String × Json → String
  | (name, value) => quoted name ++ ":" ++ compact value

def compactMembers : List (String × Json) → List String
  | [] => []
  | member :: rest => compactMember member :: compactMembers rest

end

/-- A line break and the indentation of a depth. -/
def lineBreak (depth : Nat) : String :=
  "\n" ++ String.ofList (List.replicate (2 * depth) ' ')

/-- Entries between two brackets, each on a line of its own; no line break if
there is none. -/
def block (opening closing : String) (depth : Nat) (entries : List String) : String :=
  if entries.isEmpty then opening ++ closing
  else
    opening ++ lineBreak (depth + 1) ++
      ("," ++ lineBreak (depth + 1)).intercalate entries ++ lineBreak depth ++ closing

mutual

/-- The document over several lines, for a value at a given depth. -/
def prettyAt (depth : Nat) : Json → String
  | .null => "null"
  | .boolean value => toString value
  | .integer value => toString value
  | .float value => numberStyle.text value
  | .text value => quoted value
  | .array items => block "[" "]" depth (prettyItems depth items)
  | .object members => block "\x7b" "\x7d" depth (prettyMembers depth members)

def prettyItems (depth : Nat) : List Json → List String
  | [] => []
  | item :: rest => prettyAt (depth + 1) item :: prettyItems depth rest

def prettyMember (depth : Nat) : String × Json → String
  | (name, value) => quoted name ++ ": " ++ prettyAt (depth + 1) value

def prettyMembers (depth : Nat) : List (String × Json) → List String
  | [] => []
  | member :: rest => prettyMember depth member :: prettyMembers depth rest

end

/-- The document over several lines. -/
def pretty (document : Json) : String :=
  prettyAt 0 document

end Json

end SqlQuery
