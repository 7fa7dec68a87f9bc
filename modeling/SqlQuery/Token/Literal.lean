import SqlQuery.Token

/-!
# Number and text literals

A scanner looks at the start of a text and says how many characters belong to
the literal found there; a reader turns those characters into a token kind.

* A number is `D+ ('.' D+)? ([eE] [+-]? D+)?` for ASCII digits `D`.  A point
  or an exponent mark that no digit follows is left alone.  With a point or an
  exponent the number is floating, and it must stay in the finite range;
  without, it must fit a signed word of 64 bits.
* A text runs from a quote character to the next occurrence of the same
  character.  There is no escape, so a text cannot hold its own quote.
-/

namespace SqlQuery.Token

/-! ## Numbers -/

/-- The number of digits that a text starts with. -/
def digitCount (cs : List Char) : Nat :=
  (cs.takeWhile Char.isDigit).length

/-- The length of a fraction: a point and at least one digit. -/
def fractionLength : List Char → Nat
  | '.' :: cs => if digitCount cs = 0 then 0 else digitCount cs + 1
  | _ => 0

/-- The length of a sign, if there is one. -/
def signLength : List Char → Nat
  | '+' :: _ => 1
  | '-' :: _ => 1
  | _ => 0

/-- The length of an exponent after its mark: an optional sign and at least one
digit, or nothing. -/
def exponentBodyLength (cs : List Char) : Nat :=
  let digits := digitCount (cs.drop (signLength cs))
  if digits = 0 then 0 else signLength cs + digits + 1

/-- The length of an exponent: a mark, an optional sign and at least one
digit. -/
def exponentLength : List Char → Nat
  | 'e' :: cs => exponentBodyLength cs
  | 'E' :: cs => exponentBodyLength cs
  | _ => 0

/-- The length of the number that a text starts with. -/
def numberLength? (cs : List Char) : Option Nat :=
  let whole := digitCount cs
  if whole = 0 then none
  else
    let fraction := fractionLength (cs.drop whole)
    let exponent := exponentLength (cs.drop (whole + fraction))
    some (whole + fraction + exponent)

/-- Whether a number literal is floating. -/
def isFloating (cs : List Char) : Bool :=
  cs.any fun c => c == '.' || c == 'e' || c == 'E'

/-- The largest integer literal. -/
def largestInteger : Nat := 9223372036854775807

/-- The kind of a number literal, unless it is out of range. -/
def readNumber (cs : List Char) : Option TokenKind :=
  if isFloating cs then
    (Number.Binary64.ofChars? cs).bind fun value =>
      if value.isFinite then some (.float value) else none
  else if cs.isEmpty || !cs.all Char.isDigit then none
  else
    let value := Number.digitsValue cs
    if value ≤ largestInteger then some (.integer (Int64.ofNat value)) else none

/-! ## Quoted texts -/

/-- The length of a text that ends with the first `quote` character, that
character included. -/
def closingLength? (quote : Char) : List Char → Option Nat
  | [] => none
  | c :: cs => if c == quote then some 1 else (closingLength? quote cs).map (· + 1)

/-- The length of a text between two `quote` characters, both included. -/
def quotedLength? (quote : Char) : List Char → Option Nat
  | [] => none
  | c :: cs => if c == quote then (closingLength? quote cs).map (· + 1) else none

/-- The kind of a quoted text: what stands between its first and last byte.  Each
must be a character of its own, and there must be two. -/
def readText (cs : List Char) : Option TokenKind :=
  ((Span.mk 1 (Text.byteLength cs - 1)).covered? cs).map fun word => .text (String.ofList word)

/-- The quote characters take one byte each, so any text is read between them. -/
theorem readText_quoted {quote : Char} (hQuote : quote = '\x22' ∨ quote = '\x27')
    (word : List Char) :
    readText (quote :: (word ++ [quote])) = some (.text (String.ofList word)) := by
  have hSize : quote.utf8Size = 1 := by
    rcases hQuote with rfl | rfl <;> decide
  have hStart : Text.byteLength [quote] = 1 := hSize
  have hStop : Text.byteLength (quote :: (word ++ [quote])) - 1 =
      Text.byteLength ([quote] ++ word) := by
    simp [hSize, Nat.add_comm]
  have hCovered : Span.covered? ⟨1, Text.byteLength ([quote] ++ word)⟩
      (quote :: (word ++ [quote])) = some word :=
    hStart ▸ Span.covered?_of_append [quote] word [quote]
  rw [readText, hStop, hCovered, Option.map_some]

example : readText "\"a\"".toList = some (.text "a") ∧ readText "\"".toList = none ∧
    readText "«a»".toList = none := by decide

end SqlQuery.Token
