/-!
# Decimal numbers as written

A decimal number is a whole number of units of a power of ten.  Literals are
read into this form exactly, whatever their length, before anything is
rounded; the digits chosen for a binary number are given in it too.
-/

namespace SqlQuery.Number

/-- The number `digits * 10 ^ exponent`. -/
structure Decimal where
  digits : Nat
  exponent : Int
deriving DecidableEq, Repr

/-- The value of a row of decimal digits, most significant first. -/
def digitsValue (cs : List Char) : Nat :=
  cs.foldl (fun total c => total * 10 + (c.toNat - '0'.toNat)) 0

@[simp] theorem digitsValue_nil : digitsValue [] = 0 := rfl

/-- One more digit at the end multiplies the value by ten and adds the digit. -/
theorem digitsValue_append_singleton (cs : List Char) (c : Char) :
    digitsValue (cs ++ [c]) = digitsValue cs * 10 + (c.toNat - '0'.toNat) := by
  simp [digitsValue]

/-- The leading decimal digits of a text and what follows them. -/
def splitDigits (cs : List Char) : List Char × List Char :=
  (cs.takeWhile Char.isDigit, cs.dropWhile Char.isDigit)

theorem splitDigits_append (cs : List Char) :
    (splitDigits cs).1 ++ (splitDigits cs).2 = cs :=
  List.takeWhile_append_dropWhile

/-- A whole number with an optional sign, using the whole text. -/
def readInt (cs : List Char) : Option Int :=
  let (negative, body) := match cs with
    | '-' :: rest => (true, rest)
    | '+' :: rest => (false, rest)
    | _ => (false, cs)
  if body.isEmpty || !body.all Char.isDigit then none
  else
    let magnitude : Int := digitsValue body
    some (if negative then -magnitude else magnitude)

/-- The exponent part of a literal: nothing, or `e`, an optional sign and at
least one digit. -/
def readExponent : List Char → Option Int
  | [] => some 0
  | c :: cs => if c == 'e' || c == 'E' then readInt cs else none

namespace Decimal

/-- An unsigned decimal literal, using the whole text: digits with an optional
point among them, at least one digit, and an optional exponent. -/
def ofChars? (cs : List Char) : Option Decimal :=
  let (whole, rest) := splitDigits cs
  let (fraction, rest) := match rest with
    | '.' :: rest => splitDigits rest
    | _ => ([], rest)
  if whole.isEmpty && fraction.isEmpty then none
  else (readExponent rest).map fun exponent =>
    { digits := digitsValue (whole ++ fraction)
      exponent := exponent - (fraction.length : Int) }

/-- Drops zeros at the end of the digits, at most `limit` of them. -/
def trimmed : Nat → Decimal → Decimal
  | 0, d => d
  | limit + 1, d =>
    if d.digits % 10 == 0 && d.digits != 0 then trimmed limit ⟨d.digits / 10, d.exponent + 1⟩
    else d

end Decimal

end SqlQuery.Number
