import SqlQuery.Number.Shortest

/-!
# Written forms of binary numbers

A style says how the shortest digits of a number are laid out: how small a
number may be and still be written with leading zeros, how an exponent is
marked, which digits a tie takes, and what stands for the values that have no
digits.  Numbers from `10 ^ 16` on are written with an exponent in every
style.
-/

namespace SqlQuery.Number

/-- The decisions that make up a written form. -/
structure Style where
  tie : Tie
  /-- Numbers with a first digit below `10 ^ leastPlace` get an exponent. -/
  leastPlace : Int
  /-- What stands before the digits of an exponent that is not negative. -/
  plus : String
  nan : String
  infinity : String
  negativeInfinity : String

/-- Numbers of `10 ^ ceiling` and above are written with an exponent. -/
def Style.ceiling : Int := 16

/-- `count` zeros. -/
def zeros (count : Nat) : List Char := List.replicate count '0'

/-- Digits with a point and at least one digit on either side of it. -/
def positional (digits : List Char) (place : Int) : List Char :=
  let first := place + (digits.length : Int) - 1
  if 0 ≤ place then digits ++ zeros place.toNat ++ ['.', '0']
  else if 0 ≤ first then
    digits.take (first + 1).toNat ++ '.' :: digits.drop (first + 1).toNat
  else '0' :: '.' :: zeros (-first - 1).toNat ++ digits

/-- Digits with a point after the first, if more follow, and an exponent. -/
def scientific (plus : String) (digits : List Char) (place : Int) : List Char :=
  let first := place + (digits.length : Int) - 1
  let mantissa := match digits with
    | d :: e :: rest => d :: '.' :: e :: rest
    | _ => digits
  let sign := if 0 ≤ first then plus.toList else ['-']
  mantissa ++ 'e' :: sign ++ Nat.toDigits 10 first.natAbs

namespace Style

/-- The layout of a decimal number that is not zero. -/
def layout (style : Style) (d : Decimal) : List Char :=
  let digits := Nat.toDigits 10 d.digits
  let first := d.exponent + (digits.length : Int) - 1
  if style.leastPlace ≤ first ∧ first < ceiling then positional digits d.exponent
  else scientific style.plus digits d.exponent

/-- The text of a number. -/
def text (style : Style) (x : Binary64) : String :=
  if x.isNaN then style.nan
  else if x.isInfinite then if x.negative then style.negativeInfinity else style.infinity
  else
    let sign := if x.negative then ['-'] else []
    let body := if x.isZero then ['0', '.', '0'] else style.layout (x.shortest style.tie)
    String.ofList (sign ++ body)

end Style

end SqlQuery.Number
