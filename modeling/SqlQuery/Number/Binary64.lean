import SqlQuery.Number.Decimal
import SqlQuery.Number.Power

/-!
# Double-precision binary numbers

A floating-point literal denotes a binary number of 64 bits: a sign, an
exponent field of 11 bits and a fraction of 52.  The type here is that word
itself, and every operation on it is exact arithmetic on natural numbers, so
that reading and writing literals can be evaluated and reasoned about without
the machine's floating-point unit.

Reading rounds once: a decimal number becomes the nearest binary number, and
of two equally near ones the one whose last bit is zero.

## Main definitions

* `Binary64.ofRatio` — the rounding of a quotient of natural numbers.
* `Binary64.ofChars?` — the reading of a literal.
* `Binary64.same` — numeric equality: the two zeros are equal and a value that
  is not a number differs from everything, itself included.
-/

namespace SqlQuery.Number

/-- A quotient rounded to the nearest whole number, a half going to the even
neighbour. -/
def roundedQuotient (num den : Nat) : Nat :=
  let quotient := num / den
  let twice := 2 * (num % den)
  if twice < den then quotient
  else if den < twice then quotient + 1
  else quotient + quotient % 2

/-- A number in the binary format of 64 bits. -/
structure Binary64 where
  bits : UInt64
deriving DecidableEq, Repr

namespace Binary64

/-- The word of positive infinity; finite magnitudes lie below it and the
magnitudes that are not numbers above. -/
def infinityWord : Nat := 0x7FF0000000000000

/-- The word without its sign bit. -/
def magnitude (x : Binary64) : Nat := x.bits.toNat % twoPow 63

/-- Whether the sign bit is set. -/
def negative (x : Binary64) : Bool := x.bits.toNat / twoPow 63 == 1

def isNaN (x : Binary64) : Bool := Nat.blt infinityWord x.magnitude

def isInfinite (x : Binary64) : Bool := x.magnitude == infinityWord

def isFinite (x : Binary64) : Bool := Nat.blt x.magnitude infinityWord

def isZero (x : Binary64) : Bool := x.magnitude == 0

/-- The exponent field; zero marks the numbers without a hidden bit. -/
def field (x : Binary64) : Nat := x.magnitude / twoPow 52

/-- The whole number whose multiple by `2 ^ exponent` is the magnitude of a
finite number. -/
def significand (x : Binary64) : Nat :=
  if x.field = 0 then x.magnitude % twoPow 52 else x.magnitude % twoPow 52 + twoPow 52

/-- The exponent of the last place of a finite number. -/
def exponent (x : Binary64) : Int :=
  if x.field = 0 then -1074 else (x.field : Int) - 1075

/-- Numeric equality. -/
def same (x y : Binary64) : Bool :=
  !x.isNaN && !y.isNaN && (x.bits == y.bits || (x.isZero && y.isZero))

/-- The word with a given sign and magnitude. -/
def ofMagnitude (negative : Bool) (magnitude : Nat) : Binary64 :=
  ⟨UInt64.ofNat ((if negative then twoPow 63 else 0) + magnitude)⟩

def infinity (negative : Bool) : Binary64 := ofMagnitude negative infinityWord

def nan : Binary64 := ofMagnitude false 0x7FF8000000000000

def zero (negative : Bool) : Binary64 := ofMagnitude negative 0

/-- Two numbers whose quotient is `num / den / 2 ^ scale`. -/
def scaled (num den : Nat) (scale : Int) : Nat × Nat :=
  (num * twoPow (-scale).toNat, den * twoPow scale.toNat)

/--
The magnitude nearest to `num / den`, for `den` positive.

The last place is chosen so that the quotient counted in it has 53 binary
digits, or fewer at the bottom of the range.  The word of an exponent and a
significand is their sum as `(exponent + 1074) * 2 ^ 52 + significand`, which
is right also when rounding carries the significand to `2 ^ 53`.
-/
def roundedMagnitude (num den : Nat) : Nat :=
  if num = 0 then 0
  else
    let least : Int := max (-1074) ((num.log2 : Int) - (den.log2 : Int) - 53)
    let (n, d) := scaled num den least
    let place := if twoPow 53 ≤ n / d then least + 1 else least
    let (n, d) := scaled num den place
    min infinityWord ((place + 1074).toNat * twoPow 52 + roundedQuotient n d)

/-- The number nearest to a quotient, infinite when the range is exceeded. -/
def ofRatio (negative : Bool) (num den : Nat) : Binary64 :=
  ofMagnitude negative (roundedMagnitude num den)

/--
The number nearest to a decimal number.

A power of ten beyond `10 ^ 400` exceeds the range whatever the digits are,
and one that undercuts the digits by `10 ^ 400` vanishes in it; the powers in
between are small enough to compute.
-/
def ofDecimal (negative : Bool) (d : Decimal) : Binary64 :=
  if d.digits = 0 then zero negative
  else if 400 < d.exponent then infinity negative
  else if d.exponent < -400 - (d.digits.log2 : Int) then zero negative
  else ofRatio negative (d.digits * tenPow d.exponent.toNat) (tenPow (-d.exponent).toNat)

/-- The number that an unsigned literal denotes: a decimal literal, or the
words for infinity and for no number in any case. -/
def ofUnsigned? (negative : Bool) (cs : List Char) : Option Binary64 :=
  let word := String.ofList (cs.map Char.toLower)
  if word == "inf" || word == "infinity" then some (infinity negative)
  else if word == "nan" then some nan
  else (Decimal.ofChars? cs).map (ofDecimal negative)

/-- The number that a literal with an optional sign denotes. -/
def ofChars? : List Char → Option Binary64
  | '-' :: cs => ofUnsigned? true cs
  | '+' :: cs => ofUnsigned? false cs
  | cs => ofUnsigned? false cs

end Binary64

end SqlQuery.Number
