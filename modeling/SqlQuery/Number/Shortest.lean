import SqlQuery.Number.Binary64

/-!
# The shortest decimal that reads back

A binary number is written with the fewest decimal digits that are read as
the same number again, and of these with the digits nearest to its value.

The decimals that read back are those in the *rounding interval* of the
number, which reaches half way to its two neighbours; the ends belong to it
when the significand is even.  Digit counts are tried from one upwards.  At
each count the number lies between two neighbouring decimals of that length,
and if any decimal of that length reads back then one of these two does.

Every comparison is made between natural numbers, so nothing is rounded here.
-/

namespace SqlQuery.Number

/-- Which of two equally near decimals is taken. -/
inductive Tie where
  /-- The larger magnitude. -/
  | up
  /-- The one with an even last digit. -/
  | even
deriving DecidableEq, Repr

/-- The numbers that round to a given one: from `low` to `high` in units of
`2 ^ unit`, with the number itself at `middle`. -/
structure RoundingInterval where
  low : Nat
  middle : Nat
  high : Nat
  unit : Int
  /-- Whether the two ends belong to the interval. -/
  closed : Bool

namespace RoundingInterval

/-- The rounding interval of a finite magnitude, in quarters of its last
place.  Below a power of two the neighbour is only half as far away. -/
def of (x : Binary64) : RoundingInterval :=
  let m := x.significand
  { low := if m = twoPow 52 ∧ x.exponent ≠ -1074 then 4 * m - 1 else 4 * m - 2
    middle := 4 * m
    high := 4 * m + 2
    unit := x.exponent - 2
    closed := m % 2 == 0 }

variable (interval : RoundingInterval)

/-- The integers that compare as `n * 10 ^ place` does with the interval's
bounds, once those are multiplied by `binaryScale`. -/
def decimalScale (place : Int) : Nat :=
  tenPow place.toNat * twoPow (-interval.unit).toNat

/-- The partner of `decimalScale`. -/
def binaryScale (place : Int) : Nat :=
  twoPow interval.unit.toNat * tenPow (-place).toNat

/-- Whether `n * 10 ^ place` reads back as the number. -/
def contains (place : Int) (n : Nat) : Bool :=
  let y := n * interval.decimalScale place
  let low := interval.low * interval.binaryScale place
  let high := interval.high * interval.binaryScale place
  if interval.closed then Nat.ble low y && Nat.ble y high
  else Nat.blt low y && Nat.blt y high

/-- The multiple of `10 ^ place` at or just below the number. -/
def floorAt (place : Int) : Nat :=
  interval.middle * interval.binaryScale place / interval.decimalScale place

/-- Whether the number is at least `10 ^ place`. -/
def reaches (place : Int) : Bool :=
  interval.floorAt place != 0

/-- The nearer of the two multiples of `10 ^ place` around the number, when
both read back; else the one that does, if any. -/
def nearestAt (tie : Tie) (place : Int) : Option Nat :=
  let below := interval.floorAt place
  let above := below + 1
  match interval.contains place below, interval.contains place above with
  | false, false => none
  | true, false => some below
  | false, true => some above
  | true, true =>
    let twice := 2 * interval.middle * interval.binaryScale place
    let half := (2 * below + 1) * interval.decimalScale place
    if twice < half then some below
    else if half < twice then some above
    else match tie with
      | .up => some above
      | .even => some (below + below % 2)

/-- Tries ever finer places, `count` of them. -/
def search (tie : Tie) : Nat → Int → Option Decimal
  | 0, _ => none
  | count + 1, place =>
    match interval.nearestAt tie place with
    | some n => some ⟨n, place⟩
    | none => search tie count (place - 1)

/-- The place of the number's first decimal digit.  The binary length times
`log 2` misses it by at most one. -/
def firstPlace : Int :=
  let guess := ((interval.middle.log2 : Int) + interval.unit) * 30103 / 100000
  if interval.reaches (guess + 1) then guess + 1
  else if interval.reaches guess then guess
  else guess - 1

end RoundingInterval

namespace Binary64

/-- The magnitude of a finite number, digit for digit. -/
def exactDecimal (x : Binary64) : Decimal :=
  ⟨x.significand * twoPow x.exponent.toNat * Nat.pow 5 (-x.exponent).toNat, min 0 x.exponent⟩

/-- The fewest digits that read back as the magnitude of a finite number other
than zero, nearest to its value, without zeros at the end.  Seventeen digits
always suffice; the exact value stands behind the search. -/
def shortest (tie : Tie) (x : Binary64) : Decimal :=
  let interval := RoundingInterval.of x
  let found := (interval.search tie 17 interval.firstPlace).getD x.exactDecimal
  found.trimmed 400

end Binary64

end SqlQuery.Number
