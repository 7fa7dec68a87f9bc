/-!
# Powers of two and of ten

The scales of binary and decimal numbers.  Both are `Nat.pow`, which the
kernel evaluates with big numbers, so that every conversion built on them can
be evaluated in a proof.
-/

namespace SqlQuery.Number

/-- The `k`-th power of two. -/
def twoPow (k : Nat) : Nat := Nat.pow 2 k

/-- The `k`-th power of ten. -/
def tenPow (k : Nat) : Nat := Nat.pow 10 k

theorem twoPow_pos (k : Nat) : 0 < twoPow k :=
  Nat.pow_pos (by decide)

theorem tenPow_pos (k : Nat) : 0 < tenPow k :=
  Nat.pow_pos (by decide)

end SqlQuery.Number
