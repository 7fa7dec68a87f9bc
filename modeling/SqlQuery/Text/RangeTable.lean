/-!
# Tables of code point ranges

The character properties that the lexer and the printers consult (letters,
numbers, combining marks, characters without a visible form) are data of the
Unicode standard.  Each property has a module of its own that lists its
ranges; this module says how such a list is read.

A table is sorted and its ranges do not touch, so a lookup stops at the first
range that begins above the code point.  An ASCII character is therefore
settled by the first few entries, in compiled code and in the kernel alike.
Nothing is lost by stopping early: a table covers the union of its ranges.
-/

namespace SqlQuery.Text

/-- Every range begins at or below its end and above the end of the range
before it; `bound` is the least code point the next range may begin at. -/
def increasing : Nat → List (Nat × Nat) → Bool
  | _, [] => true
  | bound, (first, last) :: rest =>
    Nat.ble bound first && Nat.ble first last && increasing (last + 1) rest

/-- Inclusive ranges of code points, in increasing order. -/
structure RangeTable where
  ranges : List (Nat × Nat)
  increasing_ranges : increasing 0 ranges = true

/-- Whether a code point lies in one of the ranges, up to the first that begins
above it. -/
def lookup : List (Nat × Nat) → Nat → Bool
  | [], _ => false
  | (first, last) :: rest, n =>
    if n < first then false else Nat.ble n last || lookup rest n

/-- Whether a table covers a code point. -/
def RangeTable.covers (table : RangeTable) (n : Nat) : Bool :=
  lookup table.ranges n

section Lookup

variable {bound first last n : Nat} {ranges rest : List (Nat × Nat)} {range : Nat × Nat}

theorem increasing_cons_iff : increasing bound ((first, last) :: rest) = true ↔
    bound ≤ first ∧ first ≤ last ∧ increasing (last + 1) rest = true := by
  simp only [increasing, Bool.and_eq_true, Nat.ble_eq, and_assoc]

theorem le_of_mem_of_increasing (hIncreasing : increasing bound ranges = true)
    (hMem : range ∈ ranges) : bound ≤ range.1 := by
  induction ranges generalizing bound with
  | nil => cases hMem
  | cons front rest ih =>
    obtain ⟨hBound, hOrder, hRest⟩ := increasing_cons_iff.1 hIncreasing
    rcases List.mem_cons.1 hMem with rfl | hMem
    · exact hBound
    · have := ih hRest hMem
      omega

theorem exists_of_lookup (hLookup : lookup ranges n = true) :
    ∃ range ∈ ranges, range.1 ≤ n ∧ n ≤ range.2 := by
  induction ranges with
  | nil => simp [lookup] at hLookup
  | cons front rest ih =>
    unfold lookup at hLookup
    split at hLookup
    · cases hLookup
    · next hFirst =>
      rcases Bool.or_eq_true_iff.1 hLookup with hLast | hRest
      · exact ⟨front, List.mem_cons_self, Nat.le_of_not_lt hFirst, Nat.le_of_ble_eq_true hLast⟩
      · obtain ⟨found, hMem, hRange⟩ := ih hRest
        exact ⟨found, List.mem_cons_of_mem _ hMem, hRange⟩

/-- The ranges before the one that holds a code point end below it, so none of
them begins above it. -/
theorem lookup_of_mem (hIncreasing : increasing bound ranges = true) (hMem : range ∈ ranges)
    (hLow : range.1 ≤ n) (hHigh : n ≤ range.2) : lookup ranges n = true := by
  induction ranges generalizing bound with
  | nil => cases hMem
  | cons front rest ih =>
    obtain ⟨-, hOrder, hRest⟩ := increasing_cons_iff.1 hIncreasing
    rw [lookup]
    rcases List.mem_cons.1 hMem with rfl | hMem
    · rw [if_neg (Nat.not_lt.2 hLow), Nat.ble_eq_true_of_le hHigh, Bool.true_or]
    · have hAbove := le_of_mem_of_increasing hRest hMem
      rw [if_neg (by omega), ih hRest hMem, Bool.or_true]

end Lookup

/-- **A table covers the code points in its ranges.** -/
theorem RangeTable.covers_iff {table : RangeTable} {n : Nat} :
    table.covers n = true ↔ ∃ range ∈ table.ranges, range.1 ≤ n ∧ n ≤ range.2 :=
  ⟨exists_of_lookup,
    fun ⟨_, hMem, hLow, hHigh⟩ => lookup_of_mem table.increasing_ranges hMem hLow hHigh⟩

end SqlQuery.Text
