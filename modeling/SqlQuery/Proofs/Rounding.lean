import Mathlib.Algebra.Order.Field.Power
import Mathlib.Tactic.FieldSimp
import Mathlib.Tactic.Linarith
import Mathlib.Tactic.NormNum
import Mathlib.Tactic.Positivity
import Mathlib.Tactic.Ring
import Mathlib.Data.Rat.Cast.Order
import SqlQuery.Number.Style

/-!
# Rounding to binary numbers

The conversions between decimal and binary numbers compare natural numbers
only.  Here those comparisons are read as comparisons of rational numbers: a
decimal number and a finite binary number have values, the *rounding interval*
of a binary number reaches half way to its neighbours, and whatever lies in the
interval is rounded to the number.

## Main definitions

* `Decimal.value`, `Binary64.value` — the rational numbers that are meant.
* `Binary64.Attracts` — the rounding interval of a finite number.

## Main results

* `Binary64.roundedMagnitude_of_attracts` — a quotient in the rounding interval
  of a number is rounded to it.
* `Binary64.attracts_shortest` — the digits chosen for a number lie in its
  rounding interval.
-/

namespace SqlQuery.Number

/-! ## Scales -/

theorem cast_twoPow (k : Nat) : ((twoPow k : Nat) : ℚ) = 2 ^ k := by
  rw [twoPow, Nat.pow_eq, Nat.cast_pow, Nat.cast_ofNat]

theorem cast_tenPow (k : Nat) : ((tenPow k : Nat) : ℚ) = 10 ^ k := by
  rw [tenPow, Nat.pow_eq, Nat.cast_pow, Nat.cast_ofNat]

/-- A power with a signed exponent, as a quotient of two others. -/
theorem zpow_eq_div {a : ℚ} (ha : a ≠ 0) (z : Int) : a ^ z = a ^ z.toNat / a ^ (-z).toNat := by
  rw [eq_div_iff (pow_ne_zero _ ha), ← zpow_natCast, ← zpow_natCast, ← zpow_add₀ ha]
  congr 1
  omega

theorem two_zpow_pos (z : Int) : (0 : ℚ) < 2 ^ z := zpow_pos (by norm_num) z

theorem ten_zpow_pos (z : Int) : (0 : ℚ) < 10 ^ z := zpow_pos (by norm_num) z

/-- The next power of two. -/
theorem two_zpow_succ (z : Int) : (2 : ℚ) ^ (z + 1) = 2 * 2 ^ z := by
  rw [zpow_add_one₀ (by norm_num), mul_comm]

theorem two_zpow_le {y z : Int} (h : y ≤ z) : (2 : ℚ) ^ y ≤ 2 ^ z :=
  zpow_le_zpow_right₀ (by norm_num) h

/-! ## Rounded quotients -/

/-- A quotient within a half of a whole number is rounded to it, if the number
is even where the distance is exactly a half. -/
theorem roundedQuotient_eq {num den k : Nat} (hDen : 0 < den) (hLow : 2 * k * den ≤ 2 * num + den)
    (hHigh : 2 * num ≤ 2 * k * den + den)
    (hTie : 2 * k * den = 2 * num + den ∨ 2 * num = 2 * k * den + den → k % 2 = 0) :
    roundedQuotient num den = k := by
  have hSplit := Nat.div_add_mod num den
  have hRest := Nat.mod_lt num hDen
  obtain ⟨quotient, hQuotient⟩ : ∃ quotient, num / den = quotient := ⟨_, rfl⟩
  obtain ⟨rest, hMod⟩ : ∃ rest, num % den = rest := ⟨_, rfl⟩
  rw [hQuotient, hMod] at hSplit
  rw [hMod] at hRest
  have hCases : k = quotient ∨ k = quotient + 1 := by
    have hLess : k < quotient + 2 := by
      by_contra hNot
      have := Nat.mul_le_mul_right den (Nat.le_of_not_lt hNot)
      nlinarith
    have hMore : quotient < k + 1 := by
      by_contra hNot
      have := Nat.mul_le_mul_right den (Nat.le_of_not_lt hNot)
      nlinarith
    omega
  unfold roundedQuotient
  rw [hQuotient, hMod]
  dsimp only
  rcases hCases with rfl | rfl
  · have hHalf : 2 * rest ≤ den := by nlinarith
    have hEven : 2 * rest = den → k % 2 = 0 := fun h => hTie (Or.inr (by nlinarith))
    split
    · rfl
    · rw [if_neg (by omega), hEven (by omega), Nat.add_zero]
  · have hHalf : den ≤ 2 * rest := by nlinarith
    have hEven : 2 * rest = den → (quotient + 1) % 2 = 0 := fun h => hTie (Or.inl (by nlinarith))
    rw [if_neg (by omega)]
    split
    · rfl
    · have := hEven (by omega)
      omega

/-- The same for a quotient of rational numbers. -/
theorem roundedQuotient_eq_of_div {num den k : Nat} (hDen : 0 < den)
    (hLow : (k : ℚ) - 1 / 2 ≤ (num : ℚ) / den) (hHigh : (num : ℚ) / den ≤ k + 1 / 2)
    (hTie : (k : ℚ) - 1 / 2 = (num : ℚ) / den ∨ (num : ℚ) / den = k + 1 / 2 → k % 2 = 0) :
    roundedQuotient num den = k := by
  have hPos : (0 : ℚ) < den := by exact_mod_cast hDen
  rw [le_div_iff₀ hPos] at hLow
  rw [div_le_iff₀ hPos] at hHigh
  rw [eq_div_iff hPos.ne', div_eq_iff hPos.ne'] at hTie
  refine roundedQuotient_eq hDen ?_ ?_ fun h => hTie ?_
  · have : (2 * k * den : ℚ) ≤ 2 * num + den := by linarith
    exact_mod_cast this
  · have : (2 * num : ℚ) ≤ 2 * k * den + den := by linarith
    exact_mod_cast this
  · rcases h with h | h
    · have : (2 * k * den : ℚ) = 2 * num + den := by exact_mod_cast h
      exact Or.inl (by linarith)
    · have : (2 * num : ℚ) = 2 * k * den + den := by exact_mod_cast h
      exact Or.inr (by linarith)

namespace Binary64

/-! ## The place of rounding -/

section Place

variable {num den : Nat}

theorem scaled_pos (hDen : 0 < den) (scale : Int) : 0 < (scaled num den scale).2 :=
  Nat.mul_pos hDen (twoPow_pos _)

/-- A scaled quotient is the quotient counted in units of a power of two. -/
theorem scaled_div (num den : Nat) (scale : Int) :
    ((scaled num den scale).1 : ℚ) / (scaled num den scale).2 = num / den / 2 ^ scale := by
  rw [scaled, zpow_eq_div (by norm_num) scale]
  push_cast
  rw [cast_twoPow, cast_twoPow]
  field_simp

/-- The quotient of two numbers, in terms of their binary lengths. -/
theorem div_bounds (hNum : num ≠ 0) (hDen : den ≠ 0) :
    (2 : ℚ) ^ ((num.log2 : Int) - den.log2 - 1) ≤ num / den ∧
      (num : ℚ) / den < 2 ^ ((num.log2 : Int) - den.log2 + 1) := by
  have hNumLow : (2 : ℚ) ^ num.log2 ≤ num := by exact_mod_cast Nat.log2_self_le hNum
  have hNumHigh : (num : ℚ) < 2 ^ (num.log2 + 1) := by exact_mod_cast Nat.lt_log2_self
  have hDenLow : (2 : ℚ) ^ den.log2 ≤ den := by exact_mod_cast Nat.log2_self_le hDen
  have hDenHigh : (den : ℚ) < 2 ^ (den.log2 + 1) := by exact_mod_cast Nat.lt_log2_self
  have hPos : (0 : ℚ) < den := by exact_mod_cast Nat.pos_of_ne_zero hDen
  rw [le_div_iff₀ hPos, div_lt_iff₀ hPos]
  constructor
  · calc (2 : ℚ) ^ ((num.log2 : Int) - den.log2 - 1) * den
        ≤ 2 ^ ((num.log2 : Int) - den.log2 - 1) * 2 ^ (den.log2 + 1) :=
          mul_le_mul_of_nonneg_left hDenHigh.le (two_zpow_pos _).le
      _ = 2 ^ num.log2 := by
          rw [← zpow_natCast, ← zpow_natCast, ← zpow_add₀ (by norm_num)]
          congr 1
          omega
      _ ≤ num := hNumLow
  · calc (num : ℚ) < 2 ^ (num.log2 + 1) := hNumHigh
      _ = 2 ^ ((num.log2 : Int) - den.log2 + 1) * 2 ^ den.log2 := by
          rw [← zpow_natCast, ← zpow_natCast, ← zpow_add₀ (by norm_num)]
          congr 1
          omega
      _ ≤ 2 ^ ((num.log2 : Int) - den.log2 + 1) * den :=
          mul_le_mul_of_nonneg_left hDenLow (two_zpow_pos _).le

/-- The exponent of the last place of a rounded quotient. -/
def roundingPlace (num den : Nat) : Int :=
  let least : Int := max (-1074) ((num.log2 : Int) - (den.log2 : Int) - 53)
  if twoPow 53 ≤ (scaled num den least).1 / (scaled num den least).2 then least + 1 else least

theorem roundedMagnitude_eq (hNum : num ≠ 0) :
    roundedMagnitude num den = min infinityWord ((roundingPlace num den + 1074).toNat * twoPow 52 +
      roundedQuotient (scaled num den (roundingPlace num den)).1
        (scaled num den (roundingPlace num den)).2) := by
  rw [roundedMagnitude, if_neg hNum]
  rfl

/-- In the place of rounding a quotient has 53 binary digits, or fewer at the
bottom of the range. -/
theorem roundingPlace_spec (hNum : num ≠ 0) (hDen : den ≠ 0) :
    -1074 ≤ roundingPlace num den ∧
      (num : ℚ) / den < 2 ^ (53 : Nat) * 2 ^ roundingPlace num den ∧
      (roundingPlace num den = -1074 ∨
        2 ^ (52 : Nat) * 2 ^ roundingPlace num den ≤ (num : ℚ) / den) := by
  obtain ⟨hLow, hHigh⟩ := div_bounds hNum hDen
  obtain ⟨least, hLeast⟩ : ∃ least : Int,
    max (-1074) ((num.log2 : Int) - (den.log2 : Int) - 53) = least := ⟨_, rfl⟩
  have hTest : twoPow 53 ≤ (scaled num den least).1 / (scaled num den least).2 ↔
      2 ^ (53 : Nat) * 2 ^ least ≤ (num : ℚ) / den := by
    have hPos : 0 < (scaled num den least).2 := scaled_pos (Nat.pos_of_ne_zero hDen) least
    rw [Nat.le_div_iff_mul_le hPos, ← le_div_iff₀ (two_zpow_pos least), ← scaled_div,
      le_div_iff₀ (by exact_mod_cast hPos), ← cast_twoPow]
    exact_mod_cast Iff.rfl
  have hShift : ∀ (k : Nat) (z : Int), (2 : ℚ) ^ k * 2 ^ z = 2 ^ ((k : Int) + z) := fun k z => by
    rw [← zpow_natCast, ← zpow_add₀ (by norm_num)]
  rw [roundingPlace, hLeast]
  split
  · next hLarge =>
    rw [hTest] at hLarge
    refine ⟨by omega, hHigh.trans_le ?_, Or.inr ?_⟩
    · rw [hShift]
      exact two_zpow_le (by push_cast; omega)
    · rw [two_zpow_succ]
      linarith
  · next hSmall =>
    rw [hTest, not_le] at hSmall
    refine ⟨by omega, hSmall, ?_⟩
    by_cases hEnd : least = -1074
    · exact Or.inl hEnd
    · refine Or.inr (le_trans ?_ hLow)
      rw [hShift]
      exact two_zpow_le (by push_cast; omega)

end Place

/-! ## Finite numbers -/

section Finite

variable (x : Binary64)

/-- The magnitude of a finite number. -/
def value : ℚ := x.significand * 2 ^ x.exponent

theorem significand_lt : x.significand < 2 * twoPow 52 := by
  have hRest := Nat.mod_lt x.magnitude (twoPow_pos 52)
  unfold significand
  split <;> omega

theorem exponent_ge : -1074 ≤ x.exponent := by
  unfold exponent
  split <;> omega

theorem exponent_eq_or : x.exponent = -1074 ∨ twoPow 52 ≤ x.significand := by
  unfold exponent significand
  split <;> simp

/-- The word of a number is given by its exponent and its significand. -/
theorem magnitude_eq :
    x.magnitude = (x.exponent + 1074).toNat * twoPow 52 + x.significand := by
  have hSplit := Nat.div_add_mod' x.magnitude (twoPow 52)
  unfold exponent significand field
  split
  · next hField =>
    rw [hField, Nat.zero_mul] at hSplit
    simpa using hSplit.symm
  · next hField =>
    obtain ⟨k, hk⟩ := Nat.exists_eq_succ_of_ne_zero hField
    rw [hk] at hSplit ⊢
    have hExponent : (((k.succ : Nat) : Int) - 1075 + 1074).toNat = k := by omega
    rw [hExponent]
    rw [Nat.succ_mul] at hSplit
    omega

theorem significand_pos {x : Binary64} (hZero : x.isZero = false) : 0 < x.significand := by
  have hMagnitude : x.magnitude ≠ 0 := by simpa [isZero] using hZero
  rcases x.exponent_eq_or with hEnd | hLarge
  · have := x.magnitude_eq
    rw [hEnd] at this
    simp at this
    omega
  · exact Nat.lt_of_lt_of_le (twoPow_pos 52) hLarge

theorem exponent_le {x : Binary64} (hFinite : x.isFinite = true) : x.exponent ≤ 971 := by
  have hBound : x.magnitude < infinityWord := Nat.blt_eq.mp hFinite
  have hWord : infinityWord = 2047 * twoPow 52 := by decide
  have hField : x.field < 2047 := by
    rw [hWord] at hBound
    exact Nat.div_lt_of_lt_mul (by rwa [Nat.mul_comm])
  unfold exponent
  split <;> omega

end Finite

end Binary64

/-! ## Rounding intervals -/

namespace RoundingInterval

variable (interval : RoundingInterval)

/-- A rational number lies in the interval. -/
structure Holds (q : ℚ) : Prop where
  low_le : interval.low * 2 ^ interval.unit ≤ q
  le_high : q ≤ interval.high * 2 ^ interval.unit
  inner : interval.closed = false →
    interval.low * 2 ^ interval.unit < q ∧ q < interval.high * 2 ^ interval.unit

/-- The scales turn multiples of powers of two and of ten into whole numbers of
one unit. -/
theorem exists_unit (place : Int) : ∃ c : ℚ, 0 < c ∧
    (∀ n : Nat, ((n * interval.binaryScale place : Nat) : ℚ) = n * 2 ^ interval.unit * c) ∧
    ∀ n : Nat, ((n * interval.decimalScale place : Nat) : ℚ) = n * 10 ^ place * c := by
  refine ⟨2 ^ (-interval.unit).toNat * 10 ^ (-place).toNat, by positivity, fun n => ?_, fun n => ?_⟩
  · rw [binaryScale, zpow_eq_div (by norm_num) interval.unit]
    push_cast
    rw [cast_twoPow, cast_tenPow]
    field_simp
  · rw [decimalScale, zpow_eq_div (by norm_num) place]
    push_cast
    rw [cast_twoPow, cast_tenPow]
    field_simp

/-- The whole numbers that are compared stand for the bounds of the interval. -/
theorem holds_of_contains {place : Int} {n : Nat} (hContains : interval.contains place n = true) :
    interval.Holds (n * 10 ^ place) := by
  obtain ⟨c, hc, hBinary, hDecimal⟩ := interval.exists_unit place
  have hLe : ∀ {a b : Nat} {p q : ℚ}, (a : ℚ) = p * c → (b : ℚ) = q * c → a ≤ b → p ≤ q := by
    intro a b p q ha hb hab
    have hCast : (a : ℚ) ≤ b := by exact_mod_cast hab
    rw [ha, hb] at hCast
    exact le_of_mul_le_mul_right hCast hc
  have hLt : ∀ {a b : Nat} {p q : ℚ}, (a : ℚ) = p * c → (b : ℚ) = q * c → a < b → p < q := by
    intro a b p q ha hb hab
    have hCast : (a : ℚ) < b := by exact_mod_cast hab
    rw [ha, hb] at hCast
    exact lt_of_mul_lt_mul_right hCast hc.le
  unfold contains at hContains
  split at hContains
  · next hClosed =>
    obtain ⟨hLow, hHigh⟩ := Bool.and_eq_true_iff.1 hContains
    exact ⟨hLe (hBinary _) (hDecimal n) (Nat.le_of_ble_eq_true hLow),
      hLe (hDecimal n) (hBinary _) (Nat.le_of_ble_eq_true hHigh),
      fun hOpen => absurd (hOpen.symm.trans hClosed) Bool.false_ne_true⟩
  · obtain ⟨hLow, hHigh⟩ := Bool.and_eq_true_iff.1 hContains
    have hLow' := hLt (hBinary interval.low) (hDecimal n) (Nat.blt_eq.mp hLow)
    have hHigh' := hLt (hDecimal n) (hBinary interval.high) (Nat.blt_eq.mp hHigh)
    exact ⟨hLow'.le, hHigh'.le, fun _ => ⟨hLow', hHigh'⟩⟩

theorem contains_of_nearestAt {tie : Tie} {place : Int} {n : Nat}
    (hNearest : interval.nearestAt tie place = some n) : interval.contains place n = true := by
  unfold nearestAt at hNearest
  dsimp only at hNearest
  split at hNearest
  · cases hNearest
  · next hBelow _ =>
    cases hNearest
    exact hBelow
  · next _ hAbove =>
    cases hNearest
    exact hAbove
  · next hBelow hAbove =>
    split at hNearest
    · cases hNearest
      exact hBelow
    · split at hNearest
      · cases hNearest
        exact hAbove
      · split at hNearest
        · cases hNearest
          exact hAbove
        · cases hNearest
          rcases Nat.mod_two_eq_zero_or_one (interval.floorAt place) with h | h
          · rwa [h]
          · rwa [h]

/-- What the search finds lies in the interval. -/
theorem holds_of_search {tie : Tie} {count : Nat} {place : Int} {d : Decimal}
    (hSearch : interval.search tie count place = some d) :
    interval.Holds (d.digits * 10 ^ d.exponent) := by
  induction count generalizing place with
  | zero => cases hSearch
  | succ count ih =>
    unfold search at hSearch
    split at hSearch
    · next n hNearest =>
      cases hSearch
      exact interval.holds_of_contains (interval.contains_of_nearestAt hNearest)
    · exact ih hSearch

end RoundingInterval

namespace Binary64

/-! ## Rounding to a given number -/

section Attracts

variable {x : Binary64} {q : ℚ}

/-- A rational number lies in the rounding interval of a number. -/
def Attracts (x : Binary64) (q : ℚ) : Prop := (RoundingInterval.of x).Holds q

theorem two_zpow_sub_two (z : Int) : (2 : ℚ) ^ (z - 2) = 2 ^ z / 4 := by
  rw [zpow_sub₀ (by norm_num)]
  norm_num

/-- The ends of the rounding interval: half a unit of the last place away, only a
quarter below a power of two, and left out if the significand is odd. -/
theorem Attracts.bounds (hAttracts : x.Attracts q) (hZero : x.isZero = false) :
    ((x.significand : ℚ) - 1 / 2) * 2 ^ x.exponent ≤ q ∧
      q ≤ (x.significand + 1 / 2) * 2 ^ x.exponent ∧
      (x.significand % 2 ≠ 0 → ((x.significand : ℚ) - 1 / 2) * 2 ^ x.exponent < q ∧
        q < (x.significand + 1 / 2) * 2 ^ x.exponent) ∧
      (x.significand = twoPow 52 → x.exponent ≠ -1074 →
        ((x.significand : ℚ) - 1 / 4) * 2 ^ x.exponent ≤ q) := by
  obtain ⟨hLow, hHigh, hInner⟩ := hAttracts
  have hPos := two_zpow_pos x.exponent
  have hOne : (1 : ℚ) ≤ x.significand := by exact_mod_cast significand_pos hZero
  have hUnit : (2 : ℚ) ^ (RoundingInterval.of x).unit = 2 ^ x.exponent / 4 := two_zpow_sub_two _
  have hHigh' : ((RoundingInterval.of x).high : ℚ) = 4 * x.significand + 2 := by
    simp [RoundingInterval.of]
  have hClosed : x.significand % 2 ≠ 0 → (RoundingInterval.of x).closed = false := by
    intro hOdd
    simpa [RoundingInterval.of] using hOdd
  rw [hUnit, hHigh'] at hHigh hInner
  rw [hUnit] at hLow
  have hLow' : (4 * x.significand - 2 : ℚ) ≤ (RoundingInterval.of x).low ∧
      (x.significand = twoPow 52 → x.exponent ≠ -1074 →
        ((RoundingInterval.of x).low : ℚ) = 4 * x.significand - 1) := by
    have hPos' := significand_pos hZero
    show _ ≤ ((if _ then _ else _ : Nat) : ℚ) ∧ (_ → _ → ((if _ then _ else _ : Nat) : ℚ) = _)
    split
    · rw [Nat.cast_sub (by omega)]
      push_cast
      exact ⟨by linarith, fun _ _ => rfl⟩
    · next hNot =>
      rw [Nat.cast_sub (by omega)]
      push_cast
      exact ⟨le_rfl, fun hPower hEnd => absurd ⟨hPower, hEnd⟩ hNot⟩
  have hScale : (4 * x.significand - 2 : ℚ) * (2 ^ x.exponent / 4) ≤
      (RoundingInterval.of x).low * (2 ^ x.exponent / 4) :=
    mul_le_mul_of_nonneg_right hLow'.1 (by positivity)
  refine ⟨by linarith, by linarith, fun hOdd => ?_, fun hPower hEnd => ?_⟩
  · obtain ⟨hLess, hMore⟩ := hInner (hClosed hOdd)
    exact ⟨by linarith, by linarith⟩
  · rw [hLow'.2 hPower hEnd] at hLow
    linarith

/-- A quotient that is rounded in the last place of a number is rounded to its
significand. -/
theorem roundedQuotient_of_attracts {num den : Nat} (hDen : 0 < den) (hZero : x.isZero = false)
    (hAttracts : x.Attracts ((num : ℚ) / den)) :
    roundedQuotient (scaled num den x.exponent).1 (scaled num den x.exponent).2 =
      x.significand := by
  obtain ⟨hLow, hHigh, hOdd, -⟩ := hAttracts.bounds hZero
  have hPos := two_zpow_pos x.exponent
  have hDiv := scaled_div num den x.exponent
  refine roundedQuotient_eq_of_div (scaled_pos hDen _) ?_ ?_ fun hTie => ?_
  · rwa [hDiv, le_div_iff₀ hPos]
  · rwa [hDiv, div_le_iff₀ hPos]
  · rw [hDiv, eq_div_iff hPos.ne', div_eq_iff hPos.ne'] at hTie
    by_contra hEven
    obtain ⟨hLess, hMore⟩ := hOdd hEven
    rcases hTie with h | h <;> linarith

/-- A quotient just below a power of two, in the place below it, is rounded up to
that power. -/
theorem roundedQuotient_of_attracts_below {num den : Nat} {place : Int} (hDen : 0 < den)
    (hPower : x.significand = twoPow 52) (hPlace : place + 1 = x.exponent)
    (hLow : ((x.significand : ℚ) - 1 / 4) * 2 ^ x.exponent ≤ (num : ℚ) / den)
    (hHigh : (num : ℚ) / den < 2 ^ (53 : Nat) * 2 ^ place) :
    roundedQuotient (scaled num den place).1 (scaled num den place).2 = twoPow 53 := by
  have hPos := two_zpow_pos place
  have hDiv := scaled_div num den place
  have hCast : ((twoPow 53 : Nat) : ℚ) = 2 * x.significand := by
    rw [hPower, cast_twoPow, cast_twoPow]
    norm_num
  rw [← hPlace, two_zpow_succ] at hLow
  refine roundedQuotient_eq_of_div (scaled_pos hDen _) ?_ ?_ fun _ => by decide
  · rw [hDiv, le_div_iff₀ hPos, hCast]
    linarith
  · rw [hDiv, div_le_iff₀ hPos, cast_twoPow]
    linarith

/-- The significand of a number other than zero, as a rational. -/
theorem significand_bounds (hZero : x.isZero = false) :
    (1 : ℚ) ≤ x.significand ∧ (x.significand : ℚ) + 1 ≤ 2 * 2 ^ (52 : Nat) := by
  refine ⟨by exact_mod_cast significand_pos hZero, ?_⟩
  rw [← cast_twoPow]
  exact_mod_cast x.significand_lt

/-- A quotient in the rounding interval of a number is rounded to it. -/
theorem roundedMagnitude_of_attracts {num den : Nat} (hDen : den ≠ 0)
    (hFinite : x.isFinite = true) (hZero : x.isZero = false)
    (hAttracts : x.Attracts ((num : ℚ) / den)) : roundedMagnitude num den = x.magnitude := by
  have hBounds := hAttracts.bounds hZero
  obtain ⟨hLow, hHigh, -, hQuarter⟩ := hBounds
  have hPosition := x.magnitude_eq
  have hBelow : x.magnitude < infinityWord := Nat.blt_eq.mp hFinite
  have hPos := two_zpow_pos x.exponent
  obtain ⟨hOne, hLess⟩ := significand_bounds hZero
  have hNum : num ≠ 0 := by
    rintro rfl
    rw [Nat.cast_zero, zero_div] at hLow
    nlinarith
  have hExponent := x.exponent_ge
  obtain ⟨hLeast, hUpper, hLower⟩ := roundingPlace_spec hNum hDen
  rw [roundedMagnitude_eq hNum]
  generalize hPlace : roundingPlace num den = place at *
  -- The place of rounding is the last place of the number or, just below a power
  -- of two, the one below it.
  rcases lt_trichotomy place x.exponent with hSmall | hSame | hLarge
  · have hEnd : x.exponent ≠ -1074 := by omega
    have hLarge := (x.exponent_eq_or).resolve_left hEnd
    have hStep : (2 : ℚ) ^ (53 : Nat) * 2 ^ place ≤ 2 ^ (52 : Nat) * 2 ^ x.exponent := by
      have := two_zpow_le (show place + 1 ≤ x.exponent by omega)
      rw [two_zpow_succ] at this
      linarith
    have hPower : x.significand = twoPow 52 := by
      by_contra hNot
      have hMore : (2 : ℚ) ^ (52 : Nat) + 1 ≤ x.significand := by
        rw [← cast_twoPow]
        exact_mod_cast Nat.lt_of_le_of_ne hLarge (Ne.symm hNot)
      nlinarith
    have hNext : place + 1 = x.exponent := by
      by_contra hNot
      have := two_zpow_le (show place + 1 + 1 ≤ x.exponent by omega)
      rw [two_zpow_succ, two_zpow_succ] at this
      have hCast : (x.significand : ℚ) = 2 ^ (52 : Nat) := by rw [hPower, cast_twoPow]
      rw [hCast] at hLow
      linarith
    rw [roundedQuotient_of_attracts_below (Nat.pos_of_ne_zero hDen) hPower hNext
      (hQuarter hPower hEnd) hUpper]
    have hDouble : twoPow 53 = 2 * twoPow 52 := by decide
    have hSuccess : (x.exponent + 1074).toNat = (place + 1074).toNat + 1 := by omega
    have hCarry : ∀ k unit : Nat, k * unit + 2 * unit = (k + 1) * unit + unit := fun k unit => by
      ring
    rw [hPower] at hPosition
    rw [hDouble, hCarry, ← hSuccess, ← hPosition]
    exact Nat.min_eq_right hBelow.le
  · rw [hSame, roundedQuotient_of_attracts (Nat.pos_of_ne_zero hDen) hZero hAttracts, ← hPosition]
    exact Nat.min_eq_right hBelow.le
  · have hMore := hLower.resolve_left (by omega)
    have := two_zpow_le (show x.exponent + 1 ≤ place by omega)
    rw [two_zpow_succ] at this
    nlinarith

end Attracts

end Binary64

/-! ## Decimal numbers -/

namespace Decimal

/-- The number that a decimal number is. -/
def value (d : Decimal) : ℚ := d.digits * 10 ^ d.exponent

/-- Dropping zeros at the end does not change a decimal number. -/
theorem value_trimmed (limit : Nat) (d : Decimal) : (d.trimmed limit).value = d.value := by
  induction limit generalizing d with
  | zero => rfl
  | succ limit ih =>
    unfold trimmed
    split
    · next hZeros =>
      rw [Bool.and_eq_true, beq_iff_eq] at hZeros
      rw [ih, value, value, zpow_add_one₀ (by norm_num)]
      have hCast : (d.digits : ℚ) = 10 * (d.digits / 10 : Nat) := by
        have := Nat.div_add_mod d.digits 10
        rw [hZeros.1, Nat.add_zero] at this
        exact_mod_cast this.symm
      rw [hCast]
      ring
    · rfl

end Decimal

namespace Binary64

section Decimals

variable {x : Binary64}

/-- A number lies in its own rounding interval. -/
theorem attracts_value (hZero : x.isZero = false) : x.Attracts x.value := by
  have hPos := two_zpow_pos x.exponent
  have hOne := significand_pos hZero
  have hUnit : (2 : ℚ) ^ (RoundingInterval.of x).unit = 2 ^ x.exponent / 4 := two_zpow_sub_two _
  have hMiddle : x.value = (4 * x.significand : ℚ) * 2 ^ (RoundingInterval.of x).unit := by
    rw [hUnit, value]
    ring
  have hUnitPos := two_zpow_pos (RoundingInterval.of x).unit
  have hLow : ((RoundingInterval.of x).low : ℚ) < 4 * x.significand := by
    have : (RoundingInterval.of x).low < 4 * x.significand := by
      simp only [RoundingInterval.of]
      split <;> omega
    exact_mod_cast this
  have hHigh : (4 * x.significand : ℚ) < (RoundingInterval.of x).high := by
    have : 4 * x.significand < (RoundingInterval.of x).high := Nat.lt_add_of_pos_right (by decide)
    exact_mod_cast this
  have hLow' := mul_lt_mul_of_pos_right hLow hUnitPos
  have hHigh' := mul_lt_mul_of_pos_right hHigh hUnitPos
  rw [hMiddle]
  exact ⟨hLow'.le, hHigh'.le, fun _ => ⟨hLow', hHigh'⟩⟩

theorem value_exactDecimal (x : Binary64) : x.exactDecimal.value = x.value := by
  rw [Decimal.value, exactDecimal, value]
  push_cast
  rw [cast_twoPow, Nat.pow_eq, Nat.cast_pow, Nat.cast_ofNat]
  rcases le_total 0 x.exponent with hExponent | hExponent
  · obtain ⟨k, hk⟩ := Int.eq_ofNat_of_zero_le hExponent
    rw [hk]
    simp
  · obtain ⟨k, hk⟩ := Int.eq_ofNat_of_zero_le (show 0 ≤ -x.exponent by omega)
    have hNegative : x.exponent = -(k : Int) := by omega
    rw [min_eq_right hExponent, hNegative, zpow_neg, zpow_neg, zpow_natCast, zpow_natCast,
      show (10 : ℚ) = 2 * 5 by norm_num, mul_pow]
    simp only [neg_neg, Int.toNat_natCast, Int.toNat_neg_natCast, pow_zero, mul_one]
    field_simp

/-- The digits chosen for a number lie in its rounding interval. -/
theorem attracts_shortest (tie : Tie) (hZero : x.isZero = false) :
    x.Attracts (x.shortest tie).value := by
  rw [shortest, Decimal.value_trimmed]
  cases hSearch : (RoundingInterval.of x).search tie 17 (RoundingInterval.of x).firstPlace with
  | none =>
    rw [Option.getD_none, value_exactDecimal]
    exact attracts_value hZero
  | some d => exact (RoundingInterval.of x).holds_of_search hSearch

/-- The rounding intervals of finite numbers lie between `10 ^ -400` and
`10 ^ 400`. -/
theorem Attracts.range {q : ℚ} (hAttracts : x.Attracts q) (hFinite : x.isFinite = true)
    (hZero : x.isZero = false) : (10 : ℚ) ^ (-400 : Int) < q ∧ q < 10 ^ (400 : Int) := by
  obtain ⟨hLow, hHigh, -, -⟩ := hAttracts.bounds hZero
  obtain ⟨hOne, hLess⟩ := significand_bounds hZero
  have hLeast := two_zpow_le x.exponent_ge
  have hLargest := two_zpow_le (exponent_le hFinite)
  have hTen : (2 : ℚ) ^ (1200 : Int) ≤ 10 ^ (400 : Int) := by
    rw [show (1200 : Int) = 3 * 400 by norm_num, zpow_mul]
    exact zpow_le_zpow_left₀ (by norm_num) (by norm_num) (by norm_num)
  constructor
  · calc (10 : ℚ) ^ (-400 : Int) ≤ 2 ^ (-1200 : Int) := by
          rw [zpow_neg, zpow_neg]
          exact inv_anti₀ (two_zpow_pos _) hTen
      _ < 2 ^ (-1075 : Int) := zpow_lt_zpow_right₀ (by norm_num) (by norm_num)
      _ = 1 / 2 * 2 ^ (-1074 : Int) := by
          rw [show (-1074 : Int) = -1075 + 1 by norm_num, two_zpow_succ]
          ring
      _ ≤ 1 / 2 * 2 ^ x.exponent := mul_le_mul_of_nonneg_left hLeast (by norm_num)
      _ ≤ (x.significand - 1 / 2) * 2 ^ x.exponent :=
          mul_le_mul_of_nonneg_right (by linarith) (two_zpow_pos _).le
      _ ≤ q := hLow
  · calc q ≤ (x.significand + 1 / 2) * 2 ^ x.exponent := hHigh
      _ ≤ 2 * 2 ^ (52 : Nat) * 2 ^ (971 : Int) :=
          mul_le_mul (by linarith) hLargest (two_zpow_pos _).le (by norm_num)
      _ = 2 ^ (1024 : Int) := by
          rw [← pow_succ', ← zpow_natCast, ← zpow_add₀ (by norm_num)]
          norm_num
      _ < 2 ^ (1200 : Int) := zpow_lt_zpow_right₀ (by norm_num) (by norm_num)
      _ ≤ 10 ^ (400 : Int) := hTen

/-- A number that is not negative is its magnitude. -/
theorem ofMagnitude_magnitude (hSign : x.negative = false) : ofMagnitude false x.magnitude = x := by
  have hWord : x.bits.toNat < twoPow 63 * 2 := x.bits.toNat_lt
  have hBits : x.bits.toNat < twoPow 63 := by
    rw [negative, beq_eq_false_iff_ne] at hSign
    have hHalf := Nat.div_lt_of_lt_mul hWord
    have hNone : x.bits.toNat / twoPow 63 = 0 := by
      generalize x.bits.toNat / twoPow 63 = half at hSign hHalf ⊢
      omega
    exact (Nat.div_eq_zero_iff_lt (twoPow_pos 63)).1 hNone
  obtain ⟨bits⟩ := x
  rw [ofMagnitude, magnitude, Nat.mod_eq_of_lt hBits]
  simp

/-- A decimal number in the rounding interval of a number is read as it. -/
theorem ofDecimal_of_attracts {d : Decimal} (hFinite : x.isFinite = true) (hZero : x.isZero = false)
    (hSign : x.negative = false) (hAttracts : x.Attracts d.value) : ofDecimal false d = x := by
  obtain ⟨hSmall, hBig⟩ := hAttracts.range hFinite hZero
  have hDigits : d.digits ≠ 0 := by
    intro h
    rw [Decimal.value, h, Nat.cast_zero, zero_mul] at hSmall
    exact absurd hSmall (ten_zpow_pos _).le.not_gt
  have hOne : (1 : ℚ) ≤ d.digits := by exact_mod_cast Nat.pos_of_ne_zero hDigits
  have hUpper : ¬400 < d.exponent := by
    intro h
    have hLarge : (10 : ℚ) ^ (400 : Int) ≤ 10 ^ d.exponent := zpow_le_zpow_right₀ (by norm_num) h.le
    have hScale : (10 : ℚ) ^ d.exponent ≤ d.value :=
      le_mul_of_one_le_left (ten_zpow_pos _).le hOne
    exact absurd hBig (hLarge.trans hScale).not_gt
  have hLower : ¬d.exponent < -400 - (d.digits.log2 : Int) := by
    intro h
    have hLength : (d.digits : ℚ) ≤ 10 ^ (d.digits.log2 + 1) := by
      have hTwo : d.digits < 2 ^ (d.digits.log2 + 1) := Nat.lt_log2_self
      have hTen : 2 ^ (d.digits.log2 + 1) ≤ 10 ^ (d.digits.log2 + 1) :=
        Nat.pow_le_pow_left (by decide) _
      exact_mod_cast (hTwo.le.trans hTen)
    have hTiny : d.value ≤ 10 ^ (-400 : Int) := by
      calc d.value ≤ 10 ^ (d.digits.log2 + 1) * 10 ^ d.exponent :=
            mul_le_mul_of_nonneg_right hLength (ten_zpow_pos _).le
        _ = 10 ^ ((d.digits.log2 : Int) + 1 + d.exponent) := by
            rw [← zpow_natCast, ← zpow_add₀ (by norm_num)]
            rfl
        _ ≤ 10 ^ (-400 : Int) := zpow_le_zpow_right₀ (by norm_num) (by omega)
    exact absurd hSmall hTiny.not_gt
  have hRatio : ((d.digits * tenPow d.exponent.toNat : Nat) : ℚ) /
      (tenPow (-d.exponent).toNat : Nat) = d.value := by
    rw [Decimal.value, zpow_eq_div (by norm_num) d.exponent]
    push_cast
    rw [cast_tenPow, cast_tenPow]
    ring
  rw [ofDecimal, if_neg hDigits, if_neg hUpper, if_neg hLower, ofRatio,
    roundedMagnitude_of_attracts (tenPow_pos _).ne' hFinite hZero (hRatio ▸ hAttracts),
    ofMagnitude_magnitude hSign]

end Decimals

end Binary64

end SqlQuery.Number
