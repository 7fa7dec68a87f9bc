import SqlQuery.Json
import SqlQuery.Proofs.FloatText

/-!
# Distinct numbers have distinct texts

Finite floating-point numbers are written as a sign and a literal that reads
back, so their texts tell them apart; the sign of zero is written too.  A
floating text has a point or an exponent and the text of an integer has
neither, so the two kinds cannot be confused.  A number is written with digits
and four other characters, and ends before any other character.

A style that marks positive exponents differs from one that does not by these
marks only, so nothing is lost when they are dropped.

## Main definitions

* `Number.isMark` — the characters of numbers.

## Main results

* `Number.Style.text_inj` — distinct finite numbers have distinct texts.
* `Number.Style.text_ne_toString` — a floating-point number is not written like an
  integer.
* `Number.Style.isMark_of_mem_text` — the characters of a number are marks.
-/

namespace SqlQuery

namespace Number

/-! ## Sign and magnitude -/

namespace Binary64

variable {x y : Binary64}

/-- The number without its sign. -/
def unsigned (x : Binary64) : Binary64 := ofMagnitude false x.magnitude

theorem magnitude_lt (x : Binary64) : x.magnitude < twoPow 63 :=
  Nat.mod_lt _ (twoPow_pos 63)

@[simp] theorem magnitude_unsigned (x : Binary64) : x.unsigned.magnitude = x.magnitude :=
  magnitude_ofMagnitude x.magnitude_lt

@[simp] theorem negative_unsigned (x : Binary64) : x.unsigned.negative = false :=
  negative_ofMagnitude x.magnitude_lt

/-- What is computed from the magnitude does not depend on the sign. -/
theorem shortest_unsigned (tie : Tie) (x : Binary64) :
    x.unsigned.shortest tie = x.shortest tie := by
  have hField : x.unsigned.field = x.field := by rw [field, magnitude_unsigned, field]
  have hSignificand : x.unsigned.significand = x.significand := by
    rw [significand, significand, hField, magnitude_unsigned]
  have hExponent : x.unsigned.exponent = x.exponent := by rw [exponent, exponent, hField]
  have hInterval : RoundingInterval.of x.unsigned = RoundingInterval.of x := by
    simp only [RoundingInterval.of, hSignificand, hExponent]
  rw [shortest, shortest, exactDecimal, exactDecimal, hInterval, hSignificand, hExponent]

/-- A number is its sign and its magnitude. -/
theorem ext_of_unsigned (hSign : x.negative = y.negative) (hUnsigned : x.unsigned = y.unsigned) :
    x = y := by
  have hMagnitude : x.magnitude = y.magnitude := by
    rw [← magnitude_unsigned x, hUnsigned, magnitude_unsigned]
  have hWord : ∀ z : Binary64, z.bits.toNat / twoPow 63 < 2 := fun z =>
    Nat.div_lt_of_lt_mul (show z.bits.toNat < twoPow 63 * 2 from z.bits.toNat_lt)
  have hHalf : x.bits.toNat / twoPow 63 = y.bits.toNat / twoPow 63 := by
    have hx := hWord x
    have hy := hWord y
    simp only [negative] at hSign
    generalize x.bits.toNat / twoPow 63 = p at hSign hx ⊢
    generalize y.bits.toNat / twoPow 63 = q at hSign hy ⊢
    rcases (by omega : p = 0 ∨ p = 1) with rfl | rfl
    · rcases (by omega : q = 0 ∨ q = 1) with rfl | rfl
      · rfl
      · cases hSign
    · rcases (by omega : q = 0 ∨ q = 1) with rfl | rfl
      · cases hSign
      · rfl
  have hBits : x.bits.toNat = y.bits.toNat := by
    rw [← Nat.div_add_mod x.bits.toNat (twoPow 63), ← Nat.div_add_mod y.bits.toNat (twoPow 63),
      hHalf]
    exact congrArg _ hMagnitude
  obtain ⟨bits⟩ := x
  obtain ⟨bits'⟩ := y
  exact congrArg mk (UInt64.toNat.inj hBits)

theorem isFinite_unsigned (hFinite : x.isFinite = true) : x.unsigned.isFinite = true := by
  rw [isFinite, magnitude_unsigned]
  exact hFinite

end Binary64

/-! ## The characters of a number -/

/-- The characters that numbers are written with. -/
def isMark (c : Char) : Bool :=
  c.isDigit || c == '.' || c == 'e' || c == '+' || c == '-'

theorem isMark_of_isDigit {c : Char} (hDigit : c.isDigit = true) : isMark c = true := by
  simp [isMark, hDigit]

/-- An integer is written with digits, after a sign if it is negative. -/
theorem mem_toString {i : Int} {c : Char} (hMem : c ∈ (toString i).toList) :
    c.isDigit = true ∨ c = '-' := by
  rw [Int.toString_eq_repr, Int.repr_eq_if] at hMem
  split at hMem
  · rw [Nat.toList_repr] at hMem
    exact Or.inl (isDigit_toDigits _ c hMem)
  · rw [String.toList_append, Nat.toList_repr, List.mem_append] at hMem
    rcases hMem with hSign | hDigit
    · exact Or.inr (List.mem_singleton.1 hSign)
    · exact Or.inl (isDigit_toDigits _ c hDigit)

theorem isMark_of_mem_toString (i : Int) : ∀ c ∈ (toString i).toList, isMark c = true := by
  intro c hc
  rcases mem_toString hc with hDigit | rfl
  · exact isMark_of_isDigit hDigit
  · rfl

theorem isFloating_toString (i : Int) : Token.isFloating (toString i).toList = false := by
  rw [Token.isFloating, List.any_eq_false]
  intro c hc
  rcases mem_toString hc with hDigit | rfl
  · have hPoint : c ≠ '.' := by rintro rfl; cases hDigit
    have hLower : c ≠ 'e' := by rintro rfl; cases hDigit
    have hUpper : c ≠ 'E' := by rintro rfl; cases hDigit
    simp [hPoint, hLower, hUpper]
  · decide

/-- Distinct integers have distinct texts. -/
theorem toString_inj {i j : Int} (hText : toString i = toString j) : i = j := by
  have hNat : ∀ {m n : Nat}, m.repr = n.repr → m = n := by
    intro m n hRepr
    have hDigits := congrArg String.toList hRepr
    rw [Nat.toList_repr, Nat.toList_repr] at hDigits
    rw [← digitsValue_toDigits m, hDigits, digitsValue_toDigits]
  have hMinus : ∀ m n : Nat, m.repr ≠ "-" ++ n.repr := by
    intro m n hRepr
    have hMem : '-' ∈ m.repr.toList := by simp [hRepr]
    rw [Nat.toList_repr] at hMem
    cases isDigit_toDigits m '-' hMem
  rw [Int.toString_eq_repr, Int.toString_eq_repr, Int.repr_eq_if, Int.repr_eq_if] at hText
  split at hText <;> split at hText
  · have hEq := hNat hText
    omega
  · exact absurd hText (hMinus _ _)
  · exact absurd hText.symm (hMinus _ _)
  · have hEq := hNat ((String.append_right_inj "-").1 hText)
    omega

theorem toString_ne_nil (i : Int) : (toString i).toList ≠ [] := by
  rw [Int.toString_eq_repr, Int.repr_eq_if]
  split
  · rw [Nat.toList_repr]
    exact Nat.toDigits_ne_nil
  · simp

end Number

/-- The characters of a literal. -/
theorem Numeral.mem_text {n : Numeral} {c : Char} (hMem : c ∈ n.text) :
    c.isDigit = true ∨ c = '.' ∨ c = 'e' ∨ c = '-' := by
  rw [Numeral.text, List.mem_append, List.mem_append] at hMem
  rcases hMem with hWhole | hFraction | hPower
  · exact Or.inl (n.whole_digits c hWhole)
  · unfold Numeral.pointed at hFraction
    split at hFraction
    · exact absurd hFraction List.not_mem_nil
    · rcases List.mem_cons.1 hFraction with rfl | hDigit
      · exact Or.inr (Or.inl rfl)
      · exact Or.inl (n.fraction_digits c hDigit)
  · unfold Numeral.marked at hPower
    split at hPower
    · exact absurd hPower List.not_mem_nil
    · rcases List.mem_cons.1 hPower with rfl | hRest
      · exact Or.inr (Or.inr (Or.inl rfl))
      · rcases List.mem_append.1 hRest with hSign | hDigit
        · rcases n.sign_eq with hNone | hMinus
          · rw [hNone] at hSign
            exact absurd hSign List.not_mem_nil
          · rw [hMinus] at hSign
            exact Or.inr (Or.inr (Or.inr (List.mem_singleton.1 hSign)))
        · exact Or.inl (n.power_digits c hDigit)

/-- A literal begins with a digit. -/
theorem Numeral.exists_text_cons (n : Numeral) : ∃ c cs, n.text = c :: cs ∧ c.isDigit = true := by
  obtain ⟨c, whole, hWhole⟩ := List.exists_cons_of_ne_nil n.whole_ne_nil
  have hDigit := n.whole_digits c (by rw [hWhole]; exact List.mem_cons_self)
  exact ⟨c, whole ++ (pointed n.fraction ++ marked n.sign n.power),
    by rw [text, hWhole]; rfl, hDigit⟩

namespace Number.Style

variable {style : Style} {x y : Binary64}

/-- The sign of a number is written in front of its magnitude. -/
theorem toList_text (hFinite : x.isFinite = true) :
    (style.text x).toList =
      (if x.negative then ['-'] else []) ++ (style.text x.unsigned).toList := by
  have hUnsigned := Binary64.isFinite_unsigned hFinite
  have hZero : x.unsigned.isZero = x.isZero := by
    rw [Binary64.isZero, Binary64.magnitude_unsigned, Binary64.isZero]
  simp only [text, Binary64.isNaN_of_isFinite hFinite, Binary64.isInfinite_of_isFinite hFinite,
    Binary64.isNaN_of_isFinite hUnsigned, Binary64.isInfinite_of_isFinite hUnsigned,
    Binary64.negative_unsigned, Binary64.shortest_unsigned, hZero, Bool.false_eq_true, if_false,
    String.toList_ofList, List.nil_append]

/-! ## Marks of positive exponents -/

/-- The style without marks of positive exponents. -/
def unmarked (style : Style) : Style := { style with plus := "" }

/-- The text with the marks of positive exponents dropped. -/
def dropMarks (cs : List Char) : List Char := cs.filter (· != '+')

theorem dropMarks_digits {cs : List Char} (hDigits : ∀ c ∈ cs, c.isDigit = true) :
    dropMarks cs = cs := by
  rw [dropMarks, List.filter_eq_self]
  intro c hc
  have hDigit := hDigits c hc
  rw [bne_iff_ne]
  rintro rfl
  cases hDigit

theorem dropMarks_append (cs ds : List Char) :
    dropMarks (cs ++ ds) = dropMarks cs ++ dropMarks ds :=
  List.filter_append ..

theorem dropMarks_sign (negative : Bool) :
    dropMarks (if negative then ['-'] else []) = if negative then ['-'] else [] := by
  cases negative <;> rfl

theorem dropMarks_numeral (n : Numeral) : dropMarks n.text = n.text := by
  rw [dropMarks, List.filter_eq_self]
  intro c hc
  rw [bne_iff_ne]
  rintro rfl
  have hMark := Numeral.mem_text hc
  revert hMark
  decide

theorem dropMarks_positional {digits : List Char} (hNe : digits ≠ [])
    (hDigits : ∀ c ∈ digits, c.isDigit = true) (place : Int) :
    dropMarks (positional digits place) = positional digits place := by
  obtain ⟨n, hText, -⟩ := exists_positional hNe hDigits place
  rw [← hText, dropMarks_numeral]

/-- Digits and an exponent lose only the mark of the exponent. -/
theorem dropMarks_exponent {mantissa : List Char} (hMantissa : dropMarks mantissa = mantissa)
    (first : Int) :
    dropMarks (mantissa ++ 'e' :: (if 0 ≤ first then "+".toList else ['-']) ++
        Nat.toDigits 10 first.natAbs) =
      mantissa ++ 'e' :: (if 0 ≤ first then "".toList else ['-']) ++
        Nat.toDigits 10 first.natAbs := by
  have hPower := dropMarks_digits (isDigit_toDigits first.natAbs)
  rw [dropMarks_append, dropMarks_append, hMantissa, hPower]
  split <;> rfl

theorem dropMarks_scientific {digits : List Char} (hDigits : ∀ c ∈ digits, c.isDigit = true)
    (place : Int) : dropMarks (scientific "+" digits place) = scientific "" digits place := by
  unfold scientific
  split
  · next d e rest =>
    have hFirst : dropMarks [d] = [d] :=
      dropMarks_digits fun c hc => hDigits c (by simp [List.mem_singleton.1 hc])
    have hRest : dropMarks (e :: rest) = e :: rest :=
      dropMarks_digits fun c hc => hDigits c (List.mem_cons_of_mem d hc)
    have hMantissa : dropMarks (d :: '.' :: e :: rest) = d :: '.' :: e :: rest := by
      show dropMarks ([d] ++ (['.'] ++ (e :: rest))) = _
      rw [dropMarks_append, dropMarks_append, hFirst, hRest]
      rfl
    exact dropMarks_exponent hMantissa _
  · exact dropMarks_exponent (dropMarks_digits hDigits) _

/-- Without its marks, a text in a style that marks positive exponents is the text
in the style that does not. -/
theorem dropMarks_text (hPlus : style.plus = "+") (hFinite : x.isFinite = true) :
    dropMarks (style.text x).toList = (style.unmarked.text x).toList := by
  have hDigits := isDigit_toDigits (x.shortest style.tie).digits
  have hLayout : dropMarks (style.layout (x.shortest style.tie)) =
      style.unmarked.layout (x.shortest style.tie) := by
    unfold layout
    rw [hPlus]
    dsimp only
    split
    · next hPlace =>
      exact (dropMarks_positional Nat.toDigits_ne_nil hDigits _).trans (if_pos hPlace).symm
    · next hPlace => exact (dropMarks_scientific hDigits _).trans (if_neg hPlace).symm
  simp only [text, Binary64.isNaN_of_isFinite hFinite, Binary64.isInfinite_of_isFinite hFinite,
    Bool.false_eq_true, if_false, String.toList_ofList, dropMarks_append, dropMarks_sign]
  congr 1
  split
  · rfl
  · exact hLayout

/-! ## Texts of numbers -/

/-- Up to marks, the text of a finite number is a sign and a literal that reads
back. -/
theorem exists_numeral_text (hPlus : style.plus = "" ∨ style.plus = "+")
    (hFinite : x.isFinite = true) :
    ∃ n : Numeral, dropMarks (style.text x).toList = (if x.negative then ['-'] else []) ++ n.text ∧
      Token.readNumber n.text = some (.float x.unsigned) := by
  have hUnsigned := Binary64.isFinite_unsigned hFinite
  rcases hPlus with hNone | hSome
  · obtain ⟨n, hText, hValue⟩ := exists_numeral hNone hUnsigned x.negative_unsigned
    refine ⟨n, ?_, n.readNumber_text hValue hUnsigned⟩
    rw [toList_text hFinite, ← hText, dropMarks_append, dropMarks_sign, dropMarks_numeral]
  · obtain ⟨n, hText, hValue⟩ :=
      exists_numeral (show style.unmarked.plus = "" from rfl) hUnsigned x.negative_unsigned
    refine ⟨n, ?_, n.readNumber_text hValue hUnsigned⟩
    rw [dropMarks_text hSome hFinite, toList_text hFinite, hText]

variable (hPlus : style.plus = "" ∨ style.plus = "+")
include hPlus

/-- Distinct finite numbers have distinct texts. -/
theorem text_inj (hx : x.isFinite = true) (hy : y.isFinite = true)
    (hText : style.text x = style.text y) : x = y := by
  obtain ⟨n, hn, hReadX⟩ := exists_numeral_text hPlus hx
  obtain ⟨m, hm, hReadY⟩ := exists_numeral_text hPlus hy
  obtain ⟨c, cs, hCons, hc⟩ := n.exists_text_cons
  obtain ⟨d, ds, hCons', hd⟩ := m.exists_text_cons
  have hMinusC : c ≠ '-' := by rintro rfl; cases hc
  have hMinusD : d ≠ '-' := by rintro rfl; cases hd
  rw [hText, hm] at hn
  -- A literal begins with a digit, so the first character shows the sign.
  have hBoth : x.negative = y.negative ∧ n.text = m.text := by
    cases hSignX : x.negative <;> cases hSignY : y.negative <;>
      simp only [hSignX, hSignY, hCons, hCons', if_true, if_false, Bool.false_eq_true,
        List.nil_append, List.singleton_append, List.cons.injEq, true_and] at hn
    · exact ⟨rfl, by rw [hCons, hCons', hn.1, hn.2]⟩
    · exact absurd hn.1.symm hMinusC
    · exact absurd hn.1 hMinusD
    · exact ⟨rfl, by rw [hCons, hCons', hn.1, hn.2]⟩
  rw [hBoth.2, hReadY] at hReadX
  have hUnsigned : y.unsigned = x.unsigned := by
    injection hReadX with hKind
    injection hKind
  exact Binary64.ext_of_unsigned hBoth.1 hUnsigned.symm

/-- A finite number is written with marks. -/
theorem isMark_of_mem_text (hFinite : x.isFinite = true) :
    ∀ c ∈ (style.text x).toList, isMark c = true := by
  intro c hc
  obtain ⟨n, hText, -⟩ := exists_numeral_text hPlus hFinite
  by_cases hSign : c = '+'
  · rw [hSign]
    rfl
  · have hMem : c ∈ dropMarks (style.text x).toList := List.mem_filter.2 ⟨hc, bne_iff_ne.2 hSign⟩
    rw [hText, List.mem_append] at hMem
    rcases hMem with hMinus | hLiteral
    · split at hMinus
      · rw [List.mem_singleton.1 hMinus]
        rfl
      · exact absurd hMinus List.not_mem_nil
    · rcases Numeral.mem_text hLiteral with hDigit | rfl | rfl | rfl
      · exact isMark_of_isDigit hDigit
      · rfl
      · rfl
      · rfl

/-- The text of a finite number has a point or an exponent. -/
theorem isFloating_text (hFinite : x.isFinite = true) :
    Token.isFloating (style.text x).toList = true := by
  obtain ⟨n, hText, -⟩ := exists_numeral_text hPlus hFinite
  have hLiteral := n.isFloating_text
  rw [Token.isFloating, List.any_eq_true] at hLiteral ⊢
  obtain ⟨c, hc, hMark⟩ := hLiteral
  have hMem : c ∈ dropMarks (style.text x).toList := by
    rw [hText]
    exact List.mem_append_right _ hc
  exact ⟨c, (List.mem_filter.1 hMem).1, hMark⟩

/-- The text of a finite number is no text of an integer. -/
theorem text_ne_toString (hFinite : x.isFinite = true) (i : Int) : style.text x ≠ toString i := by
  intro hText
  have hFloating := isFloating_text hPlus hFinite
  rw [hText, isFloating_toString] at hFloating
  cases hFloating

end Number.Style

end SqlQuery
