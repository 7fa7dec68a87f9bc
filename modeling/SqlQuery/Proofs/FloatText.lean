import SqlQuery.Proofs.Rounding
import SqlQuery.Proofs.Writing

/-!
# The texts of floating-point numbers

A floating literal has a whole part, a fraction or an exponent or both.  What
is written for a finite number is such a literal, it is scanned whole, and it
stands for the decimal number that was chosen for the number; as this lies in
the rounding interval of the number, the literal reads back.

## Main definitions

* `Numeral` — the parts of a floating literal.

## Main results

* `Token.numberLength?_literal` — the text of a number is scanned whole.
* `Token.readNumber_literal` — the text of a number reads back as it.
-/

namespace SqlQuery

open Number (Decimal Binary64 digitsValue splitDigits zeros)

/-! ## Floating literals -/

/-- The parts of a floating literal: rows of digits, of which the fraction or the
digits of the exponent may be empty but not both. -/
structure Numeral where
  whole : List Char
  fraction : List Char
  /-- The sign of the exponent. -/
  sign : List Char
  /-- The digits of the exponent. -/
  power : List Char
  whole_ne_nil : whole ≠ []
  whole_digits : ∀ c ∈ whole, c.isDigit = true
  fraction_digits : ∀ c ∈ fraction, c.isDigit = true
  power_digits : ∀ c ∈ power, c.isDigit = true
  sign_eq : sign = [] ∨ sign = ['-']
  floating : fraction ≠ [] ∨ power ≠ []

namespace Numeral

/-- A fraction with its point, if there is one. -/
def pointed (fraction : List Char) : List Char :=
  if fraction.isEmpty then [] else '.' :: fraction

/-- An exponent with its mark, if there is one. -/
def marked (sign power : List Char) : List Char :=
  if power.isEmpty then [] else 'e' :: (sign ++ power)

/-- The literal. -/
def text (n : Numeral) : List Char := n.whole ++ (pointed n.fraction ++ marked n.sign n.power)

/-- The decimal number that the literal stands for. -/
def decimal (n : Numeral) : Decimal :=
  { digits := digitsValue (n.whole ++ n.fraction)
    exponent :=
      (if n.sign.isEmpty then (digitsValue n.power : Int) else -(digitsValue n.power : Int)) -
        (n.fraction.length : Int) }

variable {fraction sign power rest tail : List Char}

/-- No digit stands behind a fraction. -/
theorem isDigit_head_marked (sign power : List Char) (hTail : ∀ c ∈ tail.head?, c.isDigit = false) :
    ∀ c ∈ (marked sign power ++ tail).head?, c.isDigit = false := by
  unfold marked
  split
  · exact hTail
  · rintro c hc
    cases hc
    rfl

/-- No digit stands behind the whole part. -/
theorem isDigit_head_pointed (fraction : List Char) (hTail : ∀ c ∈ tail.head?, c.isDigit = false) :
    ∀ c ∈ (pointed fraction ++ tail).head?, c.isDigit = false := by
  unfold pointed
  split
  · exact hTail
  · rintro c hc
    cases hc
    rfl

theorem digitCount_append {digits : List Char} (hDigits : ∀ c ∈ digits, c.isDigit = true)
    (hTail : ∀ c ∈ tail.head?, c.isDigit = false) :
    Token.digitCount (digits ++ tail) = digits.length := by
  rw [Token.digitCount, Token.takeWhile_append_of_forall hDigits hTail]

theorem splitDigits_append {digits : List Char} (hDigits : ∀ c ∈ digits, c.isDigit = true)
    (hTail : ∀ c ∈ tail.head?, c.isDigit = false) :
    splitDigits (digits ++ tail) = (digits, tail) := by
  have hTake := Token.takeWhile_append_of_forall hDigits hTail
  have hSplit := Number.splitDigits_append (digits ++ tail)
  have hFirst : (splitDigits (digits ++ tail)).1 = digits := hTake
  rw [hFirst] at hSplit
  exact Prod.ext hFirst (List.append_cancel_left hSplit)

theorem fractionLength_pointed (hDigits : ∀ c ∈ fraction, c.isDigit = true)
    (hTail : ∀ c ∈ tail.head?, c.isDigit = false) (hPoint : ∀ c ∈ tail.head?, c ≠ '.') :
    Token.fractionLength (pointed fraction ++ tail) = (pointed fraction).length := by
  cases fraction with
  | nil =>
    show Token.fractionLength tail = 0
    unfold Token.fractionLength
    split
    · exact absurd rfl (hPoint '.' rfl)
    · rfl
  | cons c fraction =>
    show Token.fractionLength ('.' :: ((c :: fraction) ++ tail)) = _
    rw [Token.fractionLength, digitCount_append hDigits hTail]
    simp [pointed]

/-- A sign before digits. -/
theorem signLength_append (hSign : sign = [] ∨ sign = ['+'] ∨ sign = ['-']) (hPower : power ≠ [])
    (hDigits : ∀ c ∈ power, c.isDigit = true) (tail : List Char) :
    Token.signLength (sign ++ (power ++ tail)) = sign.length := by
  rcases hSign with rfl | rfl | rfl
  · obtain ⟨c, power, rfl⟩ := List.exists_cons_of_ne_nil hPower
    have hDigit := hDigits c List.mem_cons_self
    show Token.signLength (c :: (power ++ tail)) = 0
    unfold Token.signLength
    split
    · next h =>
      rw [(List.cons.inj h).1] at hDigit
      cases hDigit
    · next h =>
      rw [(List.cons.inj h).1] at hDigit
      cases hDigit
    · rfl
  · rfl
  · rfl

/-- An exponent is scanned whole behind its mark. -/
theorem exponentBodyLength_append (hSign : sign = [] ∨ sign = ['+'] ∨ sign = ['-'])
    (hPower : power ≠ []) (hDigits : ∀ c ∈ power, c.isDigit = true)
    (hTail : ∀ c ∈ tail.head?, c.isDigit = false) :
    Token.exponentBodyLength (sign ++ (power ++ tail)) = sign.length + power.length + 1 := by
  rw [Token.exponentBodyLength, signLength_append hSign hPower hDigits tail, List.drop_left,
    digitCount_append hDigits hTail]
  simp [hPower]

theorem exponentLength_marked (hSign : sign = [] ∨ sign = ['-'])
    (hDigits : ∀ c ∈ power, c.isDigit = true) (hNeutral : Text.Neutral tail) :
    Token.exponentLength (marked sign power ++ tail) = (marked sign power).length := by
  by_cases hPower : power = []
  · subst hPower
    exact Token.exponentLength_of_neutral hNeutral
  · have hMarked : marked sign power = 'e' :: (sign ++ power) := by simp [marked, hPower]
    rw [hMarked, List.cons_append, List.append_assoc]
    show Token.exponentBodyLength _ = _
    rw [exponentBodyLength_append (hSign.imp_right Or.inr) hPower hDigits
      fun c hc => hNeutral.isDigit_head hc]
    simp

theorem ne_point_marked (hNeutral : Text.Neutral tail) :
    ∀ c ∈ (marked sign power ++ tail).head?, c ≠ '.' := by
  unfold marked
  split
  · exact fun c hc => hNeutral.ne_head hc (by decide)
  · rintro c hc
    cases hc
    decide

/-- A literal is scanned whole. -/
theorem numberLength?_text (n : Numeral) (hNeutral : Text.Neutral tail) :
    Token.numberLength? (n.text ++ tail) = some n.text.length := by
  have hTail : ∀ c ∈ tail.head?, c.isDigit = false := fun c hc => hNeutral.isDigit_head hc
  have hMarked := isDigit_head_marked n.sign n.power hTail
  have hWhole := digitCount_append n.whole_digits (isDigit_head_pointed n.fraction hMarked)
  have hPos := List.length_pos_iff.2 n.whole_ne_nil
  rw [text, List.append_assoc, List.append_assoc, Token.numberLength?, hWhole]
  dsimp only
  rw [if_neg (by omega), List.drop_left,
    fractionLength_pointed n.fraction_digits hMarked (ne_point_marked hNeutral),
    ← List.drop_drop, List.drop_left, List.drop_left,
    exponentLength_marked n.sign_eq n.power_digits hNeutral]
  simp only [List.length_append, Nat.add_assoc]

/-- A whole number with its sign. -/
theorem readInt_append (hSign : sign = [] ∨ sign = ['+'] ∨ sign = ['-']) (hPower : power ≠ [])
    (hDigits : ∀ c ∈ power, c.isDigit = true) :
    Number.readInt (sign ++ power) =
      some (if sign = ['-'] then -(digitsValue power : Int) else (digitsValue power : Int)) := by
  have hAll : (power.isEmpty || !power.all Char.isDigit) = false := by
    rw [List.isEmpty_eq_false_iff.2 hPower, List.all_eq_true.2 hDigits]
    rfl
  rcases hSign with rfl | rfl | rfl
  · obtain ⟨c, power, rfl⟩ := List.exists_cons_of_ne_nil hPower
    have hDigit := hDigits c List.mem_cons_self
    have hMinus : c ≠ '-' := by rintro rfl; cases hDigit
    have hPlus : c ≠ '+' := by rintro rfl; cases hDigit
    rw [List.nil_append]
    unfold Number.readInt
    split
    next h =>
      split at h
      · next h' => exact absurd (List.cons.inj h').1 hMinus
      · next h' => exact absurd (List.cons.inj h').1 hPlus
      · cases h
        rw [hAll]
        rfl
  · show (if (power.isEmpty || !power.all Char.isDigit) = true then none else _) = _
    rw [hAll]
    rfl
  · show (if (power.isEmpty || !power.all Char.isDigit) = true then none else _) = _
    rw [hAll]
    rfl

theorem readExponent_marked (hSign : sign = [] ∨ sign = ['-'])
    (hDigits : ∀ c ∈ power, c.isDigit = true) :
    Number.readExponent (marked sign power) =
      some (if sign.isEmpty then (digitsValue power : Int) else -(digitsValue power : Int)) := by
  by_cases hPower : power = []
  · subst hPower
    rcases hSign with rfl | rfl <;> rfl
  · rw [marked, if_neg (by simpa using hPower)]
    show Number.readInt (sign ++ power) = _
    rw [readInt_append (hSign.imp_right Or.inr) hPower hDigits]
    rcases hSign with rfl | rfl <;> rfl

theorem marked_cases (sign power : List Char) :
    marked sign power = [] ∨ ∃ rest, marked sign power = 'e' :: rest := by
  unfold marked
  split
  · exact Or.inl rfl
  · exact Or.inr ⟨_, rfl⟩

/-- A literal stands for its decimal number. -/
theorem ofChars?_text (n : Numeral) : Decimal.ofChars? n.text = some n.decimal := by
  have hEnd : ∀ c ∈ ([] : List Char).head?, c.isDigit = false := by simp
  have hMarked := isDigit_head_marked n.sign n.power hEnd
  rw [List.append_nil] at hMarked
  have hWhole := splitDigits_append n.whole_digits (isDigit_head_pointed n.fraction hMarked)
  have hExponent := readExponent_marked n.sign_eq n.power_digits
  have hNe : n.whole.isEmpty = false := List.isEmpty_eq_false_iff.2 n.whole_ne_nil
  have hDecimal : (Number.readExponent (marked n.sign n.power)).map (fun exponent =>
      { digits := digitsValue (n.whole ++ n.fraction)
        exponent := exponent - (n.fraction.length : Int) }) = some n.decimal := by
    rw [hExponent]
    rfl
  have hDigits := n.fraction_digits
  rw [text, Decimal.ofChars?, hWhole]
  dsimp only
  generalize n.fraction = fraction at hDecimal hDigits ⊢
  cases fraction with
  | nil =>
    rcases marked_cases n.sign n.power with hNone | ⟨rest, hRest⟩
    · rw [hNone] at hDecimal ⊢
      simpa [pointed, hNe] using hDecimal
    · rw [hRest] at hDecimal ⊢
      simpa [pointed, hNe] using hDecimal
  | cons c fraction =>
    have hSplit := splitDigits_append hDigits hMarked
    have hPointed : pointed (c :: fraction) ++ marked n.sign n.power =
        '.' :: (c :: fraction ++ marked n.sign n.power) := rfl
    rw [hPointed]
    simp only [hSplit, hNe]
    exact hDecimal

theorem isFloating_text (n : Numeral) : Token.isFloating n.text = true := by
  rw [Token.isFloating, List.any_eq_true]
  rcases n.floating with hFraction | hPower
  · exact ⟨'.', by simp [text, pointed, hFraction], rfl⟩
  · exact ⟨'e', by simp [text, marked, hPower], rfl⟩

/-- A literal reads as the binary number that its decimal number is rounded to,
if that is finite. -/
theorem readNumber_text (n : Numeral) {value : Binary64}
    (hValue : Binary64.ofDecimal false n.decimal = value) (hFinite : value.isFinite = true) :
    Token.readNumber n.text = some (.float value) := by
  obtain ⟨c, whole, hWhole⟩ := List.exists_cons_of_ne_nil n.whole_ne_nil
  have hDigit := n.whole_digits c (by rw [hWhole]; exact List.mem_cons_self)
  have hText : n.text = c :: (whole ++ (pointed n.fraction ++ marked n.sign n.power)) := by
    rw [text, hWhole]
    rfl
  have hRead : Binary64.ofChars? n.text = some value := by
    rw [hText, Binary64.ofChars?_of_digit hDigit, ← hText, n.ofChars?_text, ← hValue]
    rfl
  rw [Token.readNumber, n.isFloating_text, if_pos rfl, hRead]
  simp [hFinite]

end Numeral

/-! ## Laid out digits -/

section Layout

theorem digitsValue_append (a b : List Char) :
    digitsValue (a ++ b) = digitsValue a * 10 ^ b.length + digitsValue b := by
  induction b using List.reverseRecOn with
  | nil => simp
  | append_singleton b c ih =>
    rw [← List.append_assoc, Number.digitsValue_append_singleton, ih,
      Number.digitsValue_append_singleton, List.length_append, List.length_singleton, pow_succ]
    ring

theorem digitsValue_zeros (count : Nat) : digitsValue (zeros count) = 0 := by
  induction count with
  | zero => rfl
  | succ count ih =>
    rw [zeros, List.replicate_succ', Number.digitsValue_append_singleton]
    simpa [zeros] using ih

theorem isDigit_zeros (count : Nat) : ∀ c ∈ zeros count, c.isDigit = true := by
  intro c hc
  rw [List.eq_of_mem_replicate hc]
  rfl

theorem isDigit_toDigits (k : Nat) : ∀ c ∈ Nat.toDigits 10 k, c.isDigit = true := fun _ hMem =>
  Nat.isDigit_of_mem_toDigits (by decide) (by decide) hMem

/-- Zeros at the end of the digits count with the exponent. -/
theorem value_shift (digits k : Nat) (exponent : Int) :
    (⟨digits * 10 ^ k, exponent - k⟩ : Decimal).value = (⟨digits, exponent⟩ : Decimal).value := by
  rw [Decimal.value, Decimal.value, zpow_sub₀ (by norm_num), zpow_natCast]
  push_cast
  field_simp

/-- Digits with a point. -/
theorem exists_positional {digits : List Char} (hNe : digits ≠ [])
    (hDigits : ∀ c ∈ digits, c.isDigit = true) (place : Int) :
    ∃ n : Numeral, n.text = Number.positional digits place ∧
      n.decimal.value = (⟨digitsValue digits, place⟩ : Decimal).value := by
  have hLength := List.length_pos_iff.2 hNe
  unfold Number.positional
  dsimp only
  split
  · next hPlace =>
    obtain ⟨k, rfl⟩ := Int.eq_ofNat_of_zero_le hPlace
    refine ⟨⟨digits ++ zeros k, ['0'], [], [], by simp [hNe],
      fun c hc => (List.mem_append.1 hc).elim (hDigits c) (isDigit_zeros k c), by simp, by simp,
      Or.inl rfl, Or.inl (by simp)⟩, by simp [Numeral.text, Numeral.pointed, Numeral.marked], ?_⟩
    have hValue : digitsValue (digits ++ zeros k ++ ['0']) = digitsValue digits * 10 ^ (k + 1) := by
      rw [List.append_assoc, digitsValue_append, digitsValue_append, digitsValue_zeros]
      simp [zeros, digitsValue]
    rw [← value_shift (digitsValue digits) (k + 1) k, ← hValue, Numeral.decimal]
    simp
  · split
    · next hPlace hFirst =>
      obtain ⟨count, hCount⟩ : ∃ count : Nat, (place + digits.length - 1 + 1).toNat = count :=
        ⟨_, rfl⟩
      have hWhole : digits.take count ≠ [] := by
        simp only [ne_eq, List.take_eq_nil_iff, hNe, or_false]
        omega
      have hFraction : digits.drop count ≠ [] := by
        simp only [ne_eq, List.drop_eq_nil_iff]
        omega
      rw [hCount]
      refine ⟨⟨digits.take count, digits.drop count, [], [], hWhole,
        fun c hc => hDigits c (List.mem_of_mem_take hc),
        fun c hc => hDigits c (List.mem_of_mem_drop hc), by simp, Or.inl rfl, Or.inl hFraction⟩,
        by simp [Numeral.text, Numeral.pointed, Numeral.marked, hFraction], ?_⟩
      rw [Numeral.decimal]
      simp only [List.take_append_drop, List.length_drop]
      congr 2
      simp
      omega
    · next hPlace hFirst =>
      refine ⟨⟨['0'], zeros (-(place + digits.length - 1) - 1).toNat ++ digits, [], [], by simp,
        by simp, fun c hc => (List.mem_append.1 hc).elim (isDigit_zeros _ c) (hDigits c), by simp,
        Or.inl rfl, Or.inl (by simp [hNe])⟩, ?_, ?_⟩
      · simp [Numeral.text, Numeral.pointed, Numeral.marked, hNe]
      · have hValue : ∀ count, digitsValue (['0'] ++ (zeros count ++ digits)) =
            digitsValue digits := by
          intro count
          rw [digitsValue_append, digitsValue_append, digitsValue_zeros]
          simp [digitsValue]
        rw [Numeral.decimal]
        simp only [hValue, List.length_append]
        congr 2
        simp [zeros]
        omega

/-- Digits with an exponent. -/
theorem exists_scientific {digits : List Char} (hNe : digits ≠ [])
    (hDigits : ∀ c ∈ digits, c.isDigit = true) (place : Int) :
    ∃ n : Numeral, n.text = Number.scientific "" digits place ∧
      n.decimal.value = (⟨digitsValue digits, place⟩ : Decimal).value := by
  obtain ⟨c, further, rfl⟩ := List.exists_cons_of_ne_nil hNe
  obtain ⟨first, hFirst⟩ : ∃ first : Int, place + ((c :: further).length : Int) - 1 = first :=
    ⟨_, rfl⟩
  refine ⟨⟨[c], further, if 0 ≤ first then [] else ['-'], Nat.toDigits 10 first.natAbs, by simp,
    fun d hd => hDigits d (by rw [List.mem_singleton.1 hd]; exact List.mem_cons_self),
    fun d hd => hDigits d (List.mem_cons_of_mem c hd), isDigit_toDigits _, ?_,
    Or.inr Nat.toDigits_ne_nil⟩, ?_, ?_⟩
  · split <;> simp
  · unfold Number.scientific
    dsimp only
    rw [hFirst]
    cases further with
    | nil => split <;> simp [Numeral.text, Numeral.pointed, Numeral.marked, Nat.toDigits_ne_nil]
    | cons d further =>
      split <;> simp [Numeral.text, Numeral.pointed, Numeral.marked, Nat.toDigits_ne_nil]
  · rw [Numeral.decimal]
    simp only [List.singleton_append, Number.digitsValue_toDigits]
    congr 2
    rw [List.length_cons] at hFirst
    push_cast at hFirst
    split <;> simp only [List.isEmpty_nil, List.isEmpty_cons, if_true, if_false,
      Bool.false_eq_true] <;> omega

end Layout

/-! ## Texts of numbers -/

/-- The text of a finite number is a literal that reads as it, in every style
that leaves out the sign of a positive exponent. -/
theorem exists_numeral {style : Number.Style} (hPlus : style.plus = "") {value : Binary64}
    (hFinite : value.isFinite = true) (hSign : value.negative = false) :
    ∃ n : Numeral, n.text = (style.text value).toList ∧
      Binary64.ofDecimal false n.decimal = value := by
  have hNaN := Binary64.isNaN_of_isFinite hFinite
  have hInfinite := Binary64.isInfinite_of_isFinite hFinite
  cases hZero : value.isZero with
  | true =>
    have hMagnitude : value.magnitude = 0 := by simpa [Binary64.isZero] using hZero
    refine ⟨⟨['0'], ['0'], [], [], by simp, by simp, by simp, by simp, Or.inl rfl,
      Or.inl (by simp)⟩, ?_, ?_⟩
    · simp [Number.Style.text, hNaN, hInfinite, hSign, hZero, Numeral.text, Numeral.pointed,
        Numeral.marked]
    · rw [← Binary64.ofMagnitude_magnitude hSign, hMagnitude]
      rfl
  | false =>
    obtain ⟨d, hShortest⟩ : ∃ d, value.shortest style.tie = d := ⟨_, rfl⟩
    have hAttracts : value.Attracts d.value := hShortest ▸ Binary64.attracts_shortest _ hZero
    have hDigits := isDigit_toDigits d.digits
    have hText : (style.text value).toList = style.layout d := by
      simp [Number.Style.text, hNaN, hInfinite, hSign, hZero, hShortest]
    have hLayout : ∃ n : Numeral, n.text = style.layout d ∧
        n.decimal.value =
          (⟨digitsValue (Nat.toDigits 10 d.digits), d.exponent⟩ : Decimal).value := by
      unfold Number.Style.layout
      rw [hPlus]
      dsimp only
      split
      · exact exists_positional Nat.toDigits_ne_nil hDigits d.exponent
      · exact exists_scientific Nat.toDigits_ne_nil hDigits d.exponent
    obtain ⟨n, hLiteral, hValue⟩ := hLayout
    rw [Number.digitsValue_toDigits] at hValue
    refine ⟨n, hLiteral.trans hText.symm, Binary64.ofDecimal_of_attracts hFinite hZero hSign ?_⟩
    rw [hValue]
    exact hAttracts

namespace Token

variable {value : Binary64}

/-- The text of a number is scanned whole. -/
theorem numberLength?_literal (hFinite : value.isFinite = true) (hSign : value.negative = false)
    {tail : List Char} (hNeutral : Text.Neutral tail) :
    numberLength? ((literalStyle.text value).toList ++ tail) =
      some (literalStyle.text value).toList.length := by
  obtain ⟨n, hText, -⟩ := exists_numeral (show literalStyle.plus = "" from rfl) hFinite hSign
  rw [← hText]
  exact n.numberLength?_text hNeutral

/-- The text of a number reads back as it. -/
theorem readNumber_literal (hFinite : value.isFinite = true) (hSign : value.negative = false) :
    readNumber (literalStyle.text value).toList = some (.float value) := by
  obtain ⟨n, hText, hValue⟩ := exists_numeral (show literalStyle.plus = "" from rfl) hFinite hSign
  rw [← hText]
  exact n.readNumber_text hValue hFinite

end Token

/-- A floating-point number that is finite and not negative. -/
theorem RuleSet.Reads.finds_float {dialect : Dialect} {tail : List Char} {value : Number.Binary64}
    (hValue : value.isFinite = true ∧ value.negative = false) (hNeutral : Text.Neutral tail) :
    dialect.grammar.tokens.Finds (literalStyle.text value).toList tail (.float value) :=
  finds_number (Token.numberLength?_literal hValue.1 hValue.2 hNeutral)
    (Token.readNumber_literal hValue.1 hValue.2)

theorem RuleSet.Reads.float {dialect : Dialect} {tail : List Char} {gs : List Glyph}
    {value : Number.Binary64} (hReads : dialect.grammar.tokens.Reads true tail gs)
    (hValue : value.isFinite = true ∧ value.negative = false) (hNeutral : Text.Neutral tail) :
    dialect.grammar.tokens.Reads true ((literalStyle.text value).toList ++ tail)
      (⟨.float value, literalStyle.text value⟩ :: gs) :=
  hReads.foundText (finds_float hValue hNeutral)

end SqlQuery
