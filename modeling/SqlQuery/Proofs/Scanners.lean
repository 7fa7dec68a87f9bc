import Mathlib.Computability.Language
import SqlQuery.Proofs.Cutting
import SqlQuery.Proofs.FloatText

/-!
# The languages of the scanners

A scanner says how much of a text belongs to a lexeme, and a reader what the
lexeme stands for.  A scanner goes by its own loops and looks ahead by hand where
a part of the lexeme is optional; what it takes is stated here without them.  It
takes the longest prefix of the text that is in its language.

That nothing longer could be taken need not be traced through the loops.  A
scanner takes the texts of its language whole, and finds before a cut what it
finds in the whole text: so if it stopped short of a prefix in the language, it
would stop short of the prefix alone, too.

What the readers make of the languages is stated beside them.  A name is read
whatever its parts are, and of all that the rules of the dialects take only a
number can be rejected, for being out of range.

## Main definitions

* `LongestPrefix` — the longest prefix of a text that is in a language.
* `Token.names`, `Token.numerals` — the languages of names and numbers.
* `Token.NumberReading` — what a number stands for.

## Main results

* `Scans.eq_some_iff` — a scanner of a language takes the longest prefix.
* `Token.dotted_names` — what is scanned as a name, and read from it.
* `Token.number_literals` — what is scanned as a number, and read from it.
-/

namespace SqlQuery

/-! ## Scanners of languages -/

/-- The length of the longest prefix of a text that is in a language. -/
structure LongestPrefix (language : Language Char) (cs : List Char) (length : Nat) : Prop where
  within : length ≤ cs.length
  mem : cs.take length ∈ language
  longest : ∀ other ≤ cs.length, cs.take other ∈ language → other ≤ length

/-- A scanner of a language: it takes nothing else, it takes the texts of the
language whole, and at a cut it finds what it finds in the whole text. -/
structure Scans (length? : List Char → Option Nat) (language : Language Char) : Prop where
  taken : ∀ {cs : List Char} {length : Nat}, length? cs = some length →
    length ≤ cs.length ∧ cs.take length ∈ language
  whole : ∀ {text : List Char}, text ∈ language → length? text = some text.length
  cutsAt : ∀ a b, CutsAt length? a b

namespace Scans

variable {length? : List Char → Option Nat} {language : Language Char} {cs a : List Char}
  {length : Nat}

/-- A scanner takes at least what a text begins with. -/
theorem exists_of_append (hScans : Scans length? language) (hMem : a ∈ language)
    (b : List Char) : ∃ length, length? (a ++ b) = some length ∧ a.length ≤ length := by
  have hWhole := hScans.whole hMem
  have hCuts := hScans.cutsAt a b
  cases hLength : length? (a ++ b) with
  | none =>
    rw [hCuts.absent hLength] at hWhole
    cases hWhole
  | some length =>
    refine ⟨length, rfl, Nat.le_of_not_lt fun hShort => ?_⟩
    rw [hCuts.found hLength (Nat.le_of_lt hShort), Option.some.injEq] at hWhole
    omega

/-- **A scanner of a language takes the longest prefix** in the language. -/
theorem eq_some_iff (hScans : Scans length? language) :
    length? cs = some length ↔ LongestPrefix language cs length := by
  constructor
  · intro hLength
    obtain ⟨hWithin, hMem⟩ := hScans.taken hLength
    refine ⟨hWithin, hMem, fun other hOther hPrefix => ?_⟩
    obtain ⟨found, hFound, hLe⟩ := hScans.exists_of_append hPrefix (cs.drop other)
    rw [List.take_append_drop, hLength, Option.some.injEq] at hFound
    rwa [List.length_take_of_le hOther, ← hFound] at hLe
  · intro hLongest
    obtain ⟨found, hFound, hLe⟩ := hScans.exists_of_append hLongest.mem (cs.drop length)
    rw [List.take_append_drop] at hFound
    rw [List.length_take_of_le hLongest.within] at hLe
    obtain ⟨hWithin, hMem⟩ := hScans.taken hFound
    rw [hFound, Nat.le_antisymm (hLongest.longest found hWithin hMem) hLe]

end Scans

namespace Token

variable {cs text : List Char} {length : Nat}

/-! ## Names -/

/-- The texts of dotted names: parts with points between them, each a bare word or
a text in backticks, and behind them a star at most. -/
def names : Language Char := {text | ∃ parts, NameText text parts}

theorem scans_name : Scans nameLength? names where
  taken := by
    intro cs length hLength
    refine ⟨nameLength?_le hLength, ?_⟩
    obtain ⟨text, rest, parts, rfl, rfl, hText⟩ := exists_nameText_of_nameLength? hLength
    rw [List.take_left]
    exact ⟨parts, hText⟩
  whole := by
    rintro text ⟨parts, hText⟩
    have hWhole := @nameLength?_append text [] parts hText (by simp)
    rwa [List.append_nil] at hWhole
  cutsAt := nameLength?_cutsAt

/-- A name is read as a keyword where it is a bare word that is reserved. -/
theorem readName_eq_keyword_iff (hText : text ∈ names) {word : Keyword} :
    readName text = some (.keyword word) ↔
      PartText text ⟨text, false⟩ ∧ Keyword.ofWord? text = some word := by
  constructor
  · intro hRead
    obtain ⟨parts, hText⟩ := hText
    rcases readName_of_nameText hText with ⟨found, rfl, hFound, hKind⟩ | ⟨-, -, hKind⟩ | ⟨-, hKind⟩
    · rw [hRead] at hKind
      cases hKind
      cases hText with
      | single hPart => exact ⟨hPart, hFound⟩
      | dotted _ hRest => exact absurd rfl hRest.parts_ne_nil
    · rw [hRead] at hKind
      cases hKind
    · rw [hRead] at hKind
      cases hKind
  · rintro ⟨hPart, hWord⟩
    rcases readName_of_nameText (.single hPart) with ⟨found, -, hFound, hKind⟩ | ⟨-, hNone, -⟩ |
      ⟨hQuoted, -⟩
    · rw [hWord, Option.some.injEq] at hFound
      rw [hKind, hFound]
    · rw [hNone rfl] at hWord
      cases hWord
    · cases hQuoted

/-- A name that is no keyword is read as its text without the backticks. -/
theorem readName_of_ne_keyword (hText : text ∈ names)
    (hNone : ∀ word, readName text ≠ some (.keyword word)) :
    readName text = some (.identifier (String.ofList (text.filter (· != backtick)))
      (if backtick ∈ text then some backtick else none)) := by
  obtain ⟨parts, hText⟩ := hText
  rw [hText.filter_backtick]
  rcases readName_of_nameText hText with ⟨word, -, -, hKind⟩ | ⟨hBare, -, hKind⟩ |
    ⟨hQuoted, hKind⟩
  · exact absurd hKind (hNone word)
  · have hBacktick : backtick ∉ text := by rw [hText.backtick_mem_iff, hBare]; decide
    rw [hText.partsValue_eq hBare, if_neg hBacktick]
    exact hKind
  · rw [if_pos (hText.backtick_mem_iff.2 hQuoted)]
    exact hKind

theorem readName_ne_none (hText : text ∈ names) : readName text ≠ none := by
  intro hNone
  have hName := readName_of_ne_keyword hText (by simp [hNone])
  rw [hNone] at hName
  cases hName

/--
**Names are read as they are scanned.**  What the scanner takes of a text is the
longest prefix that is a dotted name, and the reader makes something of it: a
keyword just where it is a bare word that is reserved, and else an identifier,
whose value is what was taken without the backticks, and which bears a quote
where there was one.
-/
theorem dotted_names (hLength : nameLength? cs = some length) :
    LongestPrefix names cs length ∧ readName (cs.take length) ≠ none ∧
      (∀ word, readName (cs.take length) = some (.keyword word) ↔
        PartText (cs.take length) ⟨cs.take length, false⟩ ∧
          Keyword.ofWord? (cs.take length) = some word) ∧
      ((∀ word, readName (cs.take length) ≠ some (.keyword word)) →
        readName (cs.take length) =
          some (.identifier (String.ofList ((cs.take length).filter (· != backtick)))
            (if backtick ∈ cs.take length then some backtick else none))) := by
  have hLongest := scans_name.eq_some_iff.1 hLength
  exact ⟨hLongest, readName_ne_none hLongest.mem, fun word => readName_eq_keyword_iff hLongest.mem,
    readName_of_ne_keyword hLongest.mem⟩

/-- A point in backticks parts nothing, and the backtick that nothing closes is
left. -/
theorem dotted_names_unclosed :
    nameLength? "t.\x60a.b\x60.c.\x60d".toList = some 9 ∧
      LongestPrefix names "t.\x60a.b\x60.c.\x60d".toList 9 ∧
      readName "t.\x60a.b\x60.c".toList = some (.identifier "t.a.b.c" (some backtick)) := by
  have hLength : nameLength? "t.\x60a.b\x60.c.\x60d".toList = some 9 := by decide +kernel
  obtain ⟨hLongest, -, hKeyword, hName⟩ := dotted_names hLength
  refine ⟨hLength, hLongest, hName fun word hRead => ?_⟩
  obtain ⟨-, hWord⟩ := (hKeyword word).1 hRead
  have hNone : Keyword.ofWord? ("t.\x60a.b\x60.c.\x60d".toList.take 9) = none := by
    decide +kernel
  rw [hNone] at hWord
  cases hWord

/-! ## Numbers -/

/-- One digit or more. -/
def digitRuns : Language Char := {text | text ≠ [] ∧ ∀ c ∈ text, c.isDigit = true}

/-- A point and digits, or nothing. -/
def fractions : Language Char := 1 + {['.']} * digitRuns

/-- A mark, a sign or none, and digits; or nothing. -/
def exponents : Language Char :=
  1 + ({['e']} + {['E']}) * (1 + {['+']} + {['-']}) * digitRuns

/-- The texts of numbers. -/
def numerals : Language Char := digitRuns * fractions * exponents

theorem mem_fractions :
    text ∈ fractions ↔ text = [] ∨ ∃ digits ∈ digitRuns, text = '.' :: digits := by
  rw [fractions, Language.mem_add, Language.mem_one, Language.mem_mul]
  refine or_congr Iff.rfl ⟨?_, ?_⟩
  · rintro ⟨_, rfl, digits, hDigits, rfl⟩
    exact ⟨digits, hDigits, rfl⟩
  · rintro ⟨digits, hDigits, rfl⟩
    exact ⟨['.'], rfl, digits, hDigits, rfl⟩

/-- The signs that an exponent may have. -/
def IsSign (sign : List Char) : Prop := sign = [] ∨ sign = ['+'] ∨ sign = ['-']

theorem mem_exponents :
    text ∈ exponents ↔ text = [] ∨ ∃ mark sign, ∃ power ∈ digitRuns,
      (mark = 'e' ∨ mark = 'E') ∧ IsSign sign ∧ text = mark :: (sign ++ power) := by
  rw [exponents, Language.mem_add, Language.mem_one, Language.mem_mul]
  refine or_congr Iff.rfl ⟨?_, ?_⟩
  · rintro ⟨front, hFront, power, hPower, rfl⟩
    obtain ⟨_, hMark, sign, hSign, rfl⟩ := hFront
    have hSigns : IsSign sign := or_assoc.1 hSign
    rcases hMark with rfl | rfl
    · exact ⟨'e', sign, power, hPower, Or.inl rfl, hSigns, rfl⟩
    · exact ⟨'E', sign, power, hPower, Or.inr rfl, hSigns, rfl⟩
  · rintro ⟨mark, sign, power, hPower, hMark, hSign, rfl⟩
    have hMarks : [mark] ∈ ({['e']} + {['E']} : Language Char) := by
      rcases hMark with rfl | rfl
      · exact Or.inl rfl
      · exact Or.inr rfl
    exact ⟨mark :: sign, ⟨[mark], hMarks, sign, or_assoc.2 hSign, rfl⟩, power, hPower, rfl⟩

theorem mem_numerals :
    text ∈ numerals ↔ ∃ whole ∈ digitRuns, ∃ fraction ∈ fractions, ∃ exponent ∈ exponents,
      text = whole ++ (fraction ++ exponent) := by
  rw [numerals, Language.mem_mul]
  constructor
  · rintro ⟨_, ⟨whole, hWhole, fraction, hFraction, rfl⟩, exponent, hExponent, rfl⟩
    exact ⟨whole, hWhole, fraction, hFraction, exponent, hExponent, List.append_assoc ..⟩
  · rintro ⟨whole, hWhole, fraction, hFraction, exponent, hExponent, rfl⟩
    exact ⟨_, ⟨whole, hWhole, fraction, hFraction, rfl⟩, exponent, hExponent,
      List.append_assoc ..⟩

/-! ### Scanning -/

theorem take_digitCount (hDigits : digitCount cs ≠ 0) : cs.take (digitCount cs) ∈ digitRuns := by
  have hTake : cs.take (digitCount cs) = cs.takeWhile Char.isDigit :=
    (List.prefix_iff_eq_take.1 (List.takeWhile_prefix _)).symm
  rw [hTake]
  exact ⟨fun hNil => hDigits (by rw [digitCount, hNil]; rfl), List.all_eq_true.1 List.all_takeWhile⟩

theorem take_fractionLength (cs : List Char) : cs.take (fractionLength cs) ∈ fractions := by
  rw [mem_fractions]
  unfold fractionLength
  split
  · next cs =>
    split
    · exact Or.inl rfl
    · next hDigits => exact Or.inr ⟨_, take_digitCount hDigits, rfl⟩
  · exact Or.inl rfl

theorem take_signLength (cs : List Char) : IsSign (cs.take (signLength cs)) := by
  unfold signLength
  split
  · exact Or.inr (Or.inl rfl)
  · exact Or.inr (Or.inr rfl)
  · exact Or.inl rfl

theorem take_exponentBodyLength {mark : Char} (hMark : mark = 'e' ∨ mark = 'E') (cs : List Char) :
    (mark :: cs).take (exponentBodyLength cs) ∈ exponents := by
  rw [mem_exponents, exponentBodyLength]
  split
  · exact Or.inl rfl
  · next hDigits =>
    refine Or.inr ⟨mark, _, _, take_digitCount hDigits, hMark, take_signLength cs, ?_⟩
    rw [List.take_succ_cons, List.take_add]

theorem take_exponentLength (cs : List Char) : cs.take (exponentLength cs) ∈ exponents := by
  unfold exponentLength
  split
  · exact take_exponentBodyLength (Or.inl rfl) _
  · exact take_exponentBodyLength (Or.inr rfl) _
  · exact mem_exponents.2 (Or.inl rfl)

/-- A fraction begins with a point. -/
theorem head_of_mem_fractions (hFraction : text ∈ fractions) : ∀ c ∈ text.head?, c = '.' := by
  rcases mem_fractions.1 hFraction with rfl | ⟨digits, -, rfl⟩
  · simp
  · simp

/-- An exponent begins with a mark. -/
theorem head_of_mem_exponents (hExponent : text ∈ exponents) :
    ∀ c ∈ text.head?, c = 'e' ∨ c = 'E' := by
  rcases mem_exponents.1 hExponent with rfl | ⟨mark, sign, power, -, hMark, -, rfl⟩
  · simp
  · rintro c hc
    cases hc
    exact hMark

theorem isDigit_head_exponent (hExponent : text ∈ exponents) :
    ∀ c ∈ text.head?, c.isDigit = false := by
  intro c hc
  rcases head_of_mem_exponents hExponent c hc with rfl | rfl <;> rfl

theorem isDigit_head_fraction {fraction exponent : List Char} (hFraction : fraction ∈ fractions)
    (hExponent : exponent ∈ exponents) :
    ∀ c ∈ (fraction ++ exponent).head?, c.isDigit = false := by
  cases fraction with
  | nil => exact isDigit_head_exponent hExponent
  | cons d fraction =>
    rintro c hc
    cases hc
    rw [head_of_mem_fractions hFraction d rfl]
    rfl

theorem fractionLength_append {fraction exponent : List Char} (hFraction : fraction ∈ fractions)
    (hExponent : exponent ∈ exponents) :
    fractionLength (fraction ++ exponent) = fraction.length := by
  rcases mem_fractions.1 hFraction with rfl | ⟨digits, ⟨hNe, hDigits⟩, rfl⟩
  · cases exponent with
    | nil => rfl
    | cons c exponent =>
      refine fractionLength_of_ne ?_ exponent
      rcases head_of_mem_exponents hExponent c rfl with rfl | rfl <;> decide
  · have hCount := Numeral.digitCount_append hDigits (isDigit_head_exponent hExponent)
    rw [List.cons_append, fractionLength, hCount, if_neg (mt List.length_eq_zero_iff.1 hNe),
      List.length_cons]

theorem exponentLength_eq (hExponent : text ∈ exponents) : exponentLength text = text.length := by
  rcases mem_exponents.1 hExponent with rfl | ⟨mark, sign, power, hPower, hMark, hSign, rfl⟩
  · rfl
  · have hBody := @Numeral.exponentBodyLength_append sign power [] hSign hPower.1 hPower.2 (by simp)
    rw [List.append_nil] at hBody
    rw [List.length_cons, List.length_append, ← hBody]
    rcases hMark with rfl | rfl <;> rfl

theorem scans_number : Scans numberLength? numerals where
  taken := by
    intro cs length hLength
    refine ⟨numberLength?_le hLength, ?_⟩
    simp only [numberLength?] at hLength
    split at hLength
    · cases hLength
    · next hDigits =>
      cases hLength
      rw [mem_numerals]
      have hFraction := take_fractionLength (cs.drop (digitCount cs))
      have hExponent := take_exponentLength
        (cs.drop (digitCount cs + fractionLength (cs.drop (digitCount cs))))
      refine ⟨_, take_digitCount hDigits, _, hFraction, _, hExponent, ?_⟩
      rw [List.take_add, List.take_add, List.append_assoc]
  whole := by
    intro text hText
    obtain ⟨whole, ⟨hNe, hDigits⟩, fraction, hFraction, exponent, hExponent, rfl⟩ :=
      mem_numerals.1 hText
    have hCount := Numeral.digitCount_append hDigits (isDigit_head_fraction hFraction hExponent)
    have hPos := List.length_pos_iff.2 hNe
    simp only [numberLength?, hCount]
    rw [if_neg (by omega), List.drop_left, fractionLength_append hFraction hExponent,
      ← List.drop_drop, List.drop_left, List.drop_left, exponentLength_eq hExponent]
    simp only [List.length_append, Nat.add_assoc]
  cutsAt := numberLength?_cutsAt

theorem numberLength?_eq_none_iff :
    numberLength? cs = none ↔ ∀ c ∈ cs.head?, c.isDigit = false := by
  have hCount : digitCount cs = 0 ↔ ∀ c ∈ cs.head?, c.isDigit = false := by
    cases cs with
    | nil => simp [digitCount]
    | cons c cs => cases hDigit : c.isDigit <;> simp [digitCount, hDigit]
  rw [← hCount]
  simp only [numberLength?]
  split
  · next hZero => simp [hZero]
  · next hPos => simp [hPos]

/-! ### Reading -/

/-- What a text in the form of a number is read as.  Without a point and an exponent
it is an integer, whatever its zeros are, if a signed word of 64 bits holds its
value; with one of them it is the binary number that it denotes, unless that is
infinite. -/
inductive NumberReading (text : List Char) : Option TokenKind → Prop
  | integer {value : Int64} (hPlain : '.' ∉ text ∧ 'e' ∉ text ∧ 'E' ∉ text)
    (hValue : value.toInt = Nat.ofDigitChars 10 text 0) :
    NumberReading text (some (.integer value))
  | large (hPlain : '.' ∉ text ∧ 'e' ∉ text ∧ 'E' ∉ text)
    (hLarge : 2 ^ 63 - 1 < Nat.ofDigitChars 10 text 0) : NumberReading text none
  | float {value : Number.Binary64} (hFloating : '.' ∈ text ∨ 'e' ∈ text ∨ 'E' ∈ text)
    (hValue : Number.Binary64.ofChars? text = some value) (hFinite : value.isInfinite = false) :
    NumberReading text (some (.float value))
  | infinite {value : Number.Binary64} (hFloating : '.' ∈ text ∨ 'e' ∈ text ∨ 'E' ∈ text)
    (hValue : Number.Binary64.ofChars? text = some value) (hInfinite : value.isInfinite = true) :
    NumberReading text none

theorem isFloating_iff : isFloating text = true ↔ '.' ∈ text ∨ 'e' ∈ text ∨ 'E' ∈ text := by
  simp only [isFloating, List.any_eq_true, Bool.or_eq_true, beq_iff_eq]
  constructor
  · rintro ⟨c, hMem, (rfl | rfl) | rfl⟩
    · exact Or.inl hMem
    · exact Or.inr (Or.inl hMem)
    · exact Or.inr (Or.inr hMem)
  · rintro (hMem | hMem | hMem)
    · exact ⟨_, hMem, Or.inl (Or.inl rfl)⟩
    · exact ⟨_, hMem, Or.inl (Or.inr rfl)⟩
    · exact ⟨_, hMem, Or.inr rfl⟩

/-- A number without a point and an exponent is a run of digits. -/
theorem digitRun_of_plain (hText : text ∈ numerals)
    (hPlain : '.' ∉ text ∧ 'e' ∉ text ∧ 'E' ∉ text) : text ∈ digitRuns := by
  obtain ⟨whole, hWhole, fraction, hFraction, exponent, hExponent, rfl⟩ := mem_numerals.1 hText
  rcases mem_fractions.1 hFraction with rfl | ⟨digits, -, rfl⟩
  · rcases mem_exponents.1 hExponent with rfl | ⟨mark, sign, power, -, hMark, -, rfl⟩
    · rwa [List.append_nil, List.append_nil]
    · rcases hMark with rfl | rfl
      · exact absurd (by simp) hPlain.2.1
      · exact absurd (by simp) hPlain.2.2
  · exact absurd (by simp) hPlain.1

/-- The exponent of a number is a whole number. -/
theorem isSome_readExponent (hExponent : text ∈ exponents) :
    (Number.readExponent text).isSome = true := by
  rcases mem_exponents.1 hExponent with rfl | ⟨mark, sign, power, hPower, hMark, hSign, rfl⟩
  · rfl
  · have hRead := Numeral.readInt_append hSign hPower.1 hPower.2
    have hBody : Number.readExponent (mark :: (sign ++ power)) =
        Number.readInt (sign ++ power) := by
      rcases hMark with rfl | rfl <;> rfl
    rw [hBody, hRead, Option.isSome_some]

/-- A number denotes a decimal number. -/
theorem isSome_decimal (hText : text ∈ numerals) :
    (Number.Decimal.ofChars? text).isSome = true := by
  obtain ⟨whole, ⟨hNe, hDigits⟩, fraction, hFraction, exponent, hExponent, rfl⟩ :=
    mem_numerals.1 hText
  have hPower := isSome_readExponent hExponent
  have hWhole := Numeral.splitDigits_append hDigits (isDigit_head_fraction hFraction hExponent)
  rw [Number.Decimal.ofChars?, hWhole]
  rcases mem_fractions.1 hFraction with rfl | ⟨digits, ⟨-, hFurther⟩, rfl⟩
  · rcases mem_exponents.1 hExponent with rfl | ⟨mark, sign, power, -, hMark, -, rfl⟩
    · simpa [hNe] using hPower
    · rcases hMark with rfl | rfl <;> simpa [hNe] using hPower
  · have hSplit := Numeral.splitDigits_append hFurther (isDigit_head_exponent hExponent)
    simpa [hSplit, hNe] using hPower

/-- A number with a point or an exponent is read as the binary number that it
denotes, if that is not infinite. -/
theorem exists_readNumber_of_floating (hText : text ∈ numerals)
    (hFloating : isFloating text = true) :
    ∃ value, Number.Binary64.ofChars? text = some value ∧
      readNumber text = if value.isInfinite then none else some (.float value) := by
  obtain ⟨decimal, hDecimal⟩ := Option.isSome_iff_exists.1 (isSome_decimal hText)
  have hValue : Number.Binary64.ofChars? text = some (.ofDecimal false decimal) := by
    obtain ⟨whole, ⟨hNe, hDigits⟩, fraction, -, exponent, -, rfl⟩ := mem_numerals.1 hText
    obtain ⟨c, whole, rfl⟩ := List.exists_cons_of_ne_nil hNe
    rw [List.cons_append] at hDecimal ⊢
    rw [Number.Binary64.ofChars?_of_digit (hDigits c List.mem_cons_self), hDecimal]
    rfl
  refine ⟨_, hValue, ?_⟩
  rw [readNumber, if_pos hFloating, hValue, Option.bind_some, Number.Binary64.isFinite_ofDecimal]
  cases (Number.Binary64.ofDecimal false decimal).isInfinite <;> rfl

/-- A run of digits is read as its value, if a signed word of 64 bits holds it. -/
theorem readNumber_of_digits (hText : text ∈ digitRuns) (hFloating : isFloating text = false) :
    readNumber text = if Nat.ofDigitChars 10 text 0 ≤ 2 ^ 63 - 1 then
      some (.integer (Int64.ofNat (Nat.ofDigitChars 10 text 0))) else none := by
  obtain ⟨hNe, hDigits⟩ := hText
  rw [readNumber, hFloating, if_neg Bool.false_ne_true, List.isEmpty_eq_false_iff.2 hNe,
    List.all_eq_true.2 hDigits, Number.digitsValue_eq_ofDigitChars]
  rfl

/-- Every number is read for what it is. -/
theorem numberReading_readNumber (hText : text ∈ numerals) :
    NumberReading text (readNumber text) := by
  cases hFloating : isFloating text with
  | true =>
    obtain ⟨value, hValue, hRead⟩ := exists_readNumber_of_floating hText hFloating
    rw [hRead]
    cases hInfinite : value.isInfinite with
    | true => exact .infinite (isFloating_iff.1 hFloating) hValue hInfinite
    | false => exact .float (isFloating_iff.1 hFloating) hValue hInfinite
  | false =>
    have hPlain : '.' ∉ text ∧ 'e' ∉ text ∧ 'E' ∉ text := by
      rw [← Bool.not_eq_true, isFloating_iff] at hFloating
      simpa only [not_or] using hFloating
    rw [readNumber_of_digits (digitRun_of_plain hText hPlain) hFloating]
    split
    · next hSmall =>
      refine .integer hPlain ?_
      rw [Int64.toInt_ofNat_of_lt (by omega)]
    · next hLarge => exact .large hPlain (Nat.lt_of_not_le hLarge)

/-! ## Rejections -/

/-- Only the rule of numbers rejects what it takes. -/
theorem eq_number_of_rejects {dialect : Dialect} {rule : TokenRule} {lexeme : List Char}
    (hMem : rule ∈ dialect.grammar.tokens.rules) (hReject : rule.match? cs = some (lexeme, none)) :
    rule = RuleSet.number := by
  obtain ⟨length, hLength, rfl, hRead⟩ := TokenRule.match?_eq_some_iff.1 hReject
  cases Dialect.isRule_of_mem hMem with
  | phrase hPhrase =>
    obtain ⟨_, _, _, _, rfl⟩ := RuleSet.exists_phrase hPhrase
    cases hRead
  | systemVariable =>
    obtain ⟨rest, rfl, -, rfl⟩ := scansVariable_system.1 (Option.filter_eq_some_iff.1 hLength).1
    rw [List.take_length_add_append] at hRead
    cases hRead
  | userVariable =>
    obtain ⟨rest, rfl, -, rfl⟩ := scansVariable_user.1 (Option.filter_eq_some_iff.1 hLength).1
    rw [List.take_length_add_append] at hRead
    cases hRead
  | number => rfl
  | singleText =>
    obtain ⟨word, -, hText⟩ :=
      readText_of_quotedLength? (Or.inr rfl) (Option.filter_eq_some_iff.1 hLength).1
    cases hRead.trans hText
  | doubleText =>
    obtain ⟨word, -, hText⟩ :=
      readText_of_quotedLength? (Or.inl rfl) (Option.filter_eq_some_iff.1 hLength).1
    cases hRead.trans hText
  | name =>
    have hLongest := scans_name.eq_some_iff.1 (Option.filter_eq_some_iff.1 hLength).1
    exact absurd hRead.symm (readName_ne_none hLongest.mem)
  | mark hMark =>
    obtain ⟨_, _, _, _, rfl⟩ := RuleSet.exists_symbol hMark
    cases hRead

/-- What the rule of numbers rejects is the longest number, if it is out of range. -/
theorem number_rejects_iff {lexeme : List Char} :
    RuleSet.number.match? cs = some (lexeme, none) ↔
      ∃ length, LongestPrefix numerals cs length ∧ lexeme = cs.take length ∧
        readNumber lexeme = none := by
  rw [TokenRule.match?_eq_some_iff]
  refine exists_congr fun length => ?_
  have hLength : RuleSet.number.pattern.length? cs = some length ↔
      LongestPrefix numerals cs length := by
    rw [← scans_number.eq_some_iff]
    refine Option.filter_eq_some_iff.trans (and_iff_left_of_imp fun hLength => ?_)
    rw [Nat.blt_eq]
    exact numberLength?_pos hLength
  rw [hLength]
  exact and_congr_right fun _ => and_congr_right fun _ => eq_comm

/--
**Numbers are what they are written as.**  What the scanner takes of a text is the
longest prefix that is a number, and it takes nothing only where no digit is.  A
number without a point and an exponent is read as the integer that its digits
make up, if a signed word of 64 bits holds it, and any other as the binary number
that it denotes, unless that is infinite.  No rule of the dialects but that of
numbers rejects what it takes, and it rejects no more than these.
-/
theorem number_literals (cs : List Char) :
    (∀ length, numberLength? cs = some length ↔ LongestPrefix numerals cs length) ∧
      (numberLength? cs = none ↔ ∀ c ∈ cs.head?, c.isDigit = false) ∧
      (∀ text ∈ numerals, NumberReading text (readNumber text)) ∧
      ∀ dialect : Dialect, ∀ rule ∈ dialect.grammar.tokens.rules, ∀ lexeme : List Char,
        rule.match? cs = some (lexeme, none) ↔
          rule = RuleSet.number ∧ ∃ length, LongestPrefix numerals cs length ∧
            lexeme = cs.take length ∧ readNumber lexeme = none := by
  refine ⟨fun length => scans_number.eq_some_iff, numberLength?_eq_none_iff,
    fun text => numberReading_readNumber, fun dialect rule hMem lexeme => ⟨fun hReject => ?_, ?_⟩⟩
  · have hNumber := eq_number_of_rejects hMem hReject
    subst hNumber
    exact ⟨rfl, number_rejects_iff.1 hReject⟩
  · rintro ⟨rfl, hLongest⟩
    exact number_rejects_iff.2 hLongest

/-- The least number of 64 bits that bears no sign as an integer is rejected, and the
mark behind it is left. -/
theorem number_literals_large :
    LongestPrefix numerals "9223372036854775808e+".toList 19 ∧
      NumberReading "9223372036854775808".toList none ∧
      RuleSet.number.match? "9223372036854775808e+".toList =
        some ("9223372036854775808".toList, none) := by
  obtain ⟨hScan, -, hRead, hReject⟩ := number_literals "9223372036854775808e+".toList
  have hLongest := (hScan 19).1 (by decide +kernel)
  have hNone : readNumber "9223372036854775808".toList = none := by decide +kernel
  have hMem : "9223372036854775808".toList ∈ numerals := hLongest.mem
  have hReading := hRead _ hMem
  rw [hNone] at hReading
  have hRule : RuleSet.number ∈ Dialect.generic.grammar.tokens.rules := by
    rw [Dialect.rules_tokens]
    simp [RuleSet.lower]
  exact ⟨hLongest, hReading, (hReject .generic _ hRule _).2 ⟨rfl, 19, hLongest, rfl, hNone⟩⟩

end Token

end SqlQuery
