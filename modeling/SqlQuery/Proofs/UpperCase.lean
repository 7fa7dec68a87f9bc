import SqlQuery.Proofs.Extensions
import SqlQuery.Proofs.NameText
import SqlQuery.Proofs.Respelling

/-!
# Letter case and tokens

A text and the same text in upper case are divided into tokens at the same
places, and the tokens differ in nothing but the case of the texts they carry.
The reason is found character by character: whether a character is a blank, a
digit or part of a word does not depend on its case, a mark is no letter, and
the words of a phrase, the exponent mark of a number and the reserved words are
compared in any case.

## Main definitions

* `Text.Caseless` — tests on characters that do not depend on letter case.
* `TokenRule.Caseless` — rules that do not.

## Main results

* `Dialect.caseless` — the rules of the dialects do not depend on letter case.
* `RuleSet.tokenize_toUpper` — the tokens of a text in upper case.
-/

namespace SqlQuery

/-! ## Characters -/

namespace Text

/-- Upper case changes a lower-case letter of ASCII and nothing else. -/
theorem toUpper_cases (c : Char) :
    c.toUpper = c ∨
      ∃ k : Fin 26, c = Char.ofNat (97 + k) ∧ c.toUpper = Char.ofNat (65 + k) := by
  by_cases hLower : 97 ≤ c.toNat ∧ c.toNat ≤ 122
  · have hChar : c = Char.ofNat (97 + (c.toNat - 97)) := by
      rw [Nat.add_sub_cancel' hLower.1, Char.ofNat_toNat]
    have hTable : ∀ k : Fin 26, (Char.ofNat (97 + k)).toUpper = Char.ofNat (65 + k) := by decide
    refine Or.inr ⟨⟨c.toNat - 97, by omega⟩, hChar, ?_⟩
    rw [← hTable]
    exact congrArg Char.toUpper hChar
  · have hRange : ¬('a'.val ≤ c.val ∧ c.val ≤ 'z'.val) := hLower
    exact Or.inl (dif_neg hRange)

theorem toUpper_toUpper (c : Char) : c.toUpper.toUpper = c.toUpper := by
  rcases toUpper_cases c with hSame | ⟨k, -, hUpper⟩
  · rw [hSame, hSame]
  · have hTable : ∀ k : Fin 26, (Char.ofNat (65 + k)).toUpper = Char.ofNat (65 + k) := by decide
    rw [hUpper, hTable]

theorem map_toUpper_toUpper (cs : List Char) :
    (cs.map Char.toUpper).map Char.toUpper = cs.map Char.toUpper := by
  rw [List.map_map]
  exact List.map_congr_left fun c _ => toUpper_toUpper c

theorem sameWord_map_toUpper (word cs : List Char) :
    sameWord word (cs.map Char.toUpper) = sameWord word cs := by
  rw [sameWord, map_toUpper_toUpper, sameWord]

theorem utf8Size_toUpper (c : Char) : c.toUpper.utf8Size = c.utf8Size := by
  rcases toUpper_cases c with hSame | ⟨k, hLower, hUpper⟩
  · rw [hSame]
  · have hTable : ∀ k : Fin 26,
        (Char.ofNat (65 + k)).utf8Size = (Char.ofNat (97 + k)).utf8Size := by decide
    rw [hUpper, hLower, hTable]

theorem byteLength_map_toUpper (cs : List Char) :
    byteLength (cs.map Char.toUpper) = byteLength cs := by
  induction cs with
  | nil => rfl
  | cons c cs ih => rw [List.map_cons, byteLength_cons, byteLength_cons, utf8Size_toUpper, ih]

theorem dropBytes?_map_toUpper (bytes : Nat) (cs : List Char) :
    dropBytes? bytes (cs.map Char.toUpper) = (dropBytes? bytes cs).map (List.map Char.toUpper) := by
  induction cs generalizing bytes with
  | nil => cases bytes <;> rfl
  | cons c cs ih =>
    cases bytes with
    | zero => rfl
    | succ bytes =>
      rw [List.map_cons, dropBytes?, dropBytes?, utf8Size_toUpper]
      split
      · exact ih _
      · rfl

theorem takeBytes?_map_toUpper (bytes : Nat) (cs : List Char) :
    takeBytes? bytes (cs.map Char.toUpper) = (takeBytes? bytes cs).map (List.map Char.toUpper) := by
  induction cs generalizing bytes with
  | nil => cases bytes <;> rfl
  | cons c cs ih =>
    cases bytes with
    | zero => rfl
    | succ bytes =>
      rw [List.map_cons, takeBytes?, takeBytes?, utf8Size_toUpper]
      split
      · rw [ih, Option.map_map, Option.map_map]
        rfl
      · rfl

theorem covered?_map_toUpper (s : Span) (cs : List Char) :
    s.covered? (cs.map Char.toUpper) = (s.covered? cs).map (List.map Char.toUpper) := by
  rw [Span.covered?, Span.covered?]
  cases s.length? with
  | none => rfl
  | some length =>
    show (dropBytes? s.start _).bind _ = ((dropBytes? s.start cs).bind _).map _
    rw [dropBytes?_map_toUpper]
    cases dropBytes? s.start cs with
    | none => rfl
    | some rest => exact takeBytes?_map_toUpper length rest

/-- A test on characters that does not depend on letter case. -/
def Caseless (test : Char → Bool) : Prop := ∀ c : Char, test c.toUpper = test c

/-- A test is caseless if it cannot tell the letters of ASCII from their upper
case. -/
theorem caseless_of_letters {test : Char → Bool}
    (hLetters : ∀ k : Fin 26, test (Char.ofNat (65 + k)) = test (Char.ofNat (97 + k))) :
    Caseless test := by
  intro c
  rcases toUpper_cases c with hSame | ⟨k, hLower, hUpper⟩
  · rw [hSame]
  · rw [hUpper, hLower, hLetters]

theorem caseless_isDigit : Caseless Char.isDigit := caseless_of_letters (by decide)

theorem caseless_isBlank : Caseless isBlank := caseless_of_letters (by decide)

theorem caseless_isWordStart : Caseless isWordStart := caseless_of_letters (by decide)

theorem caseless_isWordChar : Caseless isWordChar := caseless_of_letters (by decide)

/-- A character other than a letter is its own upper case, and that of no other
character. -/
theorem toUpper_eq_iff {c mark : Char} (hMark : mark.isAlpha = false) :
    c.toUpper = mark ↔ c = mark := by
  have hTable : ∀ k : Fin 26, (Char.ofNat (65 + k)).isAlpha = true ∧
      (Char.ofNat (97 + k)).isAlpha = true := by decide
  rcases toUpper_cases c with hSame | ⟨k, hLower, hUpper⟩
  · rw [hSame]
  · rw [hUpper, hLower]
    constructor
    · rintro rfl
      rw [(hTable k).1] at hMark
      cases hMark
    · rintro rfl
      rw [(hTable k).2] at hMark
      cases hMark

theorem caseless_beq {mark : Char} (hMark : mark.isAlpha = false) : Caseless (· == mark) := by
  intro c
  show (c.toUpper == mark) = (c == mark)
  rw [Bool.beq_eq_decide_eq, Bool.beq_eq_decide_eq, decide_eq_decide.2 (toUpper_eq_iff hMark)]

theorem caseless_beq_left {mark : Char} (hMark : mark.isAlpha = false) : Caseless (mark == ·) := by
  intro c
  show (mark == c.toUpper) = (mark == c)
  rw [Bool.beq_comm, Bool.beq_comm (a := mark)]
  exact caseless_beq hMark c

theorem Caseless.not {test : Char → Bool} (hTest : Caseless test) : Caseless fun c => !test c :=
  fun c => congrArg Bool.not (hTest c)

theorem Caseless.or {test test' : Char → Bool} (hTest : Caseless test) (hTest' : Caseless test') :
    Caseless fun c => test c || test' c :=
  fun c => by
    show (test c.toUpper || test' c.toUpper) = (test c || test' c)
    rw [hTest c, hTest' c]

theorem Caseless.comp {test : Char → Bool} (hTest : Caseless test) :
    test ∘ Char.toUpper = test := funext hTest

theorem Caseless.takeWhile {test : Char → Bool} (hTest : Caseless test) (cs : List Char) :
    (cs.map Char.toUpper).takeWhile test = (cs.takeWhile test).map Char.toUpper := by
  rw [List.takeWhile_map, hTest.comp]

theorem Caseless.dropWhile {test : Char → Bool} (hTest : Caseless test) (cs : List Char) :
    (cs.map Char.toUpper).dropWhile test = (cs.dropWhile test).map Char.toUpper := by
  rw [List.dropWhile_map, hTest.comp]

theorem Caseless.all {test : Char → Bool} (hTest : Caseless test) (cs : List Char) :
    (cs.map Char.toUpper).all test = cs.all test := by
  rw [List.all_map, hTest.comp]

theorem Caseless.any {test : Char → Bool} (hTest : Caseless test) (cs : List Char) :
    (cs.map Char.toUpper).any test = cs.any test := by
  rw [List.any_map, hTest.comp]

/-- Digits are their own upper case. -/
theorem map_toUpper_of_isDigit {cs : List Char} (hDigits : ∀ c ∈ cs, c.isDigit = true) :
    cs.map Char.toUpper = cs := by
  have hSame : ∀ c ∈ cs, c.toUpper = id c := by
    intro c hMem
    rcases toUpper_cases c with hSame | ⟨k, hLower, -⟩
    · exact hSame
    · have hTable : ∀ k : Fin 26, (Char.ofNat (97 + k)).isDigit = false := by decide
      have hDigit := hDigits c hMem
      rw [hLower, hTable] at hDigit
      cases hDigit
  rw [List.map_congr_left hSame, List.map_id]

theorem toList_toUpper (source : String) : source.toUpper.toList = source.toList.map Char.toUpper :=
  String.toList_map

theorem toUpper_ofList (cs : List Char) :
    (String.ofList cs).toUpper = String.ofList (cs.map Char.toUpper) := by
  rw [← String.toList_inj, toList_toUpper, String.toList_ofList, String.toList_ofList]

/-- A text starts with a mark in upper case if it does as written. -/
theorem exists_of_map_toUpper {mark : Char} (hMark : mark.isAlpha = false) {cs tail : List Char}
    (hMap : cs.map Char.toUpper = mark :: tail) :
    ∃ rest, cs = mark :: rest ∧ rest.map Char.toUpper = tail := by
  obtain ⟨c, rest, hCons, hChar, hRest⟩ := List.map_eq_cons_iff.1 hMap
  rw [(toUpper_eq_iff hMark).1 hChar] at hCons
  exact ⟨rest, hCons, hRest⟩

theorem not_cons_map_toUpper {mark : Char} (hMark : mark.isAlpha = false) {cs : List Char}
    (hNot : ∀ tail, cs = mark :: tail → False) :
    ∀ tail, cs.map Char.toUpper = mark :: tail → False := by
  intro tail hMap
  obtain ⟨rest, hCons, -⟩ := exists_of_map_toUpper hMark hMap
  exact hNot rest hCons

/-! ## Blanks and comments -/

/-- A pair of marks stands in a text in upper case where it stands in the text
as written. -/
theorem not_pair_toUpper {mark mark' : Char} (hMark : mark.isAlpha = false)
    (hMark' : mark'.isAlpha = false) {c : Char} {cs : List Char}
    (hNot : ∀ tail, c = mark → cs = mark' :: tail → False) :
    ∀ tail, c.toUpper = mark → cs.map Char.toUpper = mark' :: tail → False := by
  intro tail hChar hMap
  obtain ⟨rest, hCons, -⟩ := exists_of_map_toUpper hMark' hMap
  exact hNot rest ((toUpper_eq_iff hMark).1 hChar) hCons

mutual

theorem gapLength_map_toUpper (cs : List Char) :
    gapLength (cs.map Char.toUpper) = gapLength cs := by
  rw [gapLength.eq_def cs]
  split
  · rfl
  · next cs =>
    show gapLength ('-' :: '-' :: cs.map Char.toUpper) = _
    rw [gapLength, lineCommentLength_map_toUpper cs]
  · next cs =>
    show gapLength ('/' :: '*' :: cs.map Char.toUpper) = _
    rw [gapLength, blockCommentLength_map_toUpper cs]
  · next c cs hLine hBlock =>
    rw [List.map_cons, gapLength.eq_4 _ _ (not_pair_toUpper rfl rfl hLine)
      (not_pair_toUpper rfl rfl hBlock), caseless_isBlank c, gapLength_map_toUpper cs]
termination_by cs.length

theorem lineCommentLength_map_toUpper (cs : List Char) :
    lineCommentLength (cs.map Char.toUpper) = lineCommentLength cs := by
  match cs with
  | [] => rfl
  | c :: cs =>
    have hBreak : (c.toUpper == '\n') = (c == '\n') := caseless_beq (by decide) c
    rw [List.map_cons, lineCommentLength, lineCommentLength, gapLength_map_toUpper cs,
      lineCommentLength_map_toUpper cs, hBreak]
termination_by cs.length

theorem blockCommentLength_map_toUpper (cs : List Char) :
    blockCommentLength (cs.map Char.toUpper) = blockCommentLength cs := by
  rw [blockCommentLength.eq_def cs]
  split
  · rfl
  · next cs =>
    show blockCommentLength ('*' :: '/' :: cs.map Char.toUpper) = _
    rw [blockCommentLength, gapLength_map_toUpper cs]
  · next c cs hEnd =>
    rw [List.map_cons, blockCommentLength.eq_3 _ _ (not_pair_toUpper rfl rfl hEnd),
      blockCommentLength_map_toUpper cs]
termination_by cs.length

end

theorem firstWord_map_toUpper (cs : List Char) :
    firstWord (cs.map Char.toUpper) = (firstWord cs).map Char.toUpper :=
  caseless_isBlank.not.takeWhile cs

end Text

/-! ## Numbers -/

namespace Number

open SqlQuery.Text

theorem splitDigits_map_toUpper (cs : List Char) :
    splitDigits (cs.map Char.toUpper) =
      ((splitDigits cs).1, (splitDigits cs).2.map Char.toUpper) := by
  have hDigits : ∀ c ∈ cs.takeWhile Char.isDigit, c.isDigit = true := fun c hMem =>
    List.all_eq_true.1 List.all_takeWhile c hMem
  rw [splitDigits, caseless_isDigit.takeWhile, caseless_isDigit.dropWhile,
    map_toUpper_of_isDigit hDigits]
  rfl

/-- The value of what consists of digits, and nothing else has one. -/
theorem readDigits_map_toUpper (body : List Char) (negative : Bool) :
    (if (body.map Char.toUpper).isEmpty || !(body.map Char.toUpper).all Char.isDigit then none
      else
        let magnitude : Int := digitsValue (body.map Char.toUpper)
        some (if negative then -magnitude else magnitude)) =
      if body.isEmpty || !body.all Char.isDigit then none
      else
        let magnitude : Int := digitsValue body
        some (if negative then -magnitude else magnitude) := by
  rw [caseless_isDigit.all, List.isEmpty_map]
  split
  · rfl
  · next hDigits =>
    rw [Bool.or_eq_true, not_or, Bool.not_eq_true', Bool.not_eq_false, List.all_eq_true] at hDigits
    rw [map_toUpper_of_isDigit hDigits.2]

theorem readInt_map_toUpper (cs : List Char) : readInt (cs.map Char.toUpper) = readInt cs := by
  by_cases hMinus : ∃ body, cs = '-' :: body
  · obtain ⟨body, rfl⟩ := hMinus
    exact readDigits_map_toUpper body true
  by_cases hPlus : ∃ body, cs = '+' :: body
  · obtain ⟨body, rfl⟩ := hPlus
    exact readDigits_map_toUpper body false
  have hMinus' : ∀ body, cs = '-' :: body → False := fun body h => hMinus ⟨body, h⟩
  have hPlus' : ∀ body, cs = '+' :: body → False := fun body h => hPlus ⟨body, h⟩
  rw [readInt.eq_3 cs hMinus' hPlus', readInt.eq_3 _ (not_cons_map_toUpper rfl hMinus')
    (not_cons_map_toUpper rfl hPlus')]
  exact readDigits_map_toUpper cs false

theorem readExponent_map_toUpper (cs : List Char) :
    readExponent (cs.map Char.toUpper) = readExponent cs := by
  cases cs with
  | nil => rfl
  | cons c cs =>
    have hMark : Caseless fun c => c == 'e' || c == 'E' := caseless_of_letters (by decide)
    have hChar : (c.toUpper == 'e' || c.toUpper == 'E') = (c == 'e' || c == 'E') := hMark c
    rw [List.map_cons, readExponent, readExponent, hChar, readInt_map_toUpper]

theorem Decimal.ofChars?_map_toUpper (cs : List Char) :
    Decimal.ofChars? (cs.map Char.toUpper) = Decimal.ofChars? cs := by
  rw [Decimal.ofChars?, Decimal.ofChars?, splitDigits_map_toUpper]
  generalize splitDigits cs = pair
  obtain ⟨whole, rest⟩ := pair
  dsimp only
  cases rest with
  | nil => rfl
  | cons c tail =>
    by_cases hPoint : c = '.'
    · have hSame : Char.toUpper '.' = '.' := rfl
      simp [hPoint, hSame, splitDigits_map_toUpper, readExponent_map_toUpper]
    · have hPoint' : c.toUpper ≠ '.' := fun h => hPoint ((toUpper_eq_iff rfl).1 h)
      have hTail := readExponent_map_toUpper (c :: tail)
      rw [List.map_cons] at hTail
      simp [hPoint, hPoint', hTail]

theorem Binary64.ofUnsigned?_map_toUpper (negative : Bool) (cs : List Char) :
    Binary64.ofUnsigned? negative (cs.map Char.toUpper) = Binary64.ofUnsigned? negative cs := by
  have hLower : (cs.map Char.toUpper).map Char.toLower = cs.map Char.toLower := by
    rw [List.map_map]
    refine List.map_congr_left fun c _ => ?_
    rcases toUpper_cases c with hSame | ⟨k, hLower, hUpper⟩
    · exact congrArg Char.toLower hSame
    · have hTable : ∀ k : Fin 26,
          (Char.ofNat (65 + k)).toLower = (Char.ofNat (97 + k)).toLower := by decide
      rw [Function.comp_apply, hUpper, hLower, hTable]
  rw [Binary64.ofUnsigned?, Binary64.ofUnsigned?, hLower, Decimal.ofChars?_map_toUpper]

theorem Binary64.ofChars?_map_toUpper (cs : List Char) :
    Binary64.ofChars? (cs.map Char.toUpper) = Binary64.ofChars? cs := by
  rw [Binary64.ofChars?.eq_def cs]
  split
  · exact Binary64.ofUnsigned?_map_toUpper true _
  · exact Binary64.ofUnsigned?_map_toUpper false _
  · next hMinus hPlus =>
    rw [Binary64.ofChars?.eq_3 _ (not_cons_map_toUpper rfl hMinus) (not_cons_map_toUpper rfl hPlus),
      Binary64.ofUnsigned?_map_toUpper]

end Number

namespace Token

open SqlQuery.Text

theorem digitCount_map_toUpper (cs : List Char) :
    digitCount (cs.map Char.toUpper) = digitCount cs := by
  rw [digitCount, caseless_isDigit.takeWhile, List.length_map, digitCount]

theorem fractionLength_map_toUpper (cs : List Char) :
    fractionLength (cs.map Char.toUpper) = fractionLength cs := by
  rw [fractionLength.eq_def cs]
  split
  · next cs =>
    show fractionLength ('.' :: cs.map Char.toUpper) = _
    rw [fractionLength, digitCount_map_toUpper]
  · next hPoint => exact fractionLength.eq_2 _ (not_cons_map_toUpper rfl hPoint)

theorem signLength_map_toUpper (cs : List Char) :
    signLength (cs.map Char.toUpper) = signLength cs := by
  rw [signLength.eq_def cs]
  split
  · rfl
  · rfl
  · next hPlus hMinus =>
    exact signLength.eq_3 _ (not_cons_map_toUpper rfl hPlus) (not_cons_map_toUpper rfl hMinus)

theorem exponentBodyLength_map_toUpper (cs : List Char) :
    exponentBodyLength (cs.map Char.toUpper) = exponentBodyLength cs := by
  rw [exponentBodyLength, signLength_map_toUpper, ← List.map_drop, digitCount_map_toUpper,
    exponentBodyLength]

/-- The mark of an exponent is one letter, in either case. -/
theorem exponentLength_map_toUpper (cs : List Char) :
    exponentLength (cs.map Char.toUpper) = exponentLength cs := by
  rw [exponentLength.eq_def cs]
  split
  · exact exponentBodyLength_map_toUpper _
  · exact exponentBodyLength_map_toUpper _
  · next hLower hUpper =>
    refine exponentLength.eq_3 _ (fun tail hMap => ?_) fun tail hMap => ?_
    · obtain ⟨c, rest, rfl, hChar, -⟩ := List.map_eq_cons_iff.1 hMap
      rcases toUpper_cases c with hSame | ⟨k, -, hUpper'⟩
      · exact hLower rest (by rw [← hSame, hChar])
      · have hTable : ∀ k : Fin 26, Char.ofNat (65 + k) ≠ 'e' := by decide
        exact hTable k (hUpper'.symm.trans hChar)
    · obtain ⟨c, rest, rfl, hChar, -⟩ := List.map_eq_cons_iff.1 hMap
      rcases toUpper_cases c with hSame | ⟨k, hLower', hUpper'⟩
      · exact hUpper rest (by rw [← hSame, hChar])
      · have hTable : ∀ k : Fin 26, Char.ofNat (65 + k) = 'E' → Char.ofNat (97 + k) = 'e' := by
          decide
        exact hLower rest (by rw [hLower', hTable k (hUpper'.symm.trans hChar)])

theorem numberLength?_map_toUpper (cs : List Char) :
    numberLength? (cs.map Char.toUpper) = numberLength? cs := by
  simp only [numberLength?, digitCount_map_toUpper, ← List.map_drop, fractionLength_map_toUpper,
    exponentLength_map_toUpper]

/-- A number has the same value in any case. -/
theorem readNumber_map_toUpper (cs : List Char) :
    readNumber (cs.map Char.toUpper) = readNumber cs := by
  have hFloating : isFloating (cs.map Char.toUpper) = isFloating cs := by
    have hMark : Caseless fun c => c == '.' || c == 'e' || c == 'E' :=
      caseless_of_letters (by decide)
    exact hMark.any cs
  rw [readNumber, readNumber, hFloating, Number.Binary64.ofChars?_map_toUpper,
    caseless_isDigit.all, List.isEmpty_map]
  split
  · rfl
  · split
    · rfl
    · next hDigits =>
      rw [Bool.or_eq_true, not_or, Bool.not_eq_true', Bool.not_eq_false,
        List.all_eq_true] at hDigits
      rw [map_toUpper_of_isDigit hDigits.2]

/-! ## Quoted texts and names -/

theorem closingLength?_map_toUpper {quote : Char} (hQuote : quote.isAlpha = false)
    (cs : List Char) : closingLength? quote (cs.map Char.toUpper) = closingLength? quote cs := by
  induction cs with
  | nil => rfl
  | cons c cs ih =>
    have hChar : (c.toUpper == quote) = (c == quote) := caseless_beq hQuote c
    rw [List.map_cons, closingLength?, closingLength?, hChar, ih]

theorem quotedLength?_map_toUpper {quote : Char} (hQuote : quote.isAlpha = false)
    (cs : List Char) : quotedLength? quote (cs.map Char.toUpper) = quotedLength? quote cs := by
  cases cs with
  | nil => rfl
  | cons c cs =>
    have hChar : (c.toUpper == quote) = (c == quote) := caseless_beq hQuote c
    rw [List.map_cons, quotedLength?, quotedLength?, hChar, closingLength?_map_toUpper hQuote]

theorem readText_map_toUpper (cs : List Char) :
    readText (cs.map Char.toUpper) =
      (readText cs).map (TokenKind.mapTexts String.toUpper) := by
  rw [readText, readText, Text.byteLength_map_toUpper, Text.covered?_map_toUpper, Option.map_map,
    Option.map_map]
  congr 1
  funext word
  exact congrArg TokenKind.text (toUpper_ofList word).symm

theorem partLength?_map_toUpper (cs : List Char) :
    partLength? (cs.map Char.toUpper) = partLength? cs := by
  cases cs with
  | nil => rfl
  | cons c cs =>
    have hChar : (c.toUpper == backtick) = (c == backtick) := caseless_beq rfl c
    rw [List.map_cons, partLength?, partLength?, hChar, ← List.map_cons,
      quotedLength?_map_toUpper rfl, caseless_isWordStart c, caseless_isWordChar.takeWhile,
      List.length_map]

theorem furtherPartsLength_map_toUpper (skip : Nat) (cs : List Char) :
    furtherPartsLength skip (cs.map Char.toUpper) = furtherPartsLength skip cs := by
  induction cs generalizing skip with
  | nil => rfl
  | cons c cs ih =>
    cases skip with
    | succ skip => exact ih skip
    | zero =>
      by_cases hPoint : c = '.'
      · subst hPoint
        have hStar : ((cs.map Char.toUpper).head? == some '*') = (cs.head? == some '*') := by
          cases cs with
          | nil => rfl
          | cons d cs => exact caseless_beq (by decide) d
        show furtherPartsLength 0 ('.' :: cs.map Char.toUpper) = _
        rw [furtherPartsLength, furtherPartsLength, hStar, partLength?_map_toUpper]
        simp only [ih]
      · have hPoint' : c.toUpper ≠ '.' := fun h => hPoint ((toUpper_eq_iff rfl).1 h)
        rw [List.map_cons, furtherPartsLength.eq_3 _ _ (by simp) (by simp [hPoint']),
          furtherPartsLength.eq_3 _ _ (by simp) (by simp [hPoint])]

theorem nameLength?_map_toUpper (cs : List Char) :
    nameLength? (cs.map Char.toUpper) = nameLength? cs := by
  simp only [nameLength?, partLength?_map_toUpper, furtherPartsLength_map_toUpper]

/-- The part in upper case. -/
def NamePart.toUpper (part : NamePart) : NamePart :=
  { part with word := part.word.map Char.toUpper }

theorem firstPart?_map_toUpper (cs : List Char) :
    firstPart? (cs.map Char.toUpper) =
      (firstPart? cs).map fun found => (found.1.toUpper, found.2.map Char.toUpper) := by
  cases cs with
  | nil => rfl
  | cons c cs =>
    have hChar : (c.toUpper == backtick) = (c == backtick) := caseless_beq rfl c
    have hQuote : Caseless (· != backtick) := (caseless_beq rfl).not
    have hPoint : Caseless (· != '.') := (caseless_beq rfl).not
    rw [List.map_cons, firstPart?, firstPart?, hChar, ← List.map_cons, hQuote.dropWhile,
      hQuote.takeWhile, hPoint.dropWhile, hPoint.takeWhile]
    split
    · cases cs.dropWhile (· != backtick) <;> rfl
    · rfl

theorem nameParts?_map_toUpper (limit : Nat) (cs : List Char) :
    nameParts? limit (cs.map Char.toUpper) =
      (nameParts? limit cs).map (List.map NamePart.toUpper) := by
  induction limit generalizing cs with
  | zero =>
    rw [nameParts?, nameParts?, firstPart?_map_toUpper]
    cases firstPart? cs <;> rfl
  | succ limit ih =>
    rw [nameParts?, nameParts?, firstPart?_map_toUpper]
    cases firstPart? cs with
    | none => rfl
    | some found =>
      obtain ⟨part, rest⟩ := found
      cases rest with
      | nil => rfl
      | cons c rest =>
        by_cases hPoint : c = '.'
        · subst hPoint
          show (nameParts? limit (rest.map Char.toUpper)).map (part.toUpper :: ·) =
            ((nameParts? limit rest).map (part :: ·)).map (List.map NamePart.toUpper)
          rw [ih, Option.map_map, Option.map_map]
          rfl
        · have hPoint' : c.toUpper ≠ '.' := fun h => hPoint ((toUpper_eq_iff rfl).1 h)
          simp [hPoint, hPoint']

end Token

theorem Keyword.ofWord?_map_toUpper (word : List Char) :
    Keyword.ofWord? (word.map Char.toUpper) = Keyword.ofWord? word := by
  simp only [Keyword.ofWord?, Text.sameWord_map_toUpper]

namespace Token

open SqlQuery.Text

theorem partsValue_map_toUpper (parts : List NamePart) :
    partsValue (parts.map NamePart.toUpper) = (partsValue parts).map Char.toUpper := by
  induction parts with
  | nil => rfl
  | cons part parts ih =>
    cases parts with
    | nil => simp [partsValue, NamePart.toUpper]
    | cons second parts =>
      have hNe : second :: parts ≠ [] := List.cons_ne_nil _ _
      rw [List.map_cons, partsValue_cons (by simp), ih, partsValue_cons hNe, List.map_append,
        List.map_cons]
      rfl

theorem readName_map_toUpper (cs : List Char) :
    readName (cs.map Char.toUpper) =
      (readName cs).map (TokenKind.mapTexts String.toUpper) := by
  rw [readName, readName, List.length_map, nameParts?_map_toUpper, Option.map_map, Option.map_map]
  congr 1
  funext parts
  have hQuoted : (parts.map NamePart.toUpper).any (·.quoted) = parts.any (·.quoted) := by
    rw [List.any_map]
    rfl
  have hValue : List.intercalate ['.'] ((parts.map NamePart.toUpper).map (·.word)) =
      (List.intercalate ['.'] (parts.map (·.word))).map Char.toUpper :=
    partsValue_map_toUpper parts
  simp only [Function.comp_apply, hQuoted, hValue, ← toUpper_ofList]
  rcases parts with _ | ⟨part, _ | ⟨next, parts⟩⟩
  · rfl
  · simp only [List.map_cons, List.map_nil, NamePart.toUpper, Keyword.ofWord?_map_toUpper]
    split <;> rfl
  · rfl

/-! ## Variables -/

theorem caseless_isVariableChar : Caseless isVariableChar :=
  caseless_isWordChar.or (caseless_beq rfl)

theorem variableNameLength_map_toUpper (cs : List Char) :
    variableNameLength (cs.map Char.toUpper) = variableNameLength cs := by
  rw [variableNameLength, caseless_isVariableChar.takeWhile, List.length_map, variableNameLength]

theorem userVariableLength?_map_toUpper (cs : List Char) :
    userVariableLength? (cs.map Char.toUpper) = userVariableLength? cs := by
  rw [userVariableLength?.eq_def cs]
  split
  · next cs =>
    show userVariableLength? ('@' :: cs.map Char.toUpper) = _
    rw [userVariableLength?, variableNameLength_map_toUpper]
  · next hSign => exact userVariableLength?.eq_2 _ (not_cons_map_toUpper rfl hSign)

theorem readUserVariable_map_toUpper (cs : List Char) :
    readUserVariable (cs.map Char.toUpper) =
      (readUserVariable cs).map (TokenKind.mapTexts String.toUpper) := by
  rw [readUserVariable.eq_def cs]
  split
  · next name =>
    show readUserVariable ('@' :: name.map Char.toUpper) = _
    rw [readUserVariable, ← toUpper_ofList]
    rfl
  · next hSign => exact readUserVariable.eq_2 _ (not_cons_map_toUpper rfl hSign)

/-- Two marks start a text in upper case if they do as written. -/
theorem not_cons_cons_map_toUpper {mark mark' : Char} (hMark : mark.isAlpha = false)
    (hMark' : mark'.isAlpha = false) {cs : List Char}
    (hNot : ∀ tail, cs = mark :: mark' :: tail → False) :
    ∀ tail, cs.map Char.toUpper = mark :: mark' :: tail → False := by
  intro tail hMap
  obtain ⟨rest, rfl, hRest⟩ := exists_of_map_toUpper hMark hMap
  obtain ⟨rest', rfl, -⟩ := exists_of_map_toUpper hMark' hRest
  exact hNot rest' rfl

theorem systemVariableLength?_map_toUpper (cs : List Char) :
    systemVariableLength? (cs.map Char.toUpper) = systemVariableLength? cs := by
  rw [systemVariableLength?.eq_def cs]
  split
  · next cs =>
    show systemVariableLength? ('@' :: '@' :: cs.map Char.toUpper) = _
    rw [systemVariableLength?, variableNameLength_map_toUpper]
  · next hSign => exact systemVariableLength?.eq_2 _ (not_cons_cons_map_toUpper rfl rfl hSign)

theorem readSystemVariable_map_toUpper (cs : List Char) :
    readSystemVariable (cs.map Char.toUpper) =
      (readSystemVariable cs).map (TokenKind.mapTexts String.toUpper) := by
  rw [readSystemVariable.eq_def cs]
  split
  · next name =>
    show readSystemVariable ('@' :: '@' :: name.map Char.toUpper) = _
    rw [readSystemVariable, ← toUpper_ofList]
    rfl
  · next hSign => exact readSystemVariable.eq_2 _ (not_cons_cons_map_toUpper rfl rfl hSign)

end Token

/-! ## Words and marks -/

namespace Pattern

open SqlQuery.Text

theorem wordLength?_map_toUpper (word cs : List Char) :
    wordLength? word (cs.map Char.toUpper) = wordLength? word cs := by
  rw [wordLength?, wordLength?, ← List.map_take, sameWord_map_toUpper]

theorem continuesWord_map_toUpper (cs : List Char) :
    continuesWord (cs.map Char.toUpper) = continuesWord cs := by
  cases cs with
  | nil => rfl
  | cons c cs => exact caseless_isWordChar c

theorem furtherWordsLength?_map_toUpper (words : List String) (cs : List Char) :
    furtherWordsLength? words (cs.map Char.toUpper) = furtherWordsLength? words cs := by
  induction words generalizing cs with
  | nil => rw [furtherWordsLength?, furtherWordsLength?, continuesWord_map_toUpper]
  | cons word words ih =>
    simp only [furtherWordsLength?, caseless_isBlank.takeWhile, List.length_map, ← List.map_drop,
      wordLength?_map_toUpper, ih]

theorem wordsLength?_map_toUpper (words : List String) (cs : List Char) :
    wordsLength? words (cs.map Char.toUpper) = wordsLength? words cs := by
  cases words with
  | nil => exact furtherWordsLength?_map_toUpper [] cs
  | cons word words =>
    simp only [wordsLength?, wordLength?_map_toUpper, ← List.map_drop,
      furtherWordsLength?_map_toUpper]

theorem isPrefixOf_map_toUpper {marks : List Char} (hMarks : ∀ c ∈ marks, c.isAlpha = false)
    (cs : List Char) : marks.isPrefixOf (cs.map Char.toUpper) = marks.isPrefixOf cs := by
  induction marks generalizing cs with
  | nil => rfl
  | cons mark marks ih =>
    obtain ⟨hMark, hRest⟩ := List.forall_mem_cons.1 hMarks
    cases cs with
    | nil => rfl
    | cons c cs =>
      have hChar : (mark == c.toUpper) = (mark == c) := caseless_beq_left hMark c
      rw [List.map_cons, List.isPrefixOf, List.isPrefixOf, hChar, ih hRest]

end Pattern

/-! ## Rules -/

namespace TokenRule

/-- A rule that does not depend on letter case: it matches as much of a text in
upper case as of the text as written, and gives the same kind of token with its
text in upper case. -/
def Caseless (rule : TokenRule) : Prop :=
  ∀ cs : List Char, rule.match? (cs.map Char.toUpper) = (rule.match? cs).map fun found =>
    (found.1.map Char.toUpper, found.2.map (TokenKind.mapTexts String.toUpper))

theorem caseless_of {rule : TokenRule}
    (hLength : ∀ cs : List Char, rule.pattern.length? (cs.map Char.toUpper) =
      rule.pattern.length? cs)
    (hRead : ∀ cs : List Char, rule.reading.apply (cs.map Char.toUpper) =
      (rule.reading.apply cs).map (TokenKind.mapTexts String.toUpper)) : rule.Caseless := by
  intro cs
  rw [match?, match?, hLength, Option.map_map]
  congr 1
  funext length
  simp only [Function.comp_apply, ← List.map_take, hRead]

theorem caseless_phrase (name : String) (priority : Nat) (words : List String) (keyword : Keyword) :
    (phrase name priority words keyword).Caseless :=
  caseless_of (Pattern.wordsLength?_map_toUpper words) fun _ => rfl

theorem caseless_symbol (name : String) (priority : Nat) {text : String} {kind : TokenKind}
    (hText : text.toList.any Char.isAlpha = false)
    (hKind : kind.mapTexts String.toUpper = kind) : (symbol name priority text kind).Caseless := by
  have hLetters : ∀ c ∈ text.toList, c.isAlpha = false := fun c hMem => by
    simpa using List.any_eq_false.1 hText c hMem
  refine caseless_of (fun cs => ?_) fun _ => congrArg some hKind.symm
  show (if text.toList.isPrefixOf (cs.map Char.toUpper) then _ else _) = _
  rw [Pattern.isPrefixOf_map_toUpper hLetters]
  rfl

theorem caseless_scanned (name : String) (priority : Nat) {length? : List Char → Option Nat}
    {read : List Char → Option TokenKind}
    (hLength : ∀ cs : List Char, length? (cs.map Char.toUpper) = length? cs)
    (hRead : ∀ cs : List Char,
      read (cs.map Char.toUpper) = (read cs).map (TokenKind.mapTexts String.toUpper)) :
    (scanned name priority length? read).Caseless := by
  refine caseless_of (fun cs => ?_) hRead
  show (length? (cs.map Char.toUpper)).filter _ = _
  rw [hLength]
  rfl

end TokenRule

namespace RuleSet

/-- Rules that do not depend on letter case. -/
def Caseless (rules : RuleSet) : Prop := ∀ rule ∈ rules.rules, rule.Caseless

end RuleSet

theorem Token.mapTexts_readNumber (f : String → String) (cs : List Char) :
    (Token.readNumber cs).map (TokenKind.mapTexts f) = Token.readNumber cs := by
  rw [Token.readNumber]
  split
  · cases Number.Binary64.ofChars? cs with
    | none => rfl
    | some value =>
      rw [Option.bind_some]
      split <;> rfl
  · split
    · rfl
    · dsimp only
      split <;> rfl

namespace RuleSet

theorem caseless_phrases : ∀ rule ∈ phrases, rule.Caseless := by
  simp only [phrases, List.forall_mem_cons, TokenRule.caseless_phrase, true_and]
  exact fun _ hMem => absurd hMem List.not_mem_nil

theorem caseless_marks : ∀ rule ∈ marks, rule.Caseless := by
  intro rule hMem
  simp only [marks, List.mem_cons, List.not_mem_nil, or_false] at hMem
  rcases hMem with rfl | rfl | rfl | rfl | rfl | rfl | rfl | rfl | rfl | rfl | rfl | rfl | rfl |
    rfl | rfl | rfl | rfl | rfl <;> exact TokenRule.caseless_symbol _ _ (by decide) rfl

end RuleSet

/-- The rules of the dialects do not depend on letter case. -/
theorem Dialect.caseless (dialect : Dialect) : dialect.grammar.tokens.Caseless := by
  intro rule hMem
  cases isRule_of_mem hMem with
  | phrase hPhrase => exact RuleSet.caseless_phrases rule hPhrase
  | systemVariable =>
    exact TokenRule.caseless_scanned _ _ Token.systemVariableLength?_map_toUpper
      Token.readSystemVariable_map_toUpper
  | userVariable =>
    exact TokenRule.caseless_scanned _ _ Token.userVariableLength?_map_toUpper
      Token.readUserVariable_map_toUpper
  | number =>
    refine TokenRule.caseless_scanned _ _ Token.numberLength?_map_toUpper fun cs => ?_
    rw [Token.readNumber_map_toUpper, Token.mapTexts_readNumber]
  | singleText | doubleText =>
    exact TokenRule.caseless_scanned _ _ (Token.quotedLength?_map_toUpper rfl)
      Token.readText_map_toUpper
  | name =>
    exact TokenRule.caseless_scanned _ _ Token.nameLength?_map_toUpper
      Token.readName_map_toUpper
  | mark hMark => exact RuleSet.caseless_marks rule hMark

/-! ## The lexer -/

instance : HasTexts Token where
  mapTexts f token := ⟨token.kind.mapTexts f, token.span, f token.lexeme⟩

instance : HasTexts TokenStream where
  mapTexts f stream := ⟨mapTexts f stream.ahead, mapTexts f stream.last⟩

instance : HasTexts LexicalError where
  mapTexts f
    | .unrecognized fragment span => .unrecognized (f fragment) span
    | .stalled position => .stalled position

instance {ε α : Type} [HasTexts ε] [HasTexts α] : HasTexts (Except ε α) where
  mapTexts f
    | .ok value => .ok (mapTexts f value)
    | .error e => .error (mapTexts f e)

namespace Lexer

/-- The lexer with the text still to be read in upper case. -/
def toUpper (lexer : Lexer) : Lexer := { lexer with rest := lexer.rest.map Char.toUpper }

theorem advance_toUpper (lexer : Lexer) (length : Nat) :
    lexer.toUpper.advance length = (lexer.advance length).toUpper := by
  simp only [advance, toUpper, ← List.map_take, ← List.map_drop, Text.byteLength_map_toUpper]

theorem skip_toUpper (lexer : Lexer) : lexer.toUpper.skip = lexer.skip.toUpper := by
  rw [skip, skip, advance_toUpper]
  exact congrArg (fun length => (lexer.advance length).toUpper) (Text.gapLength_map_toUpper _)

theorem spanOf_toUpper (lexer : Lexer) (cs : List Char) :
    lexer.toUpper.spanOf (cs.map Char.toUpper) = lexer.spanOf cs := by
  simp only [spanOf, toUpper, Text.byteLength_map_toUpper]

theorem firstMatch?_toUpper {lexer : Lexer} (hRules : lexer.rules.Caseless) :
    lexer.toUpper.firstMatch? = lexer.firstMatch?.map fun found =>
      (found.1.map Char.toUpper, found.2.map (TokenKind.mapTexts String.toUpper)) := by
  obtain ⟨⟨rules⟩, rest, position⟩ := lexer
  show rules.findSome? (fun rule => rule.match? (rest.map Char.toUpper)) =
    (rules.findSome? fun rule => rule.match? rest).map _
  replace hRules : ∀ rule ∈ rules, rule.Caseless := hRules
  induction rules with
  | nil => rfl
  | cons rule rules ih =>
    obtain ⟨hRule, hRest⟩ := List.forall_mem_cons.1 hRules
    rw [List.findSome?_cons, List.findSome?_cons, hRule rest]
    cases rule.match? rest with
    | none => exact ih hRest
    | some found => rfl

/-- One token of a text in upper case. -/
theorem read_toUpper {lexer : Lexer} (hRules : lexer.rules.Caseless) :
    lexer.toUpper.read = (mapTexts String.toUpper lexer.read.1, lexer.read.2.toUpper) := by
  have hEmpty : lexer.toUpper.rest.isEmpty = lexer.rest.isEmpty := List.isEmpty_map
  have hFragment : Text.firstWord lexer.toUpper.rest =
      (Text.firstWord lexer.rest).map Char.toUpper := Text.firstWord_map_toUpper _
  rw [read, read, hEmpty, firstMatch?_toUpper hRules, hFragment]
  split
  · have hNone : "".toUpper = "" := Text.toUpper_ofList []
    show _ = (Except.ok (Token.mk .finish (lexer.spanOf []) "".toUpper), lexer.toUpper)
    rw [hNone]
    rfl
  · rcases lexer.firstMatch? with _ | ⟨lexeme, _ | kind⟩
    · dsimp only [Option.map_none]
      rw [spanOf_toUpper, ← Text.toUpper_ofList]
      rfl
    · dsimp only [Option.map_some, Option.map_none]
      rw [spanOf_toUpper, ← Text.toUpper_ofList]
      rfl
    · dsimp only [Option.map_some]
      rw [spanOf_toUpper, ← Text.toUpper_ofList, List.length_map, advance_toUpper]
      rfl

theorem next_toUpper {lexer : Lexer} (hRules : lexer.rules.Caseless) :
    lexer.toUpper.next = (mapTexts String.toUpper lexer.next.1, lexer.next.2.toUpper) := by
  have hSkip : lexer.skip.rules.Caseless := hRules
  rw [next, skip_toUpper, read_toUpper hSkip, next]

theorem tokenizeWithin_toUpper (limit : Nat) {lexer : Lexer} (hRules : lexer.rules.Caseless) :
    lexer.toUpper.tokenizeWithin limit = mapTexts String.toUpper (lexer.tokenizeWithin limit) := by
  induction limit generalizing lexer with
  | zero => rfl
  | succ limit ih =>
    have hAfter : lexer.next.2.rules.Caseless := (rules_of_next rfl).symm ▸ hRules
    rw [tokenizeWithin, tokenizeWithin, next_toUpper hRules]
    generalize lexer.next = found at hAfter
    obtain ⟨reply, after⟩ := found
    cases reply with
    | error e => rfl
    | ok token =>
      have hFinish : (mapTexts String.toUpper token).kind.isFinish = token.kind.isFinish := by
        cases token with
        | mk kind span lexeme => cases kind <;> rfl
      show (if (mapTexts String.toUpper token).kind.isFinish then _ else _) = _
      rw [hFinish, ih hAfter]
      dsimp only
      split
      · rfl
      · cases after.tokenizeWithin limit <;> rfl

end Lexer

/-- The tokens of a text in upper case are those of the text as written, their
texts in upper case. -/
theorem RuleSet.tokenize_toUpper {rules : RuleSet} (hRules : rules.Caseless) (source : String) :
    rules.tokenize source.toUpper = mapTexts String.toUpper (rules.tokenize source) := by
  have hStart : Lexer.start rules source.toUpper = (Lexer.start rules source).toUpper := by
    rw [Lexer.start, Text.toList_toUpper]
    rfl
  rw [tokenize, tokenize, hStart, Lexer.tokenize, Lexer.tokenize,
    Lexer.tokenizeWithin_toUpper _ hRules]
  simp only [Lexer.toUpper, List.length_map]

end SqlQuery
