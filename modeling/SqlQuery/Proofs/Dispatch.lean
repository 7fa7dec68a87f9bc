import SqlQuery.Proofs.Lexemes

/-!
# Which rule takes a text

The first character of a text decides which of the rules may match it: a
phrase or a name where a word or a backtick starts, a number at a digit, a
text at a quote character, a variable at an at sign, a mark elsewhere.  What a
rule takes depends on the text behind its lexeme only through the next
character, but for a phrase, which depends on the words that follow.

## Main definitions

* `Text.Neutral` — a text that continues no lexeme before it.
* `Pattern.Completes` — words that complete a phrase.

## Main results

* `Dialect.first?_of_name`, `Dialect.first?_of_number`, … — the match of a
  lexeme with a neutral text behind it.
* `Dialect.takeWhile_isWordChar_prefix` — a lexeme takes the whole word it
  starts with.
-/

namespace SqlQuery

/-! ## Characters -/

namespace Text

theorem isWordStart_of_isUpper {c : Char} (hUpper : c.toUpper.isUpper = true) :
    isWordStart c = true := by
  have hLetter : ∀ k : Fin 26,
      isWordStart (Char.ofNat (65 + k)) = true ∧ isWordStart (Char.ofNat (97 + k)) = true := by
    decide +kernel
  have hRange : 65 ≤ c.toNat ∧ c.toNat ≤ 90 ∨ 97 ≤ c.toNat ∧ c.toNat ≤ 122 := by
    by_cases hLower : 'a'.val ≤ c.val ∧ c.val ≤ 'z'.val
    · exact Or.inr ⟨hLower.1, hLower.2⟩
    · have hSelf : c.toUpper = c := dif_neg hLower
      rw [hSelf] at hUpper
      obtain ⟨hLow, hHigh⟩ : 'A'.val ≤ c.val ∧ c.val ≤ 'Z'.val := of_decide_eq_true hUpper
      exact Or.inl ⟨hLow, hHigh⟩
  rcases hRange with ⟨hLow, hHigh⟩ | ⟨hLow, hHigh⟩
  · have hChar : c = Char.ofNat (65 + (c.toNat - 65)) := by
      rw [Nat.add_sub_cancel' hLow, Char.ofNat_toNat]
    rw [hChar]
    exact (hLetter ⟨c.toNat - 65, by omega⟩).1
  · have hChar : c = Char.ofNat (97 + (c.toNat - 97)) := by
      rw [Nat.add_sub_cancel' hLow, Char.ofNat_toNat]
    rw [hChar]
    exact (hLetter ⟨c.toNat - 97, by omega⟩).2

theorem isWordChar_of_isBlank {c : Char} (hBlank : isBlank c = true) : isWordChar c = false := by
  have hTable : ∀ range ∈ blankRanges.ranges, ∀ k < range.2 + 1 - range.1,
      isWordChar (Char.ofNat (range.1 + k)) = false := by
    decide +kernel
  obtain ⟨range, hMem, hLow, hHigh⟩ := RangeTable.covers_iff.1 hBlank
  have hChar : c = Char.ofNat (range.1 + (c.toNat - range.1)) := by
    rw [Nat.add_sub_cancel' hLow, Char.ofNat_toNat]
  rw [hChar]
  exact hTable range hMem _ (by omega)

theorem isBlank_of_isWordStart {c : Char} (hStart : isWordStart c = true) : isBlank c = false := by
  rw [← Bool.not_eq_true]
  intro hBlank
  have hChar := isWordChar_of_isWordStart hStart
  rw [isWordChar_of_isBlank hBlank] at hChar
  cases hChar

/-- A text that continues no lexeme before it: it is at its end, at a blank, or
at one of the marks that stand for themselves. -/
def Neutral (cs : List Char) : Prop :=
  ∀ c ∈ cs.head?, isBlank c = true ∨ c = '(' ∨ c = ')' ∨ c = ','

theorem neutral_nil : Neutral [] := fun _ hMem => absurd hMem (Option.not_mem_none _)

theorem neutral_cons {c : Char} {cs : List Char}
    (hHead : isBlank c = true ∨ c = '(' ∨ c = ')' ∨ c = ',') : Neutral (c :: cs) := by
  intro d hd
  cases hd
  exact hHead

namespace Neutral

variable {cs : List Char} {c : Char}

/-- A neutral text does not start with a given character. -/
theorem ne_head (hNeutral : Neutral cs) (hMem : c ∈ cs.head?) {d : Char}
    (hOther : isBlank d = false ∧ d ≠ '(' ∧ d ≠ ')' ∧ d ≠ ',') : c ≠ d := by
  rintro rfl
  obtain ⟨hBlank, hLeft, hRight, hComma⟩ := hOther
  rcases hNeutral c hMem with h | h | h | h
  · rw [hBlank] at h
    cases h
  · exact hLeft h
  · exact hRight h
  · exact hComma h

theorem isWordChar_head (hNeutral : Neutral cs) (hMem : c ∈ cs.head?) : isWordChar c = false := by
  rcases hNeutral c hMem with h | rfl | rfl | rfl
  · exact isWordChar_of_isBlank h
  · decide
  · decide
  · decide

theorem isDigit_head (hNeutral : Neutral cs) (hMem : c ∈ cs.head?) : c.isDigit = false := by
  rw [← Bool.not_eq_true]
  intro hDigit
  obtain ⟨k, rfl⟩ := exists_digit hDigit
  have hTable : ∀ k : Fin 10, isBlank (Char.ofNat (48 + k)) = false ∧
      Char.ofNat (48 + k) ≠ '(' ∧ Char.ofNat (48 + k) ≠ ')' ∧ Char.ofNat (48 + k) ≠ ',' := by
    decide
  exact hNeutral.ne_head hMem (hTable k) rfl

end Neutral

end Text

/-! ## Phrases -/

namespace Pattern

/-- A word of letters in upper case. -/
def IsPhraseWord (word : String) : Prop := word.toList ≠ [] ∧ ∀ c ∈ word.toList, c.isUpper = true

instance (word : String) : Decidable (IsPhraseWord word) :=
  decidable_of_iff (word.toList ≠ [] ∧ word.toList.all Char.isUpper = true)
    (and_congr_right' List.all_eq_true)

variable {word : String} {cs a : List Char} {length : Nat}

theorem wordLength?_eq_some_iff {word : List Char} :
    wordLength? word cs = some length ↔
      ∃ a rest, cs = a ++ rest ∧ Text.sameWord word a = true ∧ length = a.length := by
  have hLength : ∀ {a : List Char}, Text.sameWord word a = true → a.length = word.length := by
    intro a hSame
    have := congrArg List.length (beq_iff_eq.1 hSame)
    simpa using this.symm
  unfold wordLength?
  dsimp only
  constructor
  · intro hFound
    split at hFound
    · next hSame =>
      cases hFound
      refine ⟨cs.take word.length, cs.drop word.length, (List.take_append_drop _ _).symm, hSame, ?_⟩
      rw [hLength hSame]
    · cases hFound
  · rintro ⟨a, rest, rfl, hSame, rfl⟩
    rw [← hLength hSame, List.take_left, if_pos hSame]

/-- A text that is spelled like a phrase's word is a word. -/
theorem IsPhraseWord.of_sameWord (hWord : IsPhraseWord word)
    (hSame : Text.sameWord word.toList a = true) :
    a ≠ [] ∧ ∀ c ∈ a, Text.isWordStart c = true := by
  have hMap : word.toList.map Char.toUpper = a.map Char.toUpper := beq_iff_eq.1 hSame
  refine ⟨?_, fun c hMem => ?_⟩
  · rintro rfl
    exact hWord.1 (List.map_eq_nil_iff.1 hMap)
  · have hUpper : c.toUpper ∈ word.toList.map Char.toUpper := hMap ▸ List.mem_map_of_mem hMem
    obtain ⟨d, hd, hEq⟩ := List.mem_map.1 hUpper
    have hSelf : d.toUpper = d := by
      have hBig : 'A'.val ≤ d.val ∧ d.val ≤ 'Z'.val := of_decide_eq_true (hWord.2 d hd)
      refine dif_neg ?_
      rintro ⟨hLow, -⟩
      exact absurd (UInt32.le_trans hLow hBig.2) (by decide)
    apply Text.isWordStart_of_isUpper
    rw [← hEq, hSelf]
    exact hWord.2 d hd

theorem IsPhraseWord.head_of_sameWord (hWord : IsPhraseWord word)
    (hSame : Text.sameWord word.toList a = true) :
    ∃ c rest, a = c :: rest ∧ Text.isWordStart c = true ∧ Text.isBlank c = false := by
  obtain ⟨hNe, hStart⟩ := hWord.of_sameWord hSame
  obtain ⟨c, rest, rfl⟩ := List.exists_cons_of_ne_nil hNe
  have hHead := hStart c List.mem_cons_self
  exact ⟨c, rest, rfl, hHead, Text.isBlank_of_isWordStart hHead⟩

/-- A text is its leading blanks and the rest. -/
theorem exists_blanks (cs : List Char) :
    ∃ gap rest, cs = gap ++ rest ∧ (∀ c ∈ gap, Text.isBlank c = true) ∧
      (∀ c ∈ rest.head?, Text.isBlank c = false) ∧ cs.takeWhile Text.isBlank = gap := by
  refine ⟨cs.takeWhile Text.isBlank, cs.dropWhile Text.isBlank,
    List.takeWhile_append_dropWhile.symm, List.all_eq_true.1 List.all_takeWhile, ?_, rfl⟩
  intro c hMem
  have hNot := List.head?_dropWhile_not Text.isBlank cs
  rw [Option.mem_def.1 hMem] at hNot
  simpa using hNot

theorem furtherWordsLength?_nil (hFound : furtherWordsLength? [] cs = some length) :
    length = 0 := by
  rw [furtherWordsLength?] at hFound
  split at hFound <;> cases hFound
  rfl

/-- The further words of a phrase stand behind all the blanks that there are. -/
theorem furtherWordsLength?_cons {words : List String} :
    furtherWordsLength? (word :: words) cs = some length ↔
      ∃ gap b rest further, cs = gap ++ (b ++ rest) ∧ gap ≠ [] ∧
        (∀ c ∈ gap, Text.isBlank c = true) ∧ (∀ c ∈ (b ++ rest).head?, Text.isBlank c = false) ∧
        Text.sameWord word.toList b = true ∧ furtherWordsLength? words rest = some further ∧
        length = gap.length + b.length + further := by
  constructor
  · intro hFound
    rw [furtherWordsLength?] at hFound
    obtain ⟨gap, rest, rfl, hBlank, hHead, hTake⟩ := exists_blanks cs
    rw [hTake] at hFound
    split at hFound
    · cases hFound
    · next hGap =>
      rw [List.drop_left] at hFound
      obtain ⟨first, hFirst, hRest⟩ := Option.bind_eq_some_iff.1 hFound
      obtain ⟨further, hFurther, hSum⟩ := Option.bind_eq_some_iff.1 hRest
      obtain ⟨b, rest, rfl, hSame, rfl⟩ := wordLength?_eq_some_iff.1 hFirst
      cases hSum
      rw [← List.drop_drop, List.drop_left, List.drop_left] at hFurther
      exact ⟨gap, b, rest, further, rfl, fun h => hGap (by rw [h]; rfl), hBlank, hHead, hSame,
        hFurther, rfl⟩
  · rintro ⟨gap, b, rest, further, rfl, hGap, hBlank, hHead, hSame, hFurther, rfl⟩
    have hTake : (gap ++ (b ++ rest)).takeWhile Text.isBlank = gap :=
      Token.takeWhile_append_of_forall hBlank hHead
    have hLength : wordLength? word.toList (b ++ rest) = some b.length :=
      wordLength?_eq_some_iff.2 ⟨b, rest, rfl, hSame, rfl⟩
    rw [furtherWordsLength?, hTake, if_neg (fun h => hGap (List.length_eq_zero_iff.1 h)),
      List.drop_left, hLength]
    show Option.bind (furtherWordsLength? words
      ((gap ++ (b ++ rest)).drop (gap.length + b.length))) _ = _
    rw [← List.drop_drop, List.drop_left, List.drop_left, hFurther]
    rfl

/-- The further words of a phrase stand behind blanks. -/
theorem exists_of_furtherWordsLength?_cons {words : List String}
    (hFound : furtherWordsLength? (word :: words) cs = some length) :
    ∃ gap b rest further, cs = gap ++ (b ++ rest) ∧ gap ≠ [] ∧
      (∀ c ∈ gap, Text.isBlank c = true) ∧ Text.sameWord word.toList b = true ∧
      furtherWordsLength? words rest = some further ∧
      length = gap.length + b.length + further := by
  obtain ⟨gap, b, rest, further, hText, hGap, hBlank, -, hFurther⟩ :=
    furtherWordsLength?_cons.1 hFound
  exact ⟨gap, b, rest, further, hText, hGap, hBlank, hFurther⟩

theorem furtherWordsLength?_le {words : List String}
    (hFound : furtherWordsLength? words cs = some length) : length ≤ cs.length := by
  induction words generalizing cs length with
  | nil =>
    rw [furtherWordsLength?_nil hFound]
    exact Nat.zero_le _
  | cons word words ih =>
    obtain ⟨gap, b, rest, further, rfl, -, -, -, hFurther, rfl⟩ :=
      exists_of_furtherWordsLength?_cons hFound
    have := ih hFurther
    simp only [List.length_append]
    omega

theorem furtherWordsLength?_cons_iff {words : List String} (hWord : IsPhraseWord word) :
    furtherWordsLength? (word :: words) cs = some length ↔
      ∃ gap b rest further, cs = gap ++ (b ++ rest) ∧ gap ≠ [] ∧
        (∀ c ∈ gap, Text.isBlank c = true) ∧ Text.sameWord word.toList b = true ∧
        furtherWordsLength? words rest = some further ∧
        length = gap.length + b.length + further := by
  constructor
  · exact exists_of_furtherWordsLength?_cons
  · rintro ⟨gap, b, rest, further, hText, hGap, hBlank, hSame, hFurther⟩
    obtain ⟨c, b', rfl, -, hHead⟩ := hWord.head_of_sameWord hSame
    exact furtherWordsLength?_cons.2
      ⟨gap, c :: b', rest, further, hText, hGap, hBlank, by simpa using hHead, hSame, hFurther⟩

/-- A phrase at the start of a text: its first word, and the others. -/
theorem wordsLength?_cons_iff {words : List String} :
    wordsLength? (word :: words) cs = some length ↔
      ∃ a rest further, cs = a ++ rest ∧ Text.sameWord word.toList a = true ∧
        furtherWordsLength? words rest = some further ∧ length = a.length + further := by
  rw [wordsLength?]
  constructor
  · intro hFound
    obtain ⟨first, hFirst, hRest⟩ := Option.bind_eq_some_iff.1 hFound
    obtain ⟨further, hFurther, hSum⟩ := Option.bind_eq_some_iff.1 hRest
    obtain ⟨a, rest, rfl, hSame, rfl⟩ := wordLength?_eq_some_iff.1 hFirst
    cases hSum
    rw [List.drop_left] at hFurther
    exact ⟨a, rest, further, rfl, hSame, hFurther, rfl⟩
  · rintro ⟨a, rest, further, rfl, hSame, hFurther, rfl⟩
    have hLength : wordLength? word.toList (a ++ rest) = some a.length :=
      wordLength?_eq_some_iff.2 ⟨a, rest, rfl, hSame, rfl⟩
    rw [hLength]
    show Option.bind (furtherWordsLength? words ((a ++ rest).drop a.length)) _ = _
    rw [List.drop_left, hFurther]
    rfl

/-- After a word of a phrase comes no character that continues it. -/
theorem continuesWord_of_furtherWordsLength? {words : List String}
    (hLength : furtherWordsLength? words cs = some length) : continuesWord cs = false := by
  cases words with
  | nil =>
    rw [furtherWordsLength?] at hLength
    split at hLength
    · cases hLength
    · next hStop => simpa using hStop
  | cons word words =>
    obtain ⟨gap, b, rest, further, rfl, hGap, hBlank, -⟩ :=
      exists_of_furtherWordsLength?_cons hLength
    obtain ⟨c, gap, rfl⟩ := List.exists_cons_of_ne_nil hGap
    exact Text.isWordChar_of_isBlank (hBlank c List.mem_cons_self)

theorem continuesWord_eq_false_iff :
    continuesWord cs = false ↔ ∀ c ∈ cs.head?, Text.isWordChar c = false := by
  cases cs <;> simp [continuesWord]

/-- A phrase takes the word that a text starts with. -/
theorem takeWhile_isWordChar_of_wordsLength? {words : List String} {rest : List Char}
    (hWord : IsPhraseWord word) (hSame : Text.sameWord word.toList a = true)
    (hLength : furtherWordsLength? words rest = some length) :
    (a ++ rest).takeWhile Text.isWordChar = a :=
  Token.takeWhile_append_of_forall
    (fun c hMem => Text.isWordChar_of_isWordStart ((hWord.of_sameWord hSame).2 c hMem))
    (continuesWord_eq_false_iff.1 (continuesWord_of_furtherWordsLength? hLength))

end Pattern

/-! ## First characters -/

/-- A rule that matches no text starting with a given character. -/
def TokenRule.Shuns (rule : TokenRule) (c : Char) : Prop := ∀ cs, rule.match? (c :: cs) = none

namespace RuleSet

/-- A rule of a phrase: two or more words, and the keyword they stand for. -/
structure IsPhrase (rule : TokenRule) (first : String) (further : List String)
    (keyword : Keyword) : Prop where
  pattern : rule.pattern = .words (first :: further)
  reading : rule.reading = .fixed (.keyword keyword)
  first_word : Pattern.IsPhraseWord first
  further_words : ∀ word ∈ further, Pattern.IsPhraseWord word
  further_ne_nil : further ≠ []
  /-- No phrase starts with a further word of another. -/
  further_inside : ∀ word ∈ further, ∀ other ∈ phrases, other.pattern.opensWith word.toList = false

theorem exists_isPhrase {rule : TokenRule} (hMem : rule ∈ phrases) :
    ∃ first further keyword, IsPhrase rule first further keyword := by
  simp only [phrases, List.mem_cons, List.not_mem_nil, or_false] at hMem
  rcases hMem with rfl | rfl | rfl | rfl | rfl | rfl | rfl | rfl | rfl | rfl | rfl | rfl <;>
    exact ⟨_, _, _, rfl, rfl, by decide, by decide, by simp, by decide⟩

/-- What a rule for words takes from the start of a text. -/
theorem match?_words_iff {rule : TokenRule} {first : String} {further : List String}
    {kind : TokenKind} (hPattern : rule.pattern = .words (first :: further))
    (hReading : rule.reading = .fixed kind) {cs lexeme : List Char} {kind? : Option TokenKind} :
    rule.match? cs = some (lexeme, kind?) ↔
      ∃ a rest length, cs = a ++ rest ∧ Text.sameWord first.toList a = true ∧
        Pattern.furtherWordsLength? further rest = some length ∧
        lexeme = cs.take (a.length + length) ∧ kind? = some kind := by
  rw [TokenRule.match?_eq_some_iff, hPattern, hReading]
  constructor
  · rintro ⟨total, hLength, rfl, rfl⟩
    obtain ⟨a, rest, length, rfl, hSame, hFurther, rfl⟩ := Pattern.wordsLength?_cons_iff.1 hLength
    exact ⟨a, rest, length, rfl, hSame, hFurther, rfl, rfl⟩
  · rintro ⟨a, rest, length, rfl, hSame, hFurther, rfl, rfl⟩
    exact ⟨a.length + length,
      Pattern.wordsLength?_cons_iff.2 ⟨a, rest, length, rfl, hSame, hFurther, rfl⟩, rfl, rfl⟩

/-- What a phrase takes from the start of a text. -/
theorem IsPhrase.match?_eq_some_iff {rule : TokenRule} {first : String} {further : List String}
    {keyword : Keyword} (hRule : IsPhrase rule first further keyword) {cs lexeme : List Char}
    {kind? : Option TokenKind} :
    rule.match? cs = some (lexeme, kind?) ↔
      ∃ a rest length, cs = a ++ rest ∧ Text.sameWord first.toList a = true ∧
        Pattern.furtherWordsLength? further rest = some length ∧
        lexeme = cs.take (a.length + length) ∧ kind? = some (.keyword keyword) :=
  match?_words_iff hRule.pattern hRule.reading

theorem shuns_phrase {rule : TokenRule} (hMem : rule ∈ phrases) {c : Char}
    (hStart : Text.isWordStart c = false) : rule.Shuns c := by
  intro cs
  obtain ⟨first, further, keyword, hRule⟩ := exists_isPhrase hMem
  rw [Option.eq_none_iff_forall_ne_some]
  rintro ⟨lexeme, kind?⟩ hMatch
  obtain ⟨a, rest, length, hText, hSame, -⟩ := hRule.match?_eq_some_iff.1 hMatch
  obtain ⟨d, a, rfl, hWord, -⟩ := hRule.first_word.head_of_sameWord hSame
  rw [List.cons_append] at hText
  rw [(List.cons.inj hText).1, hWord] at hStart
  cases hStart

theorem shuns_scanned {name : String} {priority : Nat} {length? : List Char → Option Nat}
    {read : List Char → Option TokenKind} {c : Char} (hLength : ∀ cs, length? (c :: cs) = none) :
    (TokenRule.scanned name priority length? read).Shuns c := by
  intro cs
  rw [TokenRule.match?, TokenRule.scanned, Pattern.length?, hLength]
  rfl

theorem shuns_number {c : Char} (hDigit : c.isDigit = false) : number.Shuns c :=
  shuns_scanned fun cs => by simp [Token.numberLength?, Token.digitCount, hDigit]

theorem shuns_quoted {name : String} {priority : Nat} {quote c : Char} (hQuote : c ≠ quote) :
    (TokenRule.scanned name priority (Token.quotedLength? quote) Token.readText).Shuns c :=
  shuns_scanned fun cs => by simp [Token.quotedLength?, hQuote]

theorem shuns_name {c : Char} (hStart : Text.isWordStart c = false) (hQuote : c ≠ Token.backtick) :
    nameRule.Shuns c :=
  shuns_scanned fun cs => by simp [Token.nameLength?, Token.partLength?, hStart, hQuote]

theorem shuns_variable {dialect : Dialect} {rule : TokenRule} (hMem : rule ∈ dialect.variableRules)
    {c : Char} (hSign : c ≠ '@') : rule.Shuns c := by
  cases dialect with
  | generic => exact absurd hMem List.not_mem_nil
  | mysql =>
    simp only [Dialect.variableRules, List.mem_cons, List.not_mem_nil, or_false] at hMem
    rcases hMem with rfl | rfl
    · refine shuns_scanned fun cs => ?_
      unfold Token.systemVariableLength?
      split
      · next h => exact absurd (List.cons.inj h).1 hSign
      · rfl
    · refine shuns_scanned fun cs => ?_
      unfold Token.userVariableLength?
      split
      · next h => exact absurd (List.cons.inj h).1 hSign
      · rfl

/-- The characters that marks start with. -/
def markHeads : List Char :=
  ['<', '>', '!', '|', '+', '-', '*', '/', '%', '=', '(', ')', ',', ';', '?']

theorem shuns_symbol {name : String} {priority : Nat} {text : String} {kind : TokenKind} {c : Char}
    (hHead : ∀ d ∈ text.toList.head?, d ≠ c) (hText : text.toList ≠ []) :
    (TokenRule.symbol name priority text kind).Shuns c := by
  intro cs
  obtain ⟨d, rest, hCons⟩ := List.exists_cons_of_ne_nil hText
  rw [hCons] at hHead
  rw [TokenRule.match?, TokenRule.symbol, Pattern.length?, hCons, List.isPrefixOf,
    beq_false_of_ne (hHead d rfl)]
  rfl

theorem shuns_mark {rule : TokenRule} (hMem : rule ∈ marks) {c : Char} (hHead : c ∉ markHeads) :
    rule.Shuns c := by
  have hNe : ∀ d ∈ markHeads, d ≠ c := fun d hd h => hHead (h ▸ hd)
  simp only [marks, List.mem_cons, List.not_mem_nil, or_false] at hMem
  rcases hMem with rfl | rfl | rfl | rfl | rfl | rfl | rfl | rfl | rfl | rfl | rfl | rfl | rfl |
    rfl | rfl | rfl | rfl | rfl <;>
    exact shuns_symbol (fun d hd => hNe d (by cases hd; decide)) (by decide)

theorem findSome?_of_shuns (rules : List TokenRule) {c : Char} {cs : List Char}
    (hShuns : ∀ rule ∈ rules, rule.Shuns c) :
    rules.findSome? (fun rule => rule.match? (c :: cs)) = none :=
  List.findSome?_eq_none_iff.2 fun rule hMem => hShuns rule hMem cs

end RuleSet

namespace Dialect

variable {dialect : Dialect} {c : Char} {cs : List Char}

open RuleSet

/-- The groups of rules in their order. -/
theorem first?_eq (cs : List Char) :
    dialect.grammar.tokens.first? cs =
      (phrases.findSome? (·.match? cs)).or ((dialect.variableRules.findSome? (·.match? cs)).or
        (lower.findSome? (·.match? cs))) := by
  rw [first?, dialect.rules_tokens, List.findSome?_append, List.findSome?_append]

/-- Where neither a phrase nor a variable starts, only the lower rules count. -/
theorem first?_eq_lower (hStart : Text.isWordStart c = false) (hSign : c ≠ '@') :
    dialect.grammar.tokens.first? (c :: cs) = lower.findSome? (·.match? (c :: cs)) := by
  rw [first?_eq, findSome?_of_shuns phrases fun rule hMem => shuns_phrase hMem hStart,
    findSome?_of_shuns dialect.variableRules fun rule hMem => shuns_variable hMem hSign,
    Option.none_or, Option.none_or]

theorem notMem_markHeads_of_isWordStart (hStart : Text.isWordStart c = true) : c ∉ markHeads := by
  have hMarks : markHeads.all (fun d => !Text.isWordStart d) = true := by decide
  intro hMem
  have hNot := List.all_eq_true.1 hMarks c hMem
  rw [hStart] at hNot
  cases hNot

/-- Neither a variable nor a literal nor a mark starts like a word. -/
theorem other_of_isWordStart (hStart : Text.isWordStart c = true) :
    c ≠ '@' ∧ c.isDigit = false ∧ c ≠ '\x27' ∧ c ≠ '\x22' ∧ c ∉ markHeads := by
  refine ⟨?_, ?_, ?_, ?_, notMem_markHeads_of_isWordStart hStart⟩
  · rintro rfl
    exact absurd hStart (by decide)
  · rw [← Bool.not_eq_true]
    intro hDigit
    rw [Text.isWordStart_of_isDigit hDigit] at hStart
    cases hStart
  · rintro rfl
    exact absurd hStart (by decide)
  · rintro rfl
    exact absurd hStart (by decide)

/-- Where a word or a backtick starts, a phrase or a name is found. -/
theorem first?_of_wordStart (hStart : Text.isWordStart c = true ∨ c = Token.backtick) :
    dialect.grammar.tokens.first? (c :: cs) =
      (phrases.findSome? (·.match? (c :: cs))).or (nameRule.match? (c :: cs)) := by
  have hOther : c ≠ '@' ∧ c.isDigit = false ∧ c ≠ '\x27' ∧ c ≠ '\x22' ∧ c ∉ markHeads := by
    rcases hStart with hStart | rfl
    · exact other_of_isWordStart hStart
    · decide
  obtain ⟨hSign, hDigit, hSingle, hDouble, hMark⟩ := hOther
  rw [first?_eq, findSome?_of_shuns dialect.variableRules
    fun rule hMem => shuns_variable hMem hSign, lower]
  simp only [List.findSome?_cons, shuns_number hDigit cs, Option.none_or]
  rw [singleText, doubleText, shuns_quoted hSingle cs, shuns_quoted hDouble cs,
    findSome?_of_shuns marks fun rule hMem => shuns_mark hMem hMark]
  cases nameRule.match? (c :: cs) <;> rfl

/-- Where a digit starts, a number is found. -/
theorem first?_of_isDigit (hDigit : c.isDigit = true) :
    dialect.grammar.tokens.first? (c :: cs) = number.match? (c :: cs) := by
  have hOther : ∀ k : Fin 10, Char.ofNat (48 + k) ≠ '@' ∧ Char.ofNat (48 + k) ≠ '\x27' ∧
      Char.ofNat (48 + k) ≠ '\x22' ∧ Char.ofNat (48 + k) ≠ Token.backtick ∧
      Char.ofNat (48 + k) ∉ markHeads := by
    decide
  have hStart := Text.isWordStart_of_isDigit hDigit
  obtain ⟨k, rfl⟩ := Text.exists_digit hDigit
  obtain ⟨hSign, hSingle, hDouble, hQuote, hMark⟩ := hOther k
  rw [first?_eq_lower hStart hSign, lower]
  simp only [List.findSome?_cons]
  rw [singleText, doubleText, shuns_quoted hSingle cs, shuns_quoted hDouble cs,
    shuns_name hStart hQuote cs, findSome?_of_shuns marks fun rule hMem => shuns_mark hMem hMark]
  cases number.match? _ <;> rfl

/-- Where a quote character starts, a text is found. -/
theorem first?_of_quote :
    dialect.grammar.tokens.first? ('\x27' :: cs) = singleText.match? ('\x27' :: cs) ∧
      dialect.grammar.tokens.first? ('\x22' :: cs) = doubleText.match? ('\x22' :: cs) := by
  have hMarks : ∀ c : Char, c ∉ markHeads → marks.findSome? (·.match? (c :: cs)) = none :=
    fun c hMark => findSome?_of_shuns marks fun rule hMem => shuns_mark hMem hMark
  constructor
  · rw [first?_eq_lower (by decide) (by decide), lower]
    simp only [List.findSome?_cons]
    rw [shuns_number (by decide) cs, doubleText, shuns_quoted (by decide) cs,
      shuns_name (by decide) (by decide) cs, hMarks _ (by decide)]
    cases singleText.match? _ <;> rfl
  · rw [first?_eq_lower (by decide) (by decide), lower]
    simp only [List.findSome?_cons]
    rw [shuns_number (by decide) cs, singleText, shuns_quoted (by decide) cs,
      shuns_name (by decide) (by decide) cs, hMarks _ (by decide)]
    cases doubleText.match? _ <;> rfl

/-- Where an at sign starts, a variable is found, if the dialect has them. -/
theorem first?_of_at :
    dialect.grammar.tokens.first? ('@' :: cs) =
      dialect.variableRules.findSome? (·.match? ('@' :: cs)) := by
  rw [first?_eq, findSome?_of_shuns phrases
    fun rule hMem => shuns_phrase hMem (by decide), lower]
  simp only [List.findSome?_cons, Option.none_or]
  rw [shuns_number (by decide) cs, singleText, doubleText, shuns_quoted (by decide) cs,
    shuns_quoted (by decide) cs, shuns_name (by decide) (by decide) cs,
    findSome?_of_shuns marks fun rule hMem => shuns_mark hMem (by decide)]
  cases dialect.variableRules.findSome? _ <;> rfl

/-- Where none of these starts, a mark is found. -/
theorem first?_of_markHead (hMark : c ∈ markHeads) :
    dialect.grammar.tokens.first? (c :: cs) = marks.findSome? (·.match? (c :: cs)) := by
  have hAll : markHeads.all (fun d => !Text.isWordStart d && (d != '@' && (!d.isDigit &&
      (d != '\x27' && (d != '\x22' && d != Token.backtick))))) = true := by
    decide
  have hOther := List.all_eq_true.1 hAll c hMark
  simp only [Bool.and_eq_true, Bool.not_eq_true', bne_iff_ne] at hOther
  obtain ⟨hStart, hSign, hDigit, hSingle, hDouble, hQuote⟩ := hOther
  rw [first?_eq_lower hStart hSign, lower]
  simp only [List.findSome?_cons]
  rw [shuns_number hDigit cs, singleText, doubleText, shuns_quoted hSingle cs,
    shuns_quoted hDouble cs, shuns_name hStart hQuote cs]

end Dialect

/-! ## Words at the start of lexemes -/

namespace Dialect

variable {dialect : Dialect} {c : Char} {cs lexeme rest : List Char} {kind? : Option TokenKind}

open RuleSet

/-- What is found where a word or a backtick starts: a phrase, or else a name. -/
theorem first?_wordStart_cases (hStart : Text.isWordStart c = true ∨ c = Token.backtick)
    (hMatch : dialect.grammar.tokens.first? (c :: cs) = some (lexeme, kind?)) :
    (∃ rule ∈ phrases, rule.match? (c :: cs) = some (lexeme, kind?)) ∨
      (∀ rule ∈ phrases, rule.match? (c :: cs) = none) ∧
        nameRule.match? (c :: cs) = some (lexeme, kind?) := by
  rw [first?_of_wordStart hStart] at hMatch
  cases hPhrase : phrases.findSome? (·.match? (c :: cs)) with
  | some found =>
    rw [hPhrase] at hMatch
    cases hMatch
    obtain ⟨rule, hMem, hRule⟩ := List.exists_of_findSome?_eq_some hPhrase
    exact Or.inl ⟨rule, hMem, hRule⟩
  | none =>
    rw [hPhrase] at hMatch
    exact Or.inr ⟨List.findSome?_eq_none_iff.1 hPhrase, hMatch⟩

/-- A name that starts with a word takes the whole word. -/
theorem takeWhile_isWordChar_prefix_of_name (hStart : Text.isWordStart c = true)
    (hName : nameRule.match? (c :: cs) = some (lexeme, kind?)) :
    (c :: cs).takeWhile Text.isWordChar <+: lexeme := by
  obtain ⟨length, hLength, rfl, -⟩ := TokenRule.match?_eq_some_iff.1 hName
  obtain ⟨hFound, -⟩ := Option.filter_eq_some_iff.1 hLength
  obtain ⟨first, hFirst, rfl⟩ := Option.map_eq_some_iff.1 hFound
  rw [Token.partLength?, Token.backtick_ne_wordStart hStart, if_neg Bool.false_ne_true,
    if_pos hStart] at hFirst
  cases hFirst
  rw [List.takeWhile_cons, if_pos (Text.isWordChar_of_isWordStart hStart)]
  have hWord : cs.takeWhile Text.isWordChar = cs.take (cs.takeWhile Text.isWordChar).length :=
    List.prefix_iff_eq_take.1 (List.takeWhile_prefix _)
  rw [Nat.add_right_comm, List.take_succ_cons, List.prefix_cons_inj]
  generalize Token.furtherPartsLength _ _ = more
  have hMore := List.take_prefix_take_left (l := cs)
    (Nat.le_add_right (cs.takeWhile Text.isWordChar).length more)
  rwa [← hWord] at hMore

/-- A lexeme that starts with a word takes the whole word. -/
theorem takeWhile_isWordChar_prefix (hStart : Text.isWordStart c = true)
    (hMatch : dialect.grammar.tokens.first? (c :: cs) = some (lexeme, kind?)) :
    (c :: cs).takeWhile Text.isWordChar <+: lexeme := by
  rcases first?_wordStart_cases (Or.inl hStart) hMatch with ⟨rule, hMem, hRule⟩ | ⟨-, hName⟩
  · obtain ⟨first, further, keyword, hPhrase⟩ := exists_isPhrase hMem
    obtain ⟨a, rest, length, hText, hSame, hFurther, rfl, -⟩ := hPhrase.match?_eq_some_iff.1 hRule
    rw [hText, Pattern.takeWhile_isWordChar_of_wordsLength? hPhrase.first_word hSame
      hFurther, List.take_length_add_append]
    exact List.prefix_append _ _
  · exact takeWhile_isWordChar_prefix_of_name hStart hName

/-- No word character follows a lexeme that is a word. -/
theorem continuesWord_of_first? (hWord : ∀ d ∈ c :: cs, Text.isWordChar d = true)
    (hStart : Text.isWordStart c = true)
    (hMatch : dialect.grammar.tokens.first? (c :: cs ++ rest) = some (c :: cs, kind?)) :
    Pattern.continuesWord rest = false := by
  have hPrefix : (c :: cs ++ rest).takeWhile Text.isWordChar <+: c :: cs :=
    takeWhile_isWordChar_prefix hStart hMatch
  rw [Pattern.continuesWord_eq_false_iff]
  intro d hd
  rw [← Bool.not_eq_true]
  intro hChar
  obtain ⟨rest, rfl⟩ : ∃ more, rest = d :: more := by
    cases rest with
    | nil => cases hd
    | cons e more => cases hd; exact ⟨more, rfl⟩
  rw [List.takeWhile_append_of_pos hWord, List.takeWhile_cons, if_pos hChar] at hPrefix
  have hLength := hPrefix.length_le
  simp only [List.length_append, List.length_cons] at hLength
  omega

end Dialect

end SqlQuery
