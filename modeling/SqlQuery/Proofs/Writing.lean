import SqlQuery.Proofs.NumberText
import SqlQuery.Proofs.Phrases

/-!
# Lexemes that are written read back

For each sort of glyph, the text that stands for it is read as that glyph, in
front of any text that has a reading and continues no lexeme.  A bare name
must not open a phrase with the glyphs behind it; everything else is read
without regard to what follows.

## Main results

* `RuleSet.Reads.name`, `RuleSet.Reads.keyword`, `RuleSet.Reads.mark`, … — the
  reading of a text with one more lexeme in front.
-/

namespace SqlQuery

namespace Text

theorem gapLength_cons_eq_zero {c : Char} {cs : List Char} (hBlank : isBlank c = false)
    (hMinus : c ≠ '-') (hSlash : c ≠ '/') : gapLength (c :: cs) = 0 := by
  rw [gapLength.eq_def]
  split
  · rfl
  · next h => exact absurd (List.cons.inj h).1 hMinus
  · next h => exact absurd (List.cons.inj h).1 hSlash
  · next h =>
    obtain ⟨rfl, rfl⟩ := List.cons.inj h
    rw [hBlank, if_neg Bool.false_ne_true]

theorem gapLength_of_isWordStart {c : Char} {cs : List Char} (hStart : isWordStart c = true) :
    gapLength (c :: cs) = 0 := by
  refine gapLength_cons_eq_zero (isBlank_of_isWordStart hStart) ?_ ?_
  · rintro rfl
    exact absurd hStart (by decide)
  · rintro rfl
    exact absurd hStart (by decide)

end Text

/-- A lexeme that the rules find at the front of a text, where there is nothing
to skip. -/
structure RuleSet.Finds (rules : RuleSet) (lexeme tail : List Char) (kind : TokenKind) : Prop where
  ne_nil : lexeme ≠ []
  gap : Text.gapLength (lexeme ++ tail) = 0
  first : rules.first? (lexeme ++ tail) = some (lexeme, some kind)

instance {rules : RuleSet} {lexeme tail : List Char} {kind : TokenKind} :
    Decidable (rules.Finds lexeme tail kind) :=
  decidable_of_iff (lexeme ≠ [] ∧ Text.gapLength (lexeme ++ tail) = 0 ∧
      rules.first? (lexeme ++ tail) = some (lexeme, some kind))
    ⟨fun ⟨hNe, hGap, hFirst⟩ => ⟨hNe, hGap, hFirst⟩, fun h => ⟨h.ne_nil, h.gap, h.first⟩⟩

namespace RuleSet.Reads

variable {dialect : Dialect} {tail : List Char} {gs : List Glyph}

/-- A lexeme that is found in front of a text. -/
theorem found {lexeme : List Char} {kind : TokenKind}
    (hReads : dialect.grammar.tokens.Reads true tail gs)
    (hFinds : dialect.grammar.tokens.Finds lexeme tail kind) :
    dialect.grammar.tokens.Reads true (lexeme ++ tail) (⟨kind, String.ofList lexeme⟩ :: gs) := by
  show dialect.grammar.tokens.Reads true ([] ++ (lexeme ++ tail)) _
  exact .token hFinds.gap (fun _ _ hMem => absurd hMem List.not_mem_nil) hFinds.ne_nil hFinds.first
    hReads

/-- A text that is found in front of another. -/
theorem foundText {text : String} {kind : TokenKind}
    (hReads : dialect.grammar.tokens.Reads true tail gs)
    (hFinds : dialect.grammar.tokens.Finds text.toList tail kind) :
    dialect.grammar.tokens.Reads true (text.toList ++ tail) (⟨kind, text⟩ :: gs) := by
  have hText := hReads.found hFinds
  rwa [String.ofList_toList] at hText

/-- A lexeme in front of a text. -/
theorem lexeme {c : Char} {cs : List Char} {kind : TokenKind}
    (hReads : dialect.grammar.tokens.Reads true tail gs)
    (hGap : Text.gapLength (c :: cs ++ tail) = 0)
    (hMatch : dialect.grammar.tokens.first? (c :: cs ++ tail) = some (c :: cs, some kind)) :
    dialect.grammar.tokens.Reads true (c :: cs ++ tail)
      (⟨kind, String.ofList (c :: cs)⟩ :: gs) :=
  hReads.found ⟨List.cons_ne_nil c cs, hGap, hMatch⟩

/-- A space in front of a text. -/
theorem space (hReads : dialect.grammar.tokens.Reads true tail gs) :
    dialect.grammar.tokens.Reads true (' ' :: tail) gs := by
  have hBlank : Text.isBlank ' ' = true := by decide
  have hSpace : ∀ cs : List Char, Text.gapLength (' ' :: cs) = 1 + Text.gapLength cs :=
    fun cs => @Text.gapLength_append [' '] cs (List.forall_mem_singleton.2 hBlank)
  cases hReads with
  | done hGap hPlain =>
    refine .done ?_ fun h => List.forall_mem_cons.2 ⟨hBlank, hPlain h⟩
    rw [hSpace, hGap, List.length_cons]
    omega
  | @token gap lexeme rest kind gs hGap hPlain hLexeme hMatch hRest =>
    show dialect.grammar.tokens.Reads true (' ' :: gap ++ (lexeme ++ rest)) _
    refine .token ?_ (fun h => List.forall_mem_cons.2 ⟨hBlank, hPlain h⟩) hLexeme hMatch hRest
    rw [List.cons_append, hSpace, hGap, List.length_cons]
    omega

/-! ## Names -/

/-- The scanner's match of a name. -/
theorem nameRule_match? {text : List Char} {parts : List Token.NamePart} {kind : TokenKind}
    (hText : Token.NameText text parts) (hRead : Token.readName text = some kind)
    (hNeutral : Text.Neutral tail) : nameRule.match? (text ++ tail) = some (text, some kind) := by
  have hLength : Token.nameLength? (text ++ tail) = some text.length :=
    Token.nameLength?_append hText fun c hc =>
      ⟨hNeutral.isWordChar_head hc, hNeutral.ne_head hc (by decide)⟩
  have hPos := List.length_pos_iff.2 hText.text_ne_nil
  refine TokenRule.match?_eq_some_iff.2 ⟨text.length, ?_, List.take_left.symm, hRead.symm⟩
  show (Token.nameLength? (text ++ tail)).filter _ = _
  rw [hLength, Option.filter_some, if_pos (by rw [Nat.blt_eq]; exact hPos)]

/-- Where a bare name stands in front of a neutral text, a phrase that matches
opens with the whole name. -/
theorem phrase_of_bareName {text : List Char} {parts : List Token.NamePart}
    (hText : Token.NameText text parts) {c : Char} {cs : List Char} (hCons : text = c :: cs)
    (hStart : Text.isWordStart c = true) (hNeutral : Text.Neutral tail)
    {rule : TokenRule} {first : String} {further : List String} {keyword : Keyword}
    (hPhrase : IsPhrase rule first further keyword)
    {found : List Char × Option TokenKind} (hMatch : rule.match? (text ++ tail) = some found) :
    Text.sameWord first.toList text = true ∧
      ∃ length, Pattern.furtherWordsLength? further tail = some length := by
  obtain ⟨lexeme, kind?⟩ := found
  obtain ⟨a, rest, length, hAppend, hSame, hFurther, -⟩ := hPhrase.match?_eq_some_iff.1 hMatch
  obtain ⟨word, more, hWord, -, hChars, hPoint⟩ := hText.exists_word hCons hStart
  have hTake : (word ++ (more ++ tail)).takeWhile Text.isWordChar = word := by
    refine Token.takeWhile_append_of_forall hChars fun d hd => ?_
    cases more with
    | nil => exact hNeutral.isWordChar_head hd
    | cons e more =>
      cases hd
      rw [hPoint d rfl]
      decide
  have hTake' := Pattern.takeWhile_isWordChar_of_wordsLength? hPhrase.first_word hSame
    hFurther
  rw [← hAppend, hWord, List.append_assoc, hTake] at hTake'
  subst hTake'
  rw [hWord, List.append_assoc, List.append_cancel_left_eq] at hAppend
  subst hAppend
  -- A blank follows the first word of a phrase, and not the point of a name.
  obtain ⟨second, further, rfl⟩ := List.exists_cons_of_ne_nil hPhrase.further_ne_nil
  obtain ⟨gap, _, _, _, hSplit, hGap, hBlank, -⟩ :=
    (Pattern.furtherWordsLength?_cons_iff (hPhrase.further_words second List.mem_cons_self)).1
      hFurther
  obtain ⟨d, gap, rfl⟩ := List.exists_cons_of_ne_nil hGap
  have hNil : more = [] := by
    cases more with
    | nil => rfl
    | cons e more =>
      have hEq : e = d := (List.cons.inj hSplit).1
      have hHead := hBlank d List.mem_cons_self
      rw [← hEq, hPoint e rfl] at hHead
      exact absurd hHead (by decide)
  subst hNil
  rw [hWord, List.append_nil]
  exact ⟨hSame, length, hFurther⟩

/-- A name that starts like a word is read as what it says, unless a phrase takes
it as its first word. -/
theorem wordText {c : Char} {cs : List Char} {parts : List Token.NamePart} {kind : TokenKind}
    (hReads : dialect.grammar.tokens.Reads true tail gs) (hText : Token.NameText (c :: cs) parts)
    (hStart : Text.isWordStart c = true) (hRead : Token.readName (c :: cs) = some kind)
    (hNeutral : Text.Neutral tail)
    (hPhrases : ∀ rule ∈ phrases, ∀ first further keyword length,
      IsPhrase rule first further keyword → Text.sameWord first.toList (c :: cs) = true →
        Pattern.furtherWordsLength? further tail ≠ some length) :
    dialect.grammar.tokens.Reads true (c :: cs ++ tail)
      (⟨kind, String.ofList (c :: cs)⟩ :: gs) := by
  have hNone : phrases.findSome? (·.match? (c :: cs ++ tail)) = none := by
    rw [List.findSome?_eq_none_iff]
    intro rule hMem
    rw [Option.eq_none_iff_forall_ne_some]
    intro found hMatch
    obtain ⟨first, further, keyword, hPhrase⟩ := exists_isPhrase hMem
    obtain ⟨hSame, length, hFurther⟩ :=
      phrase_of_bareName hText rfl hStart hNeutral hPhrase hMatch
    exact hPhrases rule hMem first further keyword length hPhrase hSame hFurther
  refine hReads.lexeme (Text.gapLength_of_isWordStart hStart) ?_
  rw [List.cons_append, Dialect.first?_of_wordStart (Or.inl hStart), ← List.cons_append, hNone,
    nameRule_match? hText hRead hNeutral]
  rfl

/-- A bare name that opens no phrase. -/
theorem name {text : List Char} (hReads : dialect.grammar.tokens.Reads true tail gs)
    (hName : Token.BareName text) (hNeutral : Text.Neutral tail)
    (hOpens : ¬Glyph.OpensPhrase text gs) :
    dialect.grammar.tokens.Reads true (text ++ tail)
      (⟨.identifier (String.ofList text) none, String.ofList text⟩ :: gs) := by
  have hRead := hName.readName
  obtain ⟨parts, hText, hBare, -⟩ := hName
  obtain ⟨c, cs, rfl, hStart⟩ := hText.head_of_bare hBare
  refine hReads.wordText hText hStart hRead hNeutral
    fun rule hMem first further keyword length hPhrase hSame hFurther => ?_
  exact hOpens ⟨rule, hMem, first, further, keyword, hPhrase, hSame,
    completes_of_furtherWordsLength? hPhrase.further_words hPhrase.further_inside hFurther hReads⟩

/-- A name in backticks. -/
theorem finds_quotedName {value : List Char} (hValue : value ≠ [])
    (hQuote : Token.backtick ∉ value) (hNeutral : Text.Neutral tail) :
    dialect.grammar.tokens.Finds (Token.backtick :: (value ++ [Token.backtick])) tail
      (.identifier (String.ofList value) (some Token.backtick)) := by
  have hText : Token.NameText (Token.backtick :: (value ++ [Token.backtick])) [⟨value, true⟩] :=
    .single (.quoted hValue hQuote)
  have hRead : Token.readName (Token.backtick :: (value ++ [Token.backtick])) =
      some (.identifier (String.ofList value) (some Token.backtick)) := by
    rw [Token.readName_eq hText]
    simp [Token.partsKeyword?, Token.partsValue, List.intercalate]
  refine ⟨List.cons_ne_nil _ _, Text.gapLength_cons_eq_zero (by decide) (by decide) (by decide), ?_⟩
  rw [List.cons_append, Dialect.first?_of_wordStart (Or.inr rfl), ← List.cons_append,
    nameRule_match? hText hRead hNeutral, List.cons_append,
    findSome?_of_shuns phrases fun rule hMem => shuns_phrase hMem (by decide)]
  rfl

end RuleSet.Reads

/-! ## Keywords -/

namespace Keyword

/-- The words of keywords are words of letters in upper case, and those of one
word open no phrase. -/
theorem isPhraseWord_of_mem {word : Keyword} {single : String} (hMem : single ∈ word.words) :
    Pattern.IsPhraseWord single := by
  have hAll : ∀ word ∈ all, ∀ single ∈ word.words, Pattern.IsPhraseWord single := by decide
  exact hAll word (mem_all word) single hMem

theorem opensWith_single {word : Keyword} {single : String} (hSingle : word.words = [single])
    {rule : TokenRule} (hMem : rule ∈ RuleSet.phrases) :
    rule.pattern.opensWith single.toList = false := by
  have hAll : ∀ word ∈ all, word.words.length = 1 → ∀ single ∈ word.words,
      ∀ rule ∈ RuleSet.phrases, rule.pattern.opensWith single.toList = false := by
    decide +kernel
  exact hAll word (mem_all word) (by rw [hSingle]; rfl) single (by rw [hSingle]; simp) rule hMem

theorem ofWord?_eq_of_sameWord {a b : List Char} (hSame : Text.sameWord a b = true) :
    ofWord? b = ofWord? a := by
  rw [Text.sameWord_iff] at hSame
  unfold ofWord? Text.sameWord
  rw [hSame]

/-- A word spelled like a keyword is that keyword. -/
theorem ofWord?_of_sameWord {word : Keyword} {single : String} (hSingle : word.words = [single])
    {text : List Char} (hSame : Text.sameWord single.toList text = true) :
    ofWord? text = some word := by
  have hAll : ∀ word ∈ all, word.words.length = 1 → ∀ single ∈ word.words,
      ofWord? single.toList = some word := by
    decide +kernel
  rw [ofWord?_eq_of_sameWord hSame]
  exact hAll word (mem_all word) (by rw [hSingle]; rfl) single (by rw [hSingle]; simp)

end Keyword

namespace RuleSet.Reads

variable {dialect : Dialect} {tail : List Char} {gs : List Glyph}

/-- A keyword of one word, in any case. -/
theorem keywordText {word : Keyword} {single : String} {text : List Char}
    (hReads : dialect.grammar.tokens.Reads true tail gs) (hSingle : word.words = [single])
    (hSame : Text.sameWord single.toList text = true) (hNeutral : Text.Neutral tail) :
    dialect.grammar.tokens.Reads true (text ++ tail)
      (⟨.keyword word, String.ofList text⟩ :: gs) := by
  have hMem : single ∈ word.words := by rw [hSingle]; exact List.mem_singleton_self _
  have hWord := Keyword.isPhraseWord_of_mem hMem
  obtain ⟨c, cs, rfl, hStart, -⟩ := hWord.head_of_sameWord hSame
  have hChars := (hWord.of_sameWord hSame).2
  have hText : Token.NameText (c :: cs) [⟨c :: cs, false⟩] :=
    .single (.bare hStart fun d hd =>
      Text.isWordChar_of_isWordStart (hChars d (List.mem_cons_of_mem _ hd)))
  have hRead : Token.readName (c :: cs) = some (.keyword word) := by
    rw [Token.readName_eq hText]
    simp [Token.partsKeyword?, Keyword.ofWord?_of_sameWord hSingle hSame]
  refine hReads.wordText hText hStart hRead hNeutral
    fun rule hMem first further keyword length hPhrase hFirst _ => ?_
  have hOpens := hPhrase.opensWith hFirst hSame
  rw [Keyword.opensWith_single hSingle hMem] at hOpens
  cases hOpens

end RuleSet.Reads

/-! ## Phrases -/

namespace Pattern

/-- The words of two lists agree as far as both go. -/
def agree : List String → List String → Bool
  | a :: as, b :: bs => Text.sameWord a.toList b.toList && agree as bs
  | _, _ => true

/-- Two ways to complete a phrase at the same text agree. -/
theorem agree_of_furtherWordsLength? {words others : List String} {cs : List Char}
    {length length' : Nat} (hWords : ∀ word ∈ words, IsPhraseWord word)
    (hOthers : ∀ word ∈ others, IsPhraseWord word)
    (hLength : furtherWordsLength? words cs = some length)
    (hLength' : furtherWordsLength? others cs = some length') : agree words others = true := by
  induction words generalizing others cs length length' with
  | nil => cases others <;> rfl
  | cons word words ih =>
    cases others with
    | nil => rfl
    | cons other others =>
      obtain ⟨hWord, hWords⟩ := List.forall_mem_cons.1 hWords
      obtain ⟨hOther, hOthers⟩ := List.forall_mem_cons.1 hOthers
      obtain ⟨gap, b, rest, _, rfl, -, hBlank, hSame, hFurther, -⟩ :=
        (furtherWordsLength?_cons_iff hWord).1 hLength
      obtain ⟨gap', b', rest', _, hText, -, hBlank', hSame', hFurther', -⟩ :=
        (furtherWordsLength?_cons_iff hOther).1 hLength'
      have hTake : (gap ++ (b ++ rest)).takeWhile Text.isBlank = gap := by
        obtain ⟨c, b, rfl, -, hHead⟩ := hWord.head_of_sameWord hSame
        exact Token.takeWhile_append_of_forall hBlank (by simpa using hHead)
      have hTake' : (gap' ++ (b' ++ rest')).takeWhile Text.isBlank = gap' := by
        obtain ⟨c, b', rfl, -, hHead⟩ := hOther.head_of_sameWord hSame'
        exact Token.takeWhile_append_of_forall hBlank' (by simpa using hHead)
      rw [← hText, hTake] at hTake'
      subst hTake'
      rw [List.append_cancel_left_eq] at hText
      have hTakeWord := takeWhile_isWordChar_of_wordsLength? hWord hSame hFurther
      have hTakeWord' := takeWhile_isWordChar_of_wordsLength? hOther hSame' hFurther'
      rw [← hText, hTakeWord] at hTakeWord'
      subst hTakeWord'
      rw [List.append_cancel_left_eq] at hText
      subst hText
      rw [agree, ih hWords hOthers hFurther hFurther', Bool.and_true, Text.sameWord_iff]
      rw [Text.sameWord_iff] at hSame hSame'
      rw [hSame, hSame']

end Pattern

namespace RuleSet

/-- The words of a rule for a phrase. -/
def phraseWords (rule : TokenRule) : List String :=
  match rule.pattern with
  | .words list => list
  | _ => []

/-- The kind that a rule for a phrase yields. -/
def phraseKind (rule : TokenRule) : Option TokenKind := rule.reading.apply []

/-- Two phrases that match the same text take the same of it. -/
theorem match?_unique {rule other : TokenRule} (hRule : rule ∈ phrases) (hOther : other ∈ phrases)
    {cs : List Char} {found found' : List Char × Option TokenKind}
    (hMatch : rule.match? cs = some found) (hMatch' : other.match? cs = some found') :
    found = found' := by
  have hTable : ∀ rule ∈ phrases, ∀ other ∈ phrases,
      Pattern.agree (phraseWords rule) (phraseWords other) = true →
      phraseWords rule = phraseWords other ∧ phraseKind rule = phraseKind other := by
    decide +kernel
  obtain ⟨first, further, keyword, hPhrase⟩ := exists_isPhrase hRule
  obtain ⟨first', further', keyword', hPhrase'⟩ := exists_isPhrase hOther
  have hWords : phraseWords rule = first :: further := by rw [phraseWords, hPhrase.pattern]
  have hWords' : phraseWords other = first' :: further' := by rw [phraseWords, hPhrase'.pattern]
  have hKind : phraseKind rule = some (.keyword keyword) := by
    rw [phraseKind, hPhrase.reading]
    rfl
  have hKind' : phraseKind other = some (.keyword keyword') := by
    rw [phraseKind, hPhrase'.reading]
    rfl
  obtain ⟨lexeme, kind?⟩ := found
  obtain ⟨lexeme', kind?'⟩ := found'
  obtain ⟨a, rest, length, rfl, hSame, hFurther, rfl, rfl⟩ := hPhrase.match?_eq_some_iff.1 hMatch
  obtain ⟨a', rest', length', hText, hSame', hFurther', rfl, rfl⟩ :=
    hPhrase'.match?_eq_some_iff.1 hMatch'
  have hTake := Pattern.takeWhile_isWordChar_of_wordsLength? hPhrase.first_word hSame
    hFurther
  have hTake' := Pattern.takeWhile_isWordChar_of_wordsLength? hPhrase'.first_word hSame'
    hFurther'
  rw [← hText, hTake] at hTake'
  subst hTake'
  rw [List.append_cancel_left_eq] at hText
  subst hText
  have hAgree : Pattern.agree (first :: further) (first' :: further') = true := by
    rw [Pattern.agree, Pattern.agree_of_furtherWordsLength? hPhrase.further_words
      hPhrase'.further_words hFurther hFurther', Bool.and_true, Text.sameWord_iff]
    rw [Text.sameWord_iff] at hSame hSame'
    rw [hSame, hSame']
  obtain ⟨hEq, hKinds⟩ := hTable rule hRule other hOther (by rw [hWords, hWords']; exact hAgree)
  rw [hWords, hWords'] at hEq
  obtain ⟨-, rfl⟩ := List.cons.inj hEq
  rw [hKind, hKind'] at hKinds
  rw [hFurther] at hFurther'
  cases hFurther'
  rw [hKinds]

/-- What one phrase takes of a text is what the phrases take of it. -/
theorem findSome?_phrases {rule : TokenRule} (hMem : rule ∈ phrases) {cs : List Char}
    {found : List Char × Option TokenKind} (hMatch : rule.match? cs = some found) :
    phrases.findSome? (·.match? cs) = some found := by
  cases hFound : phrases.findSome? (·.match? cs) with
  | none =>
    rw [List.findSome?_eq_none_iff.1 hFound rule hMem] at hMatch
    cases hMatch
  | some other =>
    obtain ⟨rule', hMem', hMatch'⟩ := List.exists_of_findSome?_eq_some hFound
    rw [match?_unique hMem' hMem hMatch' hMatch]

/-- A keyword of two words is the keyword of a phrase. -/
theorem exists_phrase_of_words {word : Keyword} {first second : String}
    (hWords : word.words = [first, second]) :
    ∃ rule ∈ phrases, IsPhrase rule first [second] word := by
  have hTable : ∀ word ∈ Keyword.all, word.words.length = 2 →
      ∃ rule ∈ phrases, phraseWords rule = word.words ∧ phraseKind rule = some (.keyword word) := by
    decide +kernel
  obtain ⟨rule, hMem, hRule, hKind⟩ :=
    hTable word (Keyword.mem_all word) (by rw [hWords]; rfl)
  obtain ⟨first', further, keyword, hPhrase⟩ := exists_isPhrase hMem
  rw [phraseWords, hPhrase.pattern, hWords] at hRule
  cases hRule
  rw [phraseKind, hPhrase.reading] at hKind
  cases hKind
  exact ⟨rule, hMem, hPhrase⟩

end RuleSet

namespace RuleSet.Reads

variable {dialect : Dialect} {tail : List Char} {gs : List Glyph}

/-- A phrase of two words with one space between them. -/
theorem phrase {word : Keyword} {first second : String}
    (hReads : dialect.grammar.tokens.Reads true tail gs) (hWords : word.words = [first, second])
    (hNeutral : Text.Neutral tail) :
    dialect.grammar.tokens.Reads true (word.spelling.toList ++ tail)
      (⟨.keyword word, word.spelling⟩ :: gs) := by
  obtain ⟨rule, hMem, hPhrase⟩ := exists_phrase_of_words hWords
  have hSpelling : word.spelling.toList = first.toList ++ (' ' :: second.toList) := by
    rw [Keyword.spelling, hWords, Text.toList_intercalate_cons]
    simp
  have hSecond := hPhrase.further_words second (List.mem_singleton_self _)
  have hEnd : Pattern.furtherWordsLength? [] tail = some 0 := by
    have hStop : Pattern.continuesWord tail = false :=
      Pattern.continuesWord_eq_false_iff.2 fun c hc => hNeutral.isWordChar_head hc
    rw [Pattern.furtherWordsLength?, hStop]
    rfl
  have hFurther : Pattern.furtherWordsLength? [second] (' ' :: second.toList ++ tail) =
      some (1 + second.toList.length + 0) :=
    (Pattern.furtherWordsLength?_cons_iff hSecond).2
      ⟨[' '], second.toList, tail, 0, rfl, List.cons_ne_nil _ _,
        List.forall_mem_singleton.2 (by decide), Text.sameWord_refl _, hEnd, rfl⟩
  have hMatch : rule.match? (word.spelling.toList ++ tail) =
      some (word.spelling.toList, some (.keyword word)) := by
    refine hPhrase.match?_eq_some_iff.2 ⟨first.toList, ' ' :: second.toList ++ tail,
      1 + second.toList.length + 0, ?_, Text.sameWord_refl _, hFurther, ?_, rfl⟩
    · rw [hSpelling, List.append_assoc]
    · have hTotal : first.toList.length + (1 + second.toList.length + 0) =
          word.spelling.toList.length := by
        rw [hSpelling, List.length_append, List.length_cons]
        omega
      rw [hTotal, List.take_left]
  have hFirst := findSome?_phrases hMem hMatch
  obtain ⟨c, cs, hCons, hStart, -⟩ := hPhrase.first_word.head_of_sameWord (Text.sameWord_refl _)
  have hText : word.spelling.toList = c :: (cs ++ ' ' :: second.toList) := by
    rw [hSpelling, hCons, List.cons_append]
  rw [hText] at hFirst ⊢
  have hSelf : word.spelling = String.ofList (c :: (cs ++ ' ' :: second.toList)) := by
    rw [← hText, String.ofList_toList]
  rw [hSelf]
  refine hReads.lexeme (Text.gapLength_of_isWordStart hStart) ?_
  rw [List.cons_append, Dialect.first?_of_wordStart (Or.inl hStart), ← List.cons_append, hFirst]
  rfl

/-- A keyword in its own spelling. -/
theorem keyword (word : Keyword) (hReads : dialect.grammar.tokens.Reads true tail gs)
    (hNeutral : Text.Neutral tail) :
    dialect.grammar.tokens.Reads true (word.spelling.toList ++ tail)
      (⟨.keyword word, word.spelling⟩ :: gs) := by
  have hWords : (∃ single, word.words = [single]) ∨
      ∃ first second, word.words = [first, second] := by
    cases word <;> simp [Keyword.words]
  rcases hWords with ⟨single, hSingle⟩ | ⟨first, second, hWords⟩
  · have hSpelling : word.spelling = single := by
      rw [Keyword.spelling, hSingle]
      rfl
    have hSame : Text.sameWord single.toList word.spelling.toList = true := by
      rw [hSpelling]
      exact Text.sameWord_refl _
    have hText := hReads.keywordText hSingle hSame hNeutral
    rwa [String.ofList_toList] at hText
  · exact hReads.phrase hWords hNeutral

/-! ## Literals and variables -/

/-- A number. -/
theorem finds_number {text : List Char} {kind : TokenKind}
    (hLength : Token.numberLength? (text ++ tail) = some text.length)
    (hRead : Token.readNumber text = some kind) : dialect.grammar.tokens.Finds text tail kind := by
  obtain ⟨c, cs, hCons, hDigit⟩ := Token.exists_digit_of_numberLength? hLength
  have hPos := Token.numberLength?_pos hLength
  obtain ⟨d, text, rfl⟩ := List.exists_cons_of_ne_nil (List.length_pos_iff.1 hPos)
  obtain rfl : d = c := (List.cons.inj hCons).1
  have hGap : Text.gapLength (d :: text ++ tail) = 0 := by
    obtain ⟨k, rfl⟩ := Text.exists_digit hDigit
    have hTable : ∀ k : Fin 10, Text.isBlank (Char.ofNat (48 + k)) = false ∧
        Char.ofNat (48 + k) ≠ '-' ∧ Char.ofNat (48 + k) ≠ '/' := by
      decide
    obtain ⟨hBlank, hMinus, hSlash⟩ := hTable k
    exact Text.gapLength_cons_eq_zero hBlank hMinus hSlash
  refine ⟨List.cons_ne_nil d text, hGap, ?_⟩
  rw [List.cons_append, Dialect.first?_of_isDigit hDigit, ← List.cons_append]
  refine TokenRule.match?_eq_some_iff.2 ⟨(d :: text).length, ?_, List.take_left.symm, hRead.symm⟩
  show (Token.numberLength? (d :: text ++ tail)).filter _ = _
  rw [hLength, Option.filter_some, if_pos (by rw [Nat.blt_eq]; exact hPos)]

/-- A text between quote characters that it does not hold. -/
theorem finds_text {quote : Char} {value : List Char} (hQuote : quote = '\x22' ∨ quote = '\x27')
    (hValue : quote ∉ value) :
    dialect.grammar.tokens.Finds (quote :: (value ++ [quote])) tail
      (.text (String.ofList value)) := by
  have hLength : Token.quotedLength? quote (quote :: (value ++ [quote]) ++ tail) =
      some (quote :: (value ++ [quote])).length :=
    Token.quotedLength?_eq_some_iff.2 ⟨value, tail, by simp, hValue, by simp⟩
  have hRead := Token.readText_quoted hQuote value
  have hRule : ∀ name priority,
      (TokenRule.scanned name priority (Token.quotedLength? quote) Token.readText).match?
        (quote :: (value ++ [quote]) ++ tail) =
          some (quote :: (value ++ [quote]), some (.text (String.ofList value))) := by
    intro name priority
    refine TokenRule.match?_eq_some_iff.2
      ⟨(quote :: (value ++ [quote])).length, ?_, List.take_left.symm, hRead.symm⟩
    show (Token.quotedLength? quote (quote :: (value ++ [quote]) ++ tail)).filter _ = _
    rw [hLength, Option.filter_some, if_pos (by rw [Nat.blt_eq]; simp)]
  rcases hQuote with rfl | rfl
  · refine ⟨List.cons_ne_nil _ _, Text.gapLength_cons_eq_zero (by decide) (by decide) (by decide),
      ?_⟩
    rw [List.cons_append, Dialect.first?_of_quote.2]
    exact hRule _ _
  · refine ⟨List.cons_ne_nil _ _, Text.gapLength_cons_eq_zero (by decide) (by decide) (by decide),
      ?_⟩
    rw [List.cons_append, Dialect.first?_of_quote.1]
    exact hRule _ _

end RuleSet.Reads

/-! ## Variables and marks -/

namespace RuleSet.Reads

variable {dialect : Dialect} {tail : List Char} {gs : List Glyph}

theorem variableNameLength_append {name : List Char}
    (hName : ∀ c ∈ name, Token.isVariableChar c = true) (hNeutral : Text.Neutral tail) :
    Token.variableNameLength (name ++ tail) = name.length := by
  rw [Token.variableNameLength, Token.takeWhile_append_of_forall hName]
  intro c hc
  have hPoint : (c == '.') = false := beq_eq_false_iff_ne.2 (hNeutral.ne_head hc (by decide))
  rw [Token.isVariableChar, hNeutral.isWordChar_head hc, hPoint]
  rfl

/-- The name of a variable does not start with an at sign. -/
theorem exists_variableHead {name : List Char} (hNe : name ≠ [])
    (hName : ∀ c ∈ name, Token.isVariableChar c = true) :
    ∃ c cs, name = c :: cs ∧ c ≠ '@' := by
  obtain ⟨c, cs, rfl⟩ := List.exists_cons_of_ne_nil hNe
  refine ⟨c, cs, rfl, ?_⟩
  rintro rfl
  exact absurd (hName '@' List.mem_cons_self) (by decide)

/-- A user variable of the dialect that has them. -/
theorem finds_userVariable {name : List Char} (hNe : name ≠ [])
    (hName : ∀ c ∈ name, Token.isVariableChar c = true) (hNeutral : Text.Neutral tail) :
    Dialect.mysql.grammar.tokens.Finds ('@' :: name) tail
      (.userVariable (String.ofList name)) := by
  have hLength := variableNameLength_append hName hNeutral
  obtain ⟨c, name, rfl, hSign⟩ := exists_variableHead hNe hName
  have hSystem : systemVariable.match? ('@' :: (c :: name ++ tail)) = none := by
    have hNone : Token.systemVariableLength? ('@' :: (c :: name ++ tail)) = none := by
      unfold Token.systemVariableLength?
      split
      · next h => exact absurd (List.cons.inj (List.cons.inj h).2).1 hSign
      · rfl
    rw [systemVariable, TokenRule.match?, TokenRule.scanned, Pattern.length?, hNone]
    rfl
  have hUser : userVariable.match? ('@' :: (c :: name ++ tail)) =
      some ('@' :: c :: name, some (.userVariable (String.ofList (c :: name)))) := by
    refine TokenRule.match?_eq_some_iff.2 ⟨(c :: name).length + 1, ?_, ?_, rfl⟩
    · show (Token.userVariableLength? ('@' :: (c :: name ++ tail))).filter _ = _
      rw [Token.userVariableLength?, hLength]
      rfl
    · rw [List.take_succ_cons, List.take_left]
  refine ⟨List.cons_ne_nil _ _, Text.gapLength_cons_eq_zero (by decide) (by decide) (by decide), ?_⟩
  rw [List.cons_append, Dialect.first?_of_at, Dialect.variableRules, List.findSome?_cons, hSystem]
  show List.findSome? _ [userVariable] = _
  rw [List.findSome?_cons, hUser]

/-- A system variable of the dialect that has them. -/
theorem finds_systemVariable {name : List Char} (hNe : name ≠ [])
    (hName : ∀ c ∈ name, Token.isVariableChar c = true) (hNeutral : Text.Neutral tail) :
    Dialect.mysql.grammar.tokens.Finds ('@' :: '@' :: name) tail
      (.systemVariable (String.ofList name)) := by
  have hLength := variableNameLength_append hName hNeutral
  obtain ⟨c, name, rfl⟩ := List.exists_cons_of_ne_nil hNe
  have hSystem : systemVariable.match? ('@' :: ('@' :: (c :: name ++ tail))) =
      some ('@' :: '@' :: c :: name, some (.systemVariable (String.ofList (c :: name)))) := by
    refine TokenRule.match?_eq_some_iff.2 ⟨(c :: name).length + 2, ?_, ?_, rfl⟩
    · show (Token.systemVariableLength? ('@' :: '@' :: (c :: name ++ tail))).filter _ = _
      rw [Token.systemVariableLength?, hLength]
      rfl
    · rw [List.take_succ_cons, List.take_succ_cons, List.take_left]
  refine ⟨List.cons_ne_nil _ _, Text.gapLength_cons_eq_zero (by decide) (by decide) (by decide), ?_⟩
  rw [List.cons_append, List.cons_append, Dialect.first?_of_at, Dialect.variableRules,
    List.findSome?_cons, hSystem]

/-- A mark that no other mark continues, whatever follows it. -/
theorem finds_simpleMark {c : Char} {kind : TokenKind}
    (hHead : c ∈ markHeads ∧ Text.isBlank c = false ∧ c ≠ '-' ∧ c ≠ '/')
    (hMatch : marks.findSome? (·.match? (c :: tail)) = some ([c], some kind)) :
    dialect.grammar.tokens.Finds [c] tail kind := by
  obtain ⟨hMem, hBlank, hMinus, hSlash⟩ := hHead
  refine ⟨List.cons_ne_nil _ _, Text.gapLength_cons_eq_zero hBlank hMinus hSlash, ?_⟩
  rw [List.singleton_append, Dialect.first?_of_markHead hMem, hMatch]

theorem simpleMark {c : Char} {kind : TokenKind}
    (hReads : dialect.grammar.tokens.Reads true tail gs)
    (hHead : c ∈ markHeads ∧ Text.isBlank c = false ∧ c ≠ '-' ∧ c ≠ '/')
    (hMatch : marks.findSome? (·.match? (c :: tail)) = some ([c], some kind)) :
    dialect.grammar.tokens.Reads true (c :: tail) (⟨kind, String.ofList [c]⟩ :: gs) :=
  hReads.found (finds_simpleMark hHead hMatch)

theorem leftParen (hReads : dialect.grammar.tokens.Reads true tail gs) :
    dialect.grammar.tokens.Reads true ('(' :: tail) (⟨.leftParen, "("⟩ :: gs) :=
  hReads.simpleMark (by decide) rfl

theorem rightParen (hReads : dialect.grammar.tokens.Reads true tail gs) :
    dialect.grammar.tokens.Reads true (')' :: tail) (⟨.rightParen, ")"⟩ :: gs) :=
  hReads.simpleMark (by decide) rfl

theorem comma (hReads : dialect.grammar.tokens.Reads true tail gs) :
    dialect.grammar.tokens.Reads true (',' :: tail) (⟨.comma, ","⟩ :: gs) :=
  hReads.simpleMark (by decide) rfl

/-- A mark of two characters does not match where only the first stands. -/
theorem symbol_match?_of_ne {name : String} {priority : Nat} {mark : String} {kind : TokenKind}
    {c d : Char} (hMark : mark.toList = [c, d]) (hTail : ∀ e ∈ tail.head?, e ≠ d) :
    (TokenRule.symbol name priority mark kind).match? (c :: tail) = none := by
  have hPrefix : mark.toList.isPrefixOf (c :: tail) = false := by
    rw [hMark]
    cases tail with
    | nil => simp [List.isPrefixOf]
    | cons e tail => simp [List.isPrefixOf, (hTail e rfl).symm]
  rw [TokenRule.match?, TokenRule.symbol, Pattern.length?, hPrefix]
  rfl

/-- The two marks that others continue, in front of a neutral text. -/
theorem less_match? (hNeutral : Text.Neutral tail) :
    marks.findSome? (·.match? ('<' :: tail)) = some (['<'], some .less) := by
  have hEqual : (TokenRule.symbol "LT_EQ" 15 "<=" .lessEqual).match? ('<' :: tail) = none :=
    symbol_match?_of_ne rfl fun e he => hNeutral.ne_head he (by decide)
  have hAngle : (TokenRule.symbol "NOT_EQ_ANGLE" 15 "<>" .notEqual).match? ('<' :: tail) = none :=
    symbol_match?_of_ne rfl fun e he => hNeutral.ne_head he (by decide)
  rw [marks, List.findSome?_cons, hEqual]
  show List.findSome? _ (_ :: _ :: _) = _
  rw [List.findSome?_cons, List.findSome?_cons, hAngle]
  rfl

theorem greater_match? (hNeutral : Text.Neutral tail) :
    marks.findSome? (·.match? ('>' :: tail)) = some (['>'], some .greater) := by
  have hEqual : (TokenRule.symbol "GT_EQ" 15 ">=" .greaterEqual).match? ('>' :: tail) = none :=
    symbol_match?_of_ne rfl fun e he => hNeutral.ne_head he (by decide)
  rw [marks, List.findSome?_cons, List.findSome?_cons, hEqual]
  rfl

/-- A minus sign or a slash in front of a neutral text starts no comment. -/
theorem gapLength_sign (hNeutral : Text.Neutral tail) :
    Text.gapLength ('-' :: tail) = 0 ∧ Text.gapLength ('/' :: tail) = 0 := by
  have hBlank : ∀ c : Char, c = '-' ∨ c = '/' → Text.isBlank c = false := by
    rintro c (rfl | rfl) <;> decide
  have hOpen : ∀ c : Char, c = '-' ∨ c = '/' → Text.gapLength (c :: tail) = 0 := by
    intro c hc
    rw [Text.gapLength.eq_def]
    split
    · rfl
    · next h =>
      have hHead : '-' ∈ tail.head? := by rw [(List.cons.inj h).2]; rfl
      exact absurd rfl (hNeutral.ne_head hHead (by decide))
    · next h =>
      have hHead : '*' ∈ tail.head? := by rw [(List.cons.inj h).2]; rfl
      exact absurd rfl (hNeutral.ne_head hHead (by decide))
    · next h =>
      obtain ⟨rfl, rfl⟩ := List.cons.inj h
      rw [hBlank _ hc, if_neg Bool.false_ne_true]
  exact ⟨hOpen '-' (Or.inl rfl), hOpen '/' (Or.inr rfl)⟩

/-- A mark in front of a neutral text. -/
theorem finds_mark {kind : TokenKind} {text : String} (hText : text ∈ kind.spellings)
    (hNeutral : Text.Neutral tail) : dialect.grammar.tokens.Finds text.toList tail kind := by
  -- A mark of two characters that no other one continues.
  have hDouble : ∀ {kind : TokenKind} (c d : Char),
      c ∈ markHeads ∧ Text.isBlank c = false ∧ c ≠ '-' ∧ c ≠ '/' →
      marks.findSome? (·.match? (c :: d :: tail)) = some ([c, d], some kind) →
      dialect.grammar.tokens.Finds [c, d] tail kind := by
    intro kind c d hHead hMatch
    refine ⟨List.cons_ne_nil _ _,
      Text.gapLength_cons_eq_zero hHead.2.1 hHead.2.2.1 hHead.2.2.2, ?_⟩
    rw [List.cons_append, Dialect.first?_of_markHead hHead.1]
    exact hMatch
  have hSign : ∀ {kind : TokenKind} (c : Char), c ∈ markHeads → Text.gapLength (c :: tail) = 0 →
      marks.findSome? (·.match? (c :: tail)) = some ([c], some kind) →
      dialect.grammar.tokens.Finds [c] tail kind := by
    intro kind c hHead hGap hMatch
    refine ⟨List.cons_ne_nil _ _, hGap, ?_⟩
    rw [List.singleton_append, Dialect.first?_of_markHead hHead]
    exact hMatch
  unfold TokenKind.spellings at hText
  split at hText <;> simp only [List.mem_cons, List.not_mem_nil, or_false] at hText
  · subst hText; exact finds_simpleMark (by decide) rfl
  · subst hText; exact hSign '-' (by decide) (gapLength_sign hNeutral).1 rfl
  · subst hText; exact finds_simpleMark (by decide) rfl
  · subst hText; exact hSign '/' (by decide) (gapLength_sign hNeutral).2 rfl
  · subst hText; exact finds_simpleMark (by decide) rfl
  · subst hText; exact finds_simpleMark (by decide) rfl
  · rcases hText with rfl | rfl
    · exact hDouble '<' '>' (by decide) rfl
    · exact hDouble '!' '=' (by decide) rfl
  · subst hText; exact finds_simpleMark (by decide) (less_match? hNeutral)
  · subst hText; exact hDouble '<' '=' (by decide) rfl
  · subst hText; exact finds_simpleMark (by decide) (greater_match? hNeutral)
  · subst hText; exact hDouble '>' '=' (by decide) rfl
  · subst hText; exact hDouble '|' '|' (by decide) rfl
  · subst hText; exact finds_simpleMark (by decide) rfl
  · subst hText; exact finds_simpleMark (by decide) rfl
  · subst hText; exact finds_simpleMark (by decide) rfl
  · subst hText; exact finds_simpleMark (by decide) rfl
  · subst hText; exact finds_simpleMark (by decide) rfl

theorem mark {kind : TokenKind} {text : String}
    (hReads : dialect.grammar.tokens.Reads true tail gs) (hText : text ∈ kind.spellings)
    (hNeutral : Text.Neutral tail) :
    dialect.grammar.tokens.Reads true (text.toList ++ tail) (⟨kind, text⟩ :: gs) :=
  hReads.foundText (finds_mark hText hNeutral)

end RuleSet.Reads

/-! ## Integers -/

namespace Token

/-- A neutral text continues no number. -/
theorem fractionLength_of_neutral {tail : List Char} (hNeutral : Text.Neutral tail) :
    fractionLength tail = 0 := by
  unfold fractionLength
  split
  · exact absurd rfl (hNeutral.ne_head (c := '.') rfl (by decide))
  · rfl

theorem exponentLength_of_neutral {tail : List Char} (hNeutral : Text.Neutral tail) :
    exponentLength tail = 0 := by
  unfold exponentLength
  split
  · exact absurd rfl (hNeutral.ne_head (c := 'e') rfl (by decide))
  · exact absurd rfl (hNeutral.ne_head (c := 'E') rfl (by decide))
  · rfl

/-- The scanner takes a row of digits whole, in front of a neutral text. -/
theorem numberLength?_digits {digits tail : List Char} (hNe : digits ≠ [])
    (hDigits : ∀ c ∈ digits, c.isDigit = true) (hNeutral : Text.Neutral tail) :
    numberLength? (digits ++ tail) = some digits.length := by
  have hCount : digitCount (digits ++ tail) = digits.length := by
    rw [digitCount, takeWhile_append_of_forall hDigits fun c hc => hNeutral.isDigit_head hc]
  have hPos := List.length_pos_iff.2 hNe
  rw [numberLength?, hCount]
  dsimp only
  rw [if_neg (by omega), List.drop_left, fractionLength_of_neutral hNeutral, Nat.add_zero,
    List.drop_left, exponentLength_of_neutral hNeutral, Nat.add_zero]

/-- The decimal digits of an integer read back. -/
theorem readNumber_toDigits {value : Int64} (hValue : 0 ≤ value.toInt) :
    readNumber (Nat.toDigits 10 value.toInt.toNat) = some (.integer value) := by
  have hDigits : ∀ c ∈ Nat.toDigits 10 value.toInt.toNat, c.isDigit = true := fun c hMem =>
    Nat.isDigit_of_mem_toDigits (by decide) (by decide) hMem
  have hMarks : ∀ c : Char, c.isDigit = true → (c == '.' || c == 'e' || c == 'E') = false := by
    intro c hDigit
    obtain ⟨k, rfl⟩ := Text.exists_digit hDigit
    clear hDigit
    revert k
    decide
  have hPlain : isFloating (Nat.toDigits 10 value.toInt.toNat) = false := by
    rw [isFloating, List.any_eq_false]
    exact fun c hMem => by rw [hMarks c (hDigits c hMem)]; exact Bool.false_ne_true
  have hNe : (Nat.toDigits 10 value.toInt.toNat).isEmpty = false := by
    rw [List.isEmpty_eq_false_iff]
    exact Nat.toDigits_ne_nil
  have hLargest : value.toInt.toNat ≤ largestInteger := by
    have := value.toInt_lt
    unfold largestInteger
    omega
  rw [readNumber, hPlain, if_neg Bool.false_ne_true, hNe, List.all_eq_true.2 hDigits]
  simp only [Bool.not_true, Bool.or_self, Bool.false_eq_true, if_false, Number.digitsValue_toDigits]
  rw [if_pos hLargest, ofNat_toNat_toInt hValue]

end Token

/-- An integer that is not negative. -/
theorem RuleSet.Reads.finds_integer {dialect : Dialect} {tail : List Char} {value : Int64}
    (hValue : 0 ≤ value.toInt) (hNeutral : Text.Neutral tail) :
    dialect.grammar.tokens.Finds (toString value.toInt).toList tail (.integer value) := by
  have hDigits : ∀ c ∈ Nat.toDigits 10 value.toInt.toNat, c.isDigit = true := fun c hMem =>
    Nat.isDigit_of_mem_toDigits (by decide) (by decide) hMem
  rw [Token.toList_toString_toInt hValue]
  exact finds_number (Token.numberLength?_digits Nat.toDigits_ne_nil hDigits hNeutral)
    (Token.readNumber_toDigits hValue)

theorem RuleSet.Reads.integer {dialect : Dialect} {tail : List Char} {gs : List Glyph}
    {value : Int64} (hReads : dialect.grammar.tokens.Reads true tail gs)
    (hValue : 0 ≤ value.toInt) (hNeutral : Text.Neutral tail) :
    dialect.grammar.tokens.Reads true ((toString value.toInt).toList ++ tail)
      (⟨.integer value, toString value.toInt⟩ :: gs) :=
  hReads.foundText (finds_integer hValue hNeutral)

end SqlQuery
